/-
This file proves how the base URL of a service and the path of a list are joined.
The slashes at the end of the one and at the start of the other are all that is
taken away, and one slash is put in their place, so that it does not matter how many
of them there are.
-/

import ListQuery.Client.Endpoint
import ListQuery.Proofs.Text.Run

namespace ListQuery

namespace Endpoint

/-- A text of nothing but slashes. -/
def slashes (count : Nat) : String :=
  String.ofList (List.replicate count '/')

variable {run : List Char}

theorem isSlash_iff {char : Char} : isSlash char = true ↔ char = '/' :=
  decide_eq_true_iff

/-- A run of slashes is one of the texts of nothing but slashes. -/
theorem exists_slashes (each : ∀ char ∈ run, isSlash char = true) :
    ∃ count, String.ofList run = slashes count := by
  have same : run = List.replicate run.length '/' :=
    List.eq_replicate_of_mem fun char member => isSlash_iff.mp (each char member)
  exact ⟨run.length, congrArg String.ofList same⟩

theorem isSlash_of_mem_slashes (count : Nat) :
    ∀ char ∈ (slashes count).toList, isSlash char = true := by
  intro char member
  rw [slashes, String.toList_ofList] at member
  exact isSlash_iff.mpr (List.eq_of_mem_replicate member)

/-! ### The base URL -/

/-- Slashes at the end of a base URL do not count. -/
theorem ofBase_append_slashes (base : String) (count : Nat) :
    ofBase (base ++ slashes count) = ofBase base := by
  have same := Text.rdropWhile_append (isSlash_of_mem_slashes count) base.toList
  rw [← String.toList_append] at same
  exact congrArg Endpoint.mk same

/-- What is kept of a base URL does not end in a slash. -/
theorem getLast?_baseUrl_ne (base : String) : (ofBase base).baseUrl.toList.getLast? ≠ some '/' := by
  have stops : Text.Stops isSlash (ofBase base).base.reverse := Text.stops_rdropWhile base.toList
  rw [baseUrl, String.toList_ofList, ← List.head?_reverse]
  exact fun last => Bool.noConfusion (stops '/' last)

/-- A base URL is what is kept of it and slashes behind that. -/
theorem exists_baseUrl_append (base : String) :
    ∃ count, base = (ofBase base).baseUrl ++ slashes count := by
  have each : ∀ char ∈ base.toList.rtakeWhile isSlash, isSlash char = true :=
    fun _ => List.mem_rtakeWhile_imp
  obtain ⟨count, trailing⟩ := exists_slashes each
  refine ⟨count, ?_⟩
  calc base = String.ofList (base.toList.rdropWhile isSlash ++ base.toList.rtakeWhile isSlash) := by
        rw [List.rdropWhile_append_rtakeWhile, String.ofList_toList]
    _ = String.ofList (base.toList.rdropWhile isSlash) ++ slashes count := by
        rw [String.ofList_append, trailing]

/-! ### The path -/

/-- A path without the slashes at its start. -/
def bare (path : String) : String :=
  String.ofList (path.toList.dropWhile isSlash)

theorem bare_slashes_append (count : Nat) (path : String) :
    bare (slashes count ++ path) = bare path := by
  rw [bare, String.toList_append, List.dropWhile_append_of_pos (isSlash_of_mem_slashes count), bare]

theorem head?_bare_ne (path : String) : (bare path).toList.head? ≠ some '/' := by
  rw [bare, String.toList_ofList]
  exact fun head => Bool.noConfusion (Text.stops_dropWhile path.toList '/' head)

/-- A path is slashes and what is left of it behind them. -/
theorem exists_append_bare (path : String) : ∃ count, path = slashes count ++ bare path := by
  have each : ∀ char ∈ path.toList.takeWhile isSlash, isSlash char = true :=
    fun _ => List.mem_takeWhile_imp
  obtain ⟨count, leading⟩ := exists_slashes each
  refine ⟨count, ?_⟩
  calc path = String.ofList (path.toList.takeWhile isSlash ++ path.toList.dropWhile isSlash) := by
        rw [List.takeWhile_append_dropWhile, String.ofList_toList]
    _ = slashes count ++ bare path := by rw [String.ofList_append, leading, bare]

/-! ### Joining -/

/-- The URL of a path is the base URL, a slash and the bare path. -/
theorem url_eq (endpoint : Endpoint) (path : String) :
    endpoint.url path = endpoint.baseUrl ++ "/" ++ bare path := by
  rw [← String.toList_inj, url, baseUrl, bare]
  simp only [String.toList_append, String.toList_ofList, List.append_assoc]
  rfl

/-- A base URL and a path are joined with one slash, however many of them the one ends in and the
other starts with, and nothing but these is taken away. -/
theorem url_seam (base path : String) (trailing leading : Nat) :
    (ofBase (base ++ slashes trailing)).url (slashes leading ++ path) = (ofBase base).url path ∧
      ∃ rest, (ofBase base).url path = (ofBase base).baseUrl ++ "/" ++ rest ∧
        (ofBase base).baseUrl.toList.getLast? ≠ some '/' ∧ rest.toList.head? ≠ some '/' ∧
        (∃ count, base = (ofBase base).baseUrl ++ slashes count) ∧
        ∃ count, path = slashes count ++ rest := by
  refine ⟨?_, bare path, url_eq _ path, getLast?_baseUrl_ne base, head?_bare_ne path,
    exists_baseUrl_append base, exists_append_bare path⟩
  rw [ofBase_append_slashes, url_eq, bare_slashes_append, ← url_eq]

/-- A base URL and a path of slashes leave the one slash. -/
example : (ofBase "//").url "///" = "/" := by decide

end Endpoint

end ListQuery
