/-
This file takes the first line of a request apart: a method, a target and a
version between blanks, and in the target a path and a query whose parts are names
and values. It proves that the line of a call for a URL without a query gives back
the path of the URL and the pairs that were added to it, whatever characters the
pairs hold.
-/

import ListQuery.Client.Fetch
import ListQuery.Proofs.Text.Percent
import ListQuery.Proofs.Text.Run
import ListQuery.Proofs.Traversal

namespace ListQuery

/-! ### Reading request lines -/

/-- The text before the first mark and the text behind it. -/
def Text.cut? (mark : Char) (text : List Char) : Option (List Char × List Char) :=
  match text.dropWhile (· ≠ mark) with
  | [] => none
  | _ :: rest => some (text.takeWhile (· ≠ mark), rest)

namespace Url

/-- The name and the value that a part of a query stands for. -/
def readAssignment? (text : List Char) : Option (String × String) := do
  let (name, value) ← Text.cut? '=' text
  return (← Percent.decode? name, ← Percent.decode? value)

/-- The pairs that a query stands for. -/
def readQuery? (query : List Char) : Option (List (String × String)) :=
  (query.splitOn '&').mapM readAssignment?

/-- The path of a target, and the pairs of its query if it has one. -/
def readTarget? (target : List Char) : Option (List Char × Option (List (String × String))) :=
  match Text.cut? '?' target with
  | none => some (target, none)
  | some (path, query) => (readQuery? query).map fun pairs => (path, some pairs)

end Url

/-- What the first line of a request says. -/
structure RequestLine where
  method : String
  path : List Char
  pairs : Option (List (String × String))
  version : String
deriving DecidableEq

/-- Reads the first line of a request. -/
def RequestLine.read? (line : String) : Option RequestLine :=
  match line.toList.splitOn ' ' with
  | [method, target, version] =>
    (Url.readTarget? target).map fun (path, pairs) =>
      ⟨String.ofList method, path, pairs, String.ofList version⟩
  | _ => none

/-! ### Cutting -/

namespace Text

variable {mark : Char} {first rest text : List Char}

theorem cut?_append (absent : mark ∉ first) :
    cut? mark (first ++ mark :: rest) = some (first, rest) := by
  have each : ∀ char ∈ first, decide (char ≠ mark) = true := fun char member =>
    decide_eq_true fun same => absent (same ▸ member)
  have stops : Stops (fun char => decide (char ≠ mark)) (mark :: rest) :=
    stops_cons (decide_eq_false (not_not_intro rfl))
  rw [cut?, dropWhile_run each stops, takeWhile_run each stops]

theorem cut?_eq_none (absent : mark ∉ text) : cut? mark text = none := by
  have each : ∀ char ∈ text, decide (char ≠ mark) = true := fun char member =>
    decide_eq_true fun same => absent (same ▸ member)
  rw [cut?, ← List.append_nil text, dropWhile_run each stops_nil]

/-- What is neither in the separator nor in a part is not in the parts put together. -/
theorem not_mem_intercalate {separator : List Char} {parts : List (List Char)}
    (apart : mark ∉ separator) (each : ∀ part ∈ parts, mark ∉ part) :
    mark ∉ separator.intercalate parts := by
  induction parts with
  | nil => exact List.not_mem_nil
  | cons part rest inductionHypothesis =>
    obtain ⟨absent, others⟩ := List.forall_mem_cons.mp each
    cases rest with
    | nil => rwa [List.intercalate_singleton]
    | cons next rest =>
      rw [List.intercalate_cons_cons, List.mem_append, List.mem_append, not_or, not_or]
      exact ⟨⟨absent, apart⟩, inductionHypothesis others⟩

end Text

/-! ### Reading what was written -/

namespace Url

variable {plain : UInt8 → Bool}

theorem readAssignment?_assignment (keeps : Percent.KeepsMarks plain) (pair : String × String) :
    readAssignment? (assignment plain pair) = some pair := by
  have unequal : '=' ∉ (Percent.encode plain pair.1).toList :=
    Percent.not_mem_encode keeps (by decide) (by decide) pair.1
  rw [readAssignment?, assignment, Text.cut?_append unequal]
  simp only [Option.bind_eq_bind, Option.bind_some, Percent.decode?_encode keeps]
  rfl

/-- A pair as it is written holds no marks but its own and those of escapes. -/
theorem not_mem_assignment (keeps : Percent.KeepsMarks plain) {mark : Char}
    (marked : mark ∈ Percent.marks) (noEscape : mark ≠ '%') (noSeam : mark ≠ '=')
    (pair : String × String) : mark ∉ assignment plain pair := by
  have absent := Percent.not_mem_encode keeps marked noEscape
  rw [assignment, List.mem_append, List.mem_cons, not_or, not_or]
  exact ⟨absent pair.1, noSeam, absent pair.2⟩

theorem mapM_readAssignment? (keeps : Percent.KeepsMarks plain)
    (pairs : List (String × String)) :
    (pairs.map (assignment plain)).mapM readAssignment? = some pairs := by
  induction pairs with
  | nil => rfl
  | cons pair rest inductionHypothesis =>
    rw [List.map_cons, List.mapM_cons, readAssignment?_assignment keeps, inductionHypothesis]
    rfl

/-- The pairs in a query are read back. -/
theorem readQuery?_intercalate (keeps : Percent.KeepsMarks plain)
    {pairs : List (String × String)} (some : pairs ≠ []) :
    readQuery? (['&'].intercalate (pairs.map (assignment plain))) = .some pairs := by
  have separate : ∀ part ∈ pairs.map (assignment plain), '&' ∉ part := by
    rw [List.forall_mem_map]
    exact fun pair _ => not_mem_assignment keeps (by decide) (by decide) (by decide) pair
  rw [readQuery?, List.splitOn_intercalate '&' separate (mt List.map_eq_nil_iff.mp some),
    mapM_readAssignment? keeps]

/-! ### The parts of a URL -/

/-- What is known of a URL that was read from a text without a query. -/
structure IsBare (url : Url) : Prop where
  blank : ' ' ∉ url.path
  mark : '?' ∉ url.path
  query : url.query = none

theorem isBare_of_ofPathAndQuery {scheme : Option String} {authority text : List Char} {url : Url}
    (read : ofPathAndQuery scheme authority text = .ok url) (unmarked : '?' ∉ text) :
    url.IsBare := by
  have each : ∀ char ∈ text, decide (char ≠ '?') = true := fun char member =>
    decide_eq_true fun same => unmarked (same ▸ member)
  have path : text.takeWhile (· ≠ '?') = text := List.takeWhile_eq_self_iff.mpr each
  have query : text.dropWhile (· ≠ '?') = [] := List.dropWhile_eq_nil_iff.mpr each
  unfold ofPathAndQuery at read
  rw [path, query] at read
  simp only at read
  split at read
  case isFalse => cases read
  case isTrue valid =>
    have allowed := List.all_eq_true.mp (Bool.and_eq_true_iff.mp valid).1
    have unblank : ' ' ∉ text := fun member => absurd (allowed _ member) (by decide)
    cases read
    split
    · exact ⟨show ' ' ∉ ['/'] by decide, show '?' ∉ ['/'] by decide, rfl⟩
    · exact ⟨unblank, unmarked, rfl⟩

theorem subset_of_splitScheme? {text scheme rest : List Char}
    (split : splitScheme? text = some (scheme, rest)) : rest ⊆ text := by
  unfold splitScheme? at split
  split at split
  case h_1 left behind =>
    cases split
    have whole := (List.dropWhile_suffix isSchemeChar (l := text)).subset
    rw [behind] at whole
    exact fun char member => whole (List.mem_cons_of_mem _ (List.mem_cons_of_mem _
      (List.mem_cons_of_mem _ member)))
  case h_2 => cases split

/-- The path and the query of a URL are read from a part of its text. -/
theorem exists_of_parse {text : String} {url : Url} (read : parse text = .ok url) :
    ∃ scheme authority rest,
      ofPathAndQuery scheme authority rest = .ok url ∧ rest ⊆ text.toList := by
  have whole : text.toList.takeWhile (· ≠ '#') ⊆ text.toList :=
    (List.takeWhile_prefix _).subset
  unfold parse at read
  dsimp only at read
  split at read
  case isTrue => cases read
  split at read
  case h_1 rest starts => exact ⟨none, [], _, read, starts ▸ whole⟩
  case h_2 =>
    split at read
    case h_1 =>
      obtain ⟨_, _, failed⟩ := Traversal.bind_eq_ok.mp read
      cases failed
    case h_2 scheme rest found =>
      split at read
      case isTrue => cases read
      obtain ⟨_, _, read⟩ := Traversal.bind_eq_ok.mp read
      split at read
      case isTrue => cases read
      exact ⟨_, _, _, read, fun char member =>
        whole (subset_of_splitScheme? found (List.mem_of_mem_drop member))⟩

theorem isBare_of_parse {text : String} {url : Url} (read : parse text = .ok url)
    (unmarked : '?' ∉ text.toList) : url.IsBare := by
  obtain ⟨_, _, _, read, held⟩ := exists_of_parse read
  exact isBare_of_ofPathAndQuery read fun member => unmarked (held member)

/-! ### Targets and request lines -/

variable {url : Url}

theorem target_addPairs (bare : url.IsBare) (pairs : List (String × String)) :
    (url.addPairs plain pairs).target.toList =
      if pairs = [] then url.path
      else url.path ++ '?' :: ['&'].intercalate (pairs.map (assignment plain)) := by
  cases pairs with
  | nil => rw [if_pos rfl, addPairs, target, bare.query, String.toList_ofList, queryText,
      List.append_nil]
  | cons pair rest =>
    rw [if_neg (List.cons_ne_nil pair rest), addPairs, target, bare.query, String.toList_ofList]
    · rfl
    · exact nofun

theorem blank_not_mem_target (keeps : Percent.KeepsMarks plain) (bare : url.IsBare)
    (pairs : List (String × String)) : ' ' ∉ (url.addPairs plain pairs).target.toList := by
  rw [target_addPairs bare]
  split
  · exact bare.blank
  · rw [List.mem_append, List.mem_cons, not_or, not_or]
    refine ⟨bare.blank, by decide, Text.not_mem_intercalate (by decide) ?_⟩
    rw [List.forall_mem_map]
    exact fun pair _ => not_mem_assignment keeps (by decide) (by decide) (by decide) pair

/-- The target of a URL without a query is read back as its path and the pairs that were added. -/
theorem readTarget?_target (keeps : Percent.KeepsMarks plain) (bare : url.IsBare)
    (pairs : List (String × String)) :
    readTarget? (url.addPairs plain pairs).target.toList =
      some (url.path, if pairs = [] then none else some pairs) := by
  rw [target_addPairs bare, readTarget?]
  by_cases given : pairs = []
  · rw [if_pos given, if_pos given, Text.cut?_eq_none bare.mark]
  · rw [if_neg given, if_neg given, Text.cut?_append bare.mark]
    simp only [readQuery?_intercalate keeps given, Option.map_some]

end Url

/-- The first line of a call for a URL without a query is read back. -/
theorem Call.read?_requestLine {plain : UInt8 → Bool} (keeps : Percent.KeepsMarks plain)
    {url : Url} (bare : url.IsBare) (secure : Bool) (host : String)
    (pairs : List (String × String)) :
    RequestLine.read? (Call.requestLine ⟨secure, host, (url.addPairs plain pairs).target⟩) =
      some ⟨"GET", url.path, if pairs = [] then none else some pairs, "HTTP/1.1"⟩ := by
  have parts : (Call.requestLine ⟨secure, host, (url.addPairs plain pairs).target⟩).toList =
      [' '].intercalate ["GET".toList, (url.addPairs plain pairs).target.toList,
        "HTTP/1.1".toList] := by
    have line : Call.requestLine ⟨secure, host, (url.addPairs plain pairs).target⟩ =
        "GET " ++ (url.addPairs plain pairs).target ++ " HTTP/1.1" := rfl
    have version : " HTTP/1.1".toList = [' '] ++ "HTTP/1.1".toList := rfl
    rw [line, String.toList_append, String.toList_append, version,
      List.intercalate_cons_cons, List.intercalate_cons_cons, List.intercalate_singleton]
    simp only [List.append_assoc]
    rfl
  have separate : ∀ part ∈ ["GET".toList, (url.addPairs plain pairs).target.toList,
      "HTTP/1.1".toList], ' ' ∉ part := by
    simp only [List.forall_mem_cons, List.not_mem_nil, false_implies, implies_true, and_true]
    exact ⟨by decide, Url.blank_not_mem_target keeps bare pairs, by decide⟩
  rw [RequestLine.read?, parts, List.splitOn_intercalate ' ' separate (List.cons_ne_nil _ _)]
  simp only [Url.readTarget?_target keeps bare, Option.map_some]
  rfl

end ListQuery
