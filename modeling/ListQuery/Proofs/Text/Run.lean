/-
This file says where a run of characters ends. A run that is split off a text is
the same, and so is what is left behind it, when the text goes on with a character
that does not belong to the run. Runs at the end of a text are those at the start of
the reversed one, and white space around a text is one run of each kind.
-/

import ListQuery.Text.Space
import Mathlib.Data.List.DropRight
import Mathlib.Data.List.TakeWhile

namespace ListQuery

namespace Text

variable {belongs : Char → Bool} {run more : List Char}

/-- A text does not go on with a character of some class. -/
def Stops (belongs : Char → Bool) (text : List Char) : Prop :=
  ∀ char, text.head? = some char → belongs char = false

theorem stops_nil : Stops belongs [] := nofun

theorem stops_cons {char : Char} (outside : belongs char = false) :
    Stops belongs (char :: more) := by
  rintro _ ⟨⟩
  exact outside

/-- What is left behind a run of the class does not go on with a character of it. -/
theorem stops_dropWhile (text : List Char) : Stops belongs (text.dropWhile belongs) := by
  intro char head
  have outside := List.head?_dropWhile_not belongs text
  rw [head] at outside
  exact outside

theorem takeWhile_append (stops : Stops belongs more) (text : List Char) :
    (text ++ more).takeWhile belongs = text.takeWhile belongs := by
  induction text with
  | nil =>
    cases more with
    | nil => rfl
    | cons char rest =>
      rw [List.nil_append, List.takeWhile_nil, List.takeWhile_cons, stops char rfl]
      rfl
  | cons char rest inductionHypothesis =>
    rw [List.cons_append, List.takeWhile_cons, List.takeWhile_cons, inductionHypothesis]

theorem dropWhile_append (stops : Stops belongs more) (text : List Char) :
    (text ++ more).dropWhile belongs = text.dropWhile belongs ++ more := by
  induction text with
  | nil =>
    cases more with
    | nil => rfl
    | cons char rest =>
      rw [List.nil_append, List.dropWhile_nil, List.nil_append, List.dropWhile_cons,
        stops char rfl]
      rfl
  | cons char rest inductionHypothesis =>
    rw [List.cons_append, List.dropWhile_cons, List.dropWhile_cons, inductionHypothesis]
    split <;> rfl

/-- A run of characters of the class is taken whole. -/
theorem takeWhile_run (each : ∀ char ∈ run, belongs char = true) (stops : Stops belongs more) :
    (run ++ more).takeWhile belongs = run := by
  rw [takeWhile_append stops, List.takeWhile_eq_self_iff.mpr each]

theorem dropWhile_run (each : ∀ char ∈ run, belongs char = true) (stops : Stops belongs more) :
    (run ++ more).dropWhile belongs = more := by
  rw [dropWhile_append stops, List.dropWhile_eq_nil_iff.mpr each, List.nil_append]

/-- Texts that start with runs of the class, and do not go on with a character of it, are the same
only when the runs are. -/
theorem run_unique {otherRun otherMore : List Char} (each : ∀ char ∈ run, belongs char = true)
    (otherEach : ∀ char ∈ otherRun, belongs char = true) (stops : Stops belongs more)
    (otherStops : Stops belongs otherMore) (same : run ++ more = otherRun ++ otherMore) :
    run = otherRun ∧ more = otherMore := by
  constructor
  · rw [← takeWhile_run each stops, same, takeWhile_run otherEach otherStops]
  · rw [← dropWhile_run each stops, same, dropWhile_run otherEach otherStops]

/-! ### Runs at the end -/

/-- What is left before a run at the end does not end with a character of the class. -/
theorem stops_rdropWhile (text : List Char) :
    Stops belongs (text.rdropWhile belongs).reverse := by
  rw [List.rdropWhile, List.reverse_reverse]
  exact stops_dropWhile _

/-- A run at the end adds nothing to what is left before it. -/
theorem rdropWhile_append (each : ∀ char ∈ run, belongs char = true) (text : List Char) :
    (text ++ run).rdropWhile belongs = text.rdropWhile belongs := by
  rw [List.rdropWhile, List.reverse_append, List.dropWhile_append_of_pos]
  · rfl
  · exact fun char member => each char (List.mem_reverse.mp member)

/-- A text that does not end with a character of the class is left whole. -/
theorem rdropWhile_of_stops {text : List Char} (stops : Stops belongs text.reverse) :
    text.rdropWhile belongs = text := by
  have whole := dropWhile_run (List.forall_mem_nil _) stops
  rw [List.nil_append] at whole
  rw [List.rdropWhile, whole, List.reverse_reverse]

/-! ### White space -/

theorem isBlank_eq_false {text : String} :
    isBlank text = false ↔ ∃ char ∈ text.toList, isSpace char = false := by
  rw [isBlank, List.all_eq_false]
  simp only [Bool.not_eq_true]

/-- A text is what is left of it between runs of white space. -/
theorem exists_trim (text : List Char) : ∃ before after,
    text = before ++ trim text ++ after ∧ (∀ char ∈ before, isSpace char = true) ∧
      ∀ char ∈ after, isSpace char = true := by
  refine ⟨text.takeWhile isSpace, (text.dropWhile isSpace).rtakeWhile isSpace, ?_,
    fun _ => List.mem_takeWhile_imp, fun _ => List.mem_rtakeWhile_imp⟩
  show text = _ ++ (text.dropWhile isSpace).rdropWhile isSpace ++ _
  rw [List.append_assoc, List.rdropWhile_append_rtakeWhile, List.takeWhile_append_dropWhile]

/-- White space around a text that neither starts nor ends with it is what is trimmed. -/
theorem trim_append {before text after : List Char} (nonempty : text ≠ [])
    (spaceBefore : ∀ char ∈ before, isSpace char = true)
    (spaceAfter : ∀ char ∈ after, isSpace char = true)
    (starts : Stops isSpace text) (ends : Stops isSpace text.reverse) :
    trim (before ++ text ++ after) = text := by
  have goesOn : Stops isSpace (text ++ after) := by
    rw [Stops, List.head?_append_of_ne_nil _ nonempty]
    exact starts
  show ((before ++ text ++ after).dropWhile isSpace).rdropWhile isSpace = text
  rw [List.append_assoc, dropWhile_run spaceBefore goesOn, rdropWhile_append spaceAfter,
    rdropWhile_of_stops ends]

end Text

end ListQuery
