/-
This file holds the one law that all ordered containers of the library share:
entries keep the order in which their keys first came, and an entry put under a
key that is already taken replaces the old one where it stands. Operator sets,
filters, sort orders, relation trees and schemas are lists under this law, each
with its own key.
-/

namespace ListQuery

namespace Keyed

variable {Entry Key : Type}

/-- No key occurs twice. -/
def Distinct (key : Entry → Key) (entries : List Entry) : Prop :=
  (entries.map key).Nodup

variable [DecidableEq Key]

/-- Puts an entry in the place of the one with the same key, or at the end when its key is new. -/
def put (key : Entry → Key) (entry : Entry) : List Entry → List Entry
  | [] => [entry]
  | head :: rest => if key head = key entry then entry :: rest else head :: put key entry rest

/-- The entry that holds a key. -/
def find? (key : Entry → Key) (wanted : Key) (entries : List Entry) : Option Entry :=
  entries.find? fun entry => decide (key entry = wanted)

/-- The container that a run of entries builds, starting from the empty one. -/
def ofList (key : Entry → Key) (entries : List Entry) : List Entry :=
  entries.foldl (fun built entry => put key entry built) []

/-! ### What putting an entry does to the keys -/

/-- Putting an entry adds its key at the end, or leaves the keys as they are. -/
theorem map_put (key : Entry → Key) (entry : Entry) (entries : List Entry) :
    (put key entry entries).map key =
      if key entry ∈ entries.map key then entries.map key else entries.map key ++ [key entry] := by
  induction entries with
  | nil => simp [put]
  | cons head rest inductionHypothesis =>
    by_cases taken : key head = key entry
    · simp [put, taken]
    · have other : ¬key entry = key head := fun equal => taken equal.symm
      simp only [put, taken, if_false, List.map_cons, inductionHypothesis, List.mem_cons, other,
        false_or]
      split <;> simp

/-- Keys stay distinct. -/
theorem distinct_put (key : Entry → Key) (entry : Entry) {entries : List Entry}
    (distinct : Distinct key entries) : Distinct key (put key entry entries) := by
  unfold Distinct at *
  rw [map_put]
  split
  · exact distinct
  · rename_i absent
    refine List.nodup_append.mpr ⟨distinct, by simp, ?_⟩
    intro first inFirst second inSecond equal
    rw [List.mem_singleton] at inSecond
    exact absent (inSecond ▸ equal ▸ inFirst)

/-- A container built from the empty one holds each key once. -/
theorem distinct_ofList (key : Entry → Key) (entries : List Entry) :
    Distinct key (ofList key entries) := by
  have grows : ∀ (more built : List Entry), Distinct key built →
      Distinct key (more.foldl (fun built entry => put key entry built) built) := by
    intro more
    induction more with
    | nil => exact fun _ distinct => distinct
    | cons head rest inductionHypothesis =>
      exact fun built distinct => inductionHypothesis _ (distinct_put key head distinct)
  exact grows entries [] List.nodup_nil

end Keyed

end ListQuery
