/-
This file takes the loops of the reader apart. Every container is read by folding a
step over elements with commas between them; here such a fold is split into the
series of elements that stands in the text and the states that taking them one by
one leads to. Arrays, objects, lists and records are all read in this way, so what
they have in common is said once, about series.
-/

import ListQuery.Json.Reader
import ListQuery.Proofs.Keyed
import ListQuery.Proofs.Traversal

namespace ListQuery

namespace Json

/-- A required value is there exactly when it is given. -/
theorem Fault.require_eq_ok {Value : Type} {found : Option Value} {value : Value} :
    Fault.require found = .ok value ↔ found = some value := by
  cases found with
  | none => exact ⟨nofun, nofun⟩
  | some other =>
    constructor
    · intro same
      cases same
      rfl
    · intro same
      cases same
      rfl

/-! ### Series -/

variable {Value State : Type} {close : Char}
  {value : List Char → Except Fault (Value × List Char)}

/-- Elements with commas between them, at least one, up to the closing bracket and the text after
it. -/
inductive Series (close : Char) (value : List Char → Except Fault (Value × List Char)) :
    List Char → List Value → List Char → Prop
  | last {text rest after : List Char} {item : Value} (read : value text = .ok (item, rest))
      (closed : dropBlanks rest = close :: after) : Series close value text [item] after
  | more {text rest next after : List Char} {item : Value} {items : List Value}
      (read : value text = .ok (item, rest)) (separated : dropBlanks rest = ',' :: next)
      (others : Series close value next items after) : Series close value text (item :: items) after

/-- Any number of elements behind an opening bracket; none when the closing one comes at once. -/
inductive Enclosed (close : Char) (value : List Char → Except Fault (Value × List Char)) :
    List Char → List Value → List Char → Prop
  | empty {text after : List Char} (closed : dropBlanks text = close :: after) :
      Enclosed close value text [] after
  | nonempty {text rest after : List Char} {char : Char} {items : List Value}
      (starts : dropBlanks text = char :: rest) (unclosed : char ≠ close)
      (series : Series close value (char :: rest) items after) :
      Enclosed close value text items after

/-- What holds of everything that is read holds of every element. -/
theorem Series.forall {property : Value → Prop} {text after : List Char} {items : List Value}
    (each : ∀ text item rest, value text = .ok (item, rest) → property item)
    (series : Series close value text items after) : ∀ item ∈ items, property item := by
  induction series with
  | last read closed => exact List.forall_mem_singleton.mpr (each _ _ _ read)
  | more read separated others inductionHypothesis =>
    exact List.forall_mem_cons.mpr ⟨each _ _ _ read, inductionHypothesis⟩

theorem Enclosed.forall {property : Value → Prop} {text after : List Char} {items : List Value}
    (each : ∀ text item rest, value text = .ok (item, rest) → property item)
    (enclosed : Enclosed close value text items after) : ∀ item ∈ items, property item := by
  cases enclosed with
  | empty closed => exact nofun
  | nonempty starts unclosed series => exact series.forall each

/-- A series is read just so by whatever reads its elements just so. -/
theorem Series.imp {other : List Char → Except Fault (Value × List Char)} {text after : List Char}
    {items : List Value}
    (each : ∀ text item rest, value text = .ok (item, rest) → other text = .ok (item, rest))
    (series : Series close value text items after) : Series close other text items after := by
  induction series with
  | last read closed => exact .last (each _ _ _ read) closed
  | more read separated others inductionHypothesis =>
    exact .more (each _ _ _ read) separated inductionHypothesis

theorem Enclosed.imp {other : List Char → Except Fault (Value × List Char)} {text after : List Char}
    {items : List Value}
    (each : ∀ text item rest, value text = .ok (item, rest) → other text = .ok (item, rest))
    (enclosed : Enclosed close value text items after) : Enclosed close other text items after := by
  cases enclosed with
  | empty closed => exact .empty closed
  | nonempty starts unclosed series => exact .nonempty starts unclosed (series.imp each)

/-! ### Folds -/

/-- From a valid state on, a step reads an element and takes it into the state, which stays
valid. -/
structure Follows (valid : State → Prop)
    (step : State → List Char → Except Fault (State × List Char))
    (value : List Char → Except Fault (Value × List Char))
    (take : State → Value → Except Fault State) : Prop where
  step_eq_ok : ∀ {state}, valid state → ∀ {text next rest}, step state text = .ok (next, rest) ↔
    ∃ item, value text = .ok (item, rest) ∧ take state item = .ok next
  valid_take : ∀ {state item next}, valid state → take state item = .ok next → valid next

/-- What is left of a text is no longer than the text. -/
def Shortens (value : List Char → Except Fault (Value × List Char)) : Prop :=
  ∀ text item rest, value text = .ok (item, rest) → rest.length ≤ text.length

variable {valid : State → Prop} {step : State → List Char → Except Fault (State × List Char)}
  {take : State → Value → Except Fault State}

theorem series_of_foldMore (follows : Follows valid step value take) {bound : Nat}
    {state final : State} {text after : List Char} (held : valid state)
    (read : foldMore close step bound state text = .ok (final, after)) :
    ∃ items, Series close value text items after ∧ items.foldlM take state = .ok final := by
  induction bound generalizing state text with
  | zero => cases read
  | succ bound inductionHypothesis =>
    obtain ⟨⟨next, rest⟩, stepped, read⟩ := Traversal.bind_eq_ok.mp read
    obtain ⟨item, itemRead, taken⟩ := (follows.step_eq_ok held).mp stepped
    simp only at read
    split at read
    · cases read
    rename_i char others leads
    split at read
    · rename_i isComma
      obtain ⟨items, series, folded⟩ := inductionHypothesis (follows.valid_take held taken) read
      refine ⟨item :: items, .more itemRead (isComma ▸ leads) series, ?_⟩
      rw [List.foldlM_cons, taken]
      exact folded
    split at read
    · rename_i isClose
      cases read
      refine ⟨[item], .last itemRead (isClose ▸ leads), ?_⟩
      rw [List.foldlM_cons, taken]
      rfl
    · cases read

theorem length_dropBlanks_le (text : List Char) : (dropBlanks text).length ≤ text.length :=
  (List.dropWhile_sublist _).length_le

theorem foldMore_of_series (follows : Follows valid step value take) (shortens : Shortens value)
    (noComma : close ≠ ',') {bound : Nat} {state final : State} {text after : List Char}
    {items : List Value} (held : valid state) (series : Series close value text items after)
    (folded : items.foldlM take state = .ok final) (enough : text.length ≤ bound) :
    foldMore close step bound state text = .ok (final, after) := by
  -- The fold spends one of the bound on each element, and each is followed by a character at least.
  induction series generalizing bound state with
  | @last text rest after item read closed =>
    have left : 0 < rest.length := by
      have shorter := length_dropBlanks_le rest
      rw [closed, List.length_cons] at shorter
      omega
    have shorter := shortens _ _ _ read
    obtain ⟨bound, rfl⟩ : ∃ less, bound = less + 1 := ⟨bound - 1, by omega⟩
    obtain ⟨next, taken, same⟩ := Traversal.bind_eq_ok.mp folded
    cases same
    refine Traversal.bind_eq_ok.mpr ⟨_, (follows.step_eq_ok held).mpr ⟨item, read, taken⟩, ?_⟩
    simp only [closed]
    rw [if_neg noComma, if_pos trivial]
  | @more text rest next after item items read separated others inductionHypothesis =>
    have left : next.length < rest.length := by
      have shorter := length_dropBlanks_le rest
      rw [separated, List.length_cons] at shorter
      omega
    have shorter := shortens _ _ _ read
    obtain ⟨bound, rfl⟩ : ∃ less, bound = less + 1 := ⟨bound - 1, by omega⟩
    obtain ⟨between, taken, folded⟩ := Traversal.bind_eq_ok.mp folded
    refine Traversal.bind_eq_ok.mpr ⟨_, (follows.step_eq_ok held).mpr ⟨item, read, taken⟩, ?_⟩
    simp only [separated]
    rw [if_pos trivial]
    exact inductionHypothesis (follows.valid_take held taken) folded (by omega)

/-- A fold over elements that ends has some elements enclosed, and taking them leads to its end. -/
theorem enclosed_of_foldElements (follows : Follows valid step value take) {state final : State}
    {text after : List Char} (held : valid state)
    (read : foldElements close step state text = .ok (final, after)) :
    ∃ items, Enclosed close value text items after ∧ items.foldlM take state = .ok final := by
  unfold foldElements at read
  split at read
  · cases read
  rename_i char rest starts
  split at read
  · rename_i isClose
    cases read
    exact ⟨[], .empty (isClose ▸ starts), rfl⟩
  · rename_i unclosed
    obtain ⟨items, series, folded⟩ := series_of_foldMore follows held read
    exact ⟨items, .nonempty starts unclosed series, folded⟩

/-- A fold over elements ends exactly where some elements are enclosed, in the state that taking
them leads to. -/
theorem foldElements_eq_ok (follows : Follows valid step value take) (shortens : Shortens value)
    (noComma : close ≠ ',') {state final : State} (held : valid state) {text after : List Char} :
    foldElements close step state text = .ok (final, after) ↔
      ∃ items, Enclosed close value text items after ∧ items.foldlM take state = .ok final := by
  refine ⟨enclosed_of_foldElements follows held, ?_⟩
  rintro ⟨items, enclosed, folded⟩
  unfold foldElements
  cases enclosed with
  | empty closed =>
    cases folded
    simp only [closed]
    rw [if_pos trivial]
  | nonempty starts unclosed series =>
    simp only [starts]
    rw [if_neg unclosed]
    exact foldMore_of_series follows shortens noComma held series folded (Nat.le_refl _)

/-! ### Items and members -/

theorem follows_readItem (value : List Char → Except Fault (Value × List Char)) :
    Follows (fun _ => True) (readItem value) value fun items item => .ok (item :: items) := by
  refine ⟨fun _ => ?_, fun _ _ => trivial⟩
  intro text next rest
  unfold readItem
  rw [Traversal.bind_eq_ok]
  constructor
  · rintro ⟨⟨item, left⟩, read, same⟩
    cases same
    exact ⟨item, read, rfl⟩
  · rintro ⟨item, read, same⟩
    cases same
    exact ⟨⟨item, rest⟩, read, rfl⟩

theorem foldlM_cons_ok (items : List Value) :
    items.foldlM (fun items item => .ok (item :: items)) [] =
      (.ok items.reverse : Except Fault (List Value)) := by
  have folded : items.foldl (fun items item => item :: items) [] = items.reverse := by
    rw [List.foldl_flip_cons_eq_append', List.append_nil]
  rw [← folded]
  exact List.foldlM_pure

/-- A member with its name and its value, which `value` reads. -/
def readPair (value : List Char → Except Fault (Json × List Char)) (text : List Char) :
    Except Fault ((String × Json) × List Char) := do
  let (name, rest) ← readName text
  let rest ← readColon rest
  let (document, rest) ← value rest
  return ((name, document), rest)

theorem readPair_eq_ok {value : List Char → Except Fault (Json × List Char)}
    {text rest : List Char} {member : String × Json} :
    readPair value text = .ok (member, rest) ↔
      ∃ afterName afterColon, readName text = .ok (member.1, afterName) ∧
        readColon afterName = .ok afterColon ∧ value afterColon = .ok (member.2, rest) := by
  unfold readPair
  rw [Traversal.bind_eq_ok]
  constructor
  · rintro ⟨⟨name, afterName⟩, nameRead, read⟩
    obtain ⟨afterColon, colonRead, read⟩ := Traversal.bind_eq_ok.mp read
    obtain ⟨⟨document, left⟩, valueRead, same⟩ := Traversal.bind_eq_ok.mp read
    cases same
    exact ⟨afterName, afterColon, nameRead, colonRead, valueRead⟩
  · rintro ⟨afterName, afterColon, nameRead, colonRead, valueRead⟩
    refine ⟨_, nameRead, Traversal.bind_eq_ok.mpr ⟨_, colonRead, ?_⟩⟩
    exact Traversal.bind_eq_ok.mpr ⟨_, valueRead, rfl⟩

theorem follows_readMember (value : List Char → Except Fault (Json × List Char)) :
    Follows (fun _ => True) (readMember value) (readPair value)
      fun members member => .ok (Keyed.put Prod.fst member members) := by
  refine ⟨fun _ => ?_, fun _ _ => trivial⟩
  intro text next rest
  constructor
  · intro read
    obtain ⟨⟨name, afterName⟩, nameRead, read⟩ := Traversal.bind_eq_ok.mp read
    obtain ⟨afterColon, colonRead, read⟩ := Traversal.bind_eq_ok.mp read
    obtain ⟨⟨document, left⟩, valueRead, same⟩ := Traversal.bind_eq_ok.mp read
    cases same
    exact ⟨(name, document),
      readPair_eq_ok.mpr ⟨afterName, afterColon, nameRead, colonRead, valueRead⟩, rfl⟩
  · rintro ⟨member, read, same⟩
    cases same
    obtain ⟨afterName, afterColon, nameRead, colonRead, valueRead⟩ := readPair_eq_ok.mp read
    refine Traversal.bind_eq_ok.mpr ⟨_, nameRead, Traversal.bind_eq_ok.mpr ⟨_, colonRead, ?_⟩⟩
    exact Traversal.bind_eq_ok.mpr ⟨_, valueRead, rfl⟩

theorem foldlM_put_ok (members : List (String × Json)) :
    members.foldlM (fun members member => .ok (Keyed.put Prod.fst member members)) [] =
      (.ok (Keyed.ofList Prod.fst members) : Except Fault (List (String × Json))) :=
  List.foldlM_pure

end Json

end ListQuery
