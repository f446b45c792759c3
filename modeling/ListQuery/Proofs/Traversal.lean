/-
This file holds the laws of walking along a list with steps that may fail. A
decoder of a container is such a walk: it decodes one member after another and
puts what it gets into the container. The walk is the same as decoding all the
members first, so what is known of single members and of the container apart is
known of the decoder.
-/

import Mathlib.Data.List.Forall2

namespace ListQuery

namespace Traversal

variable {Fault Item Value State : Type}

/-- Two steps in a row succeed when the first does and the second does on its result. -/
theorem bind_eq_ok {first : Except Fault Item} {next : Item → Except Fault Value} {value : Value} :
    (first >>= next) = .ok value ↔ ∃ item, first = .ok item ∧ next item = .ok value := by
  cases first with
  | error fault => exact ⟨nofun, nofun⟩
  | ok item =>
    constructor
    · exact fun succeeds => ⟨item, rfl, succeeds⟩
    · rintro ⟨_, same, succeeds⟩
      cases same
      exact succeeds

/-- Changing the result of a step changes no fault. -/
theorem map_eq_ok {change : Item → Value} {step : Except Fault Item} {value : Value} :
    change <$> step = .ok value ↔ ∃ item, step = .ok item ∧ change item = value := by
  cases step with
  | error fault => exact ⟨nofun, nofun⟩
  | ok item =>
    constructor
    · intro same
      cases same
      exact ⟨item, rfl, rfl⟩
    · rintro ⟨_, same, rfl⟩
      cases same
      rfl

/-- Changing the fault of a step changes no result. -/
theorem mapError_eq_ok {Other : Type} {step : Except Fault Value} {change : Fault → Other}
    {value : Value} : step.mapError change = .ok value ↔ step = .ok value := by
  cases step with
  | error fault => exact ⟨nofun, nofun⟩
  | ok other =>
    constructor
    · intro same
      cases same
      rfl
    · intro same
      cases same
      rfl

/-! ### Faults -/

/-- What has no result has a fault. -/
theorem exists_error {step : Except Fault Value} (failed : ¬∃ value, step = .ok value) :
    ∃ fault, step = .error fault := by
  cases step with
  | error fault => exact ⟨fault, rfl⟩
  | ok value => exact absurd ⟨value, rfl⟩ failed

/-- Two steps in a row fail when the first does, or when the second does on its result. -/
theorem bind_eq_error {first : Except Fault Item} {next : Item → Except Fault Value}
    {fault : Fault} :
    (first >>= next) = .error fault ↔
      first = .error fault ∨ ∃ item, first = .ok item ∧ next item = .error fault := by
  cases first with
  | error other =>
    constructor
    · intro same
      cases same
      exact .inl rfl
    · rintro (same | ⟨_, absent, _⟩)
      · cases same
        rfl
      · cases absent
  | ok item =>
    constructor
    · exact fun failed => .inr ⟨item, rfl, failed⟩
    · rintro (absent | ⟨_, same, failed⟩)
      · cases absent
      · cases same
        exact failed

/-- A step whose result only goes into something else fails as it does by itself. -/
theorem bind_pure_eq_error {step : Except Fault Item} {change : Item → Value} {fault : Fault} :
    (step >>= fun item => pure (change item)) = .error fault ↔ step = .error fault := by
  rw [bind_eq_error]
  refine ⟨fun failed => ?_, .inl⟩
  rcases failed with failed | ⟨_, _, absent⟩
  · exact failed
  · cases absent

theorem map_eq_error {change : Item → Value} {step : Except Fault Item} {fault : Fault} :
    change <$> step = .error fault ↔ step = .error fault := by
  cases step with
  | error other =>
    constructor
    · intro same
      cases same
      rfl
    · intro same
      cases same
      rfl
  | ok item => exact ⟨nofun, nofun⟩

theorem mapError_eq_error {Other : Type} {step : Except Fault Value} {change : Fault → Other}
    {fault : Other} :
    step.mapError change = .error fault ↔ ∃ inner, step = .error inner ∧ fault = change inner := by
  cases step with
  | error inner =>
    constructor
    · intro same
      cases same
      exact ⟨inner, rfl, rfl⟩
    · rintro ⟨_, same, rfl⟩
      cases same
      rfl
  | ok value => exact ⟨nofun, nofun⟩

/-! ### Checks -/

/-- A check of a list succeeds when it does on every item. -/
theorem forM_eq_ok {check : Item → Except Fault Unit} {items : List Item} :
    items.forM check = .ok () ↔ ∀ item ∈ items, check item = .ok () := by
  induction items with
  | nil => exact ⟨fun _ => nofun, fun _ => rfl⟩
  | cons item rest inductionHypothesis =>
    rw [List.forM_eq_forM] at inductionHypothesis ⊢
    rw [List.forM_cons, bind_eq_ok, List.forall_mem_cons, ← inductionHypothesis]
    constructor
    · rintro ⟨_, succeeds, others⟩
      exact ⟨succeeds, others⟩
    · rintro ⟨succeeds, others⟩
      exact ⟨(), succeeds, others⟩

/-- A check of an optional item succeeds when it does on the item, if there is one. -/
theorem optionForM_eq_ok {check : Item → Except Fault Unit} {item : Option Item} :
    item.forM check = .ok () ↔ ∀ present, item = some present → check present = .ok () := by
  cases item with
  | none => exact ⟨fun _ => nofun, fun _ => rfl⟩
  | some present =>
    constructor
    · rintro succeeds _ ⟨⟩
      exact succeeds
    · exact fun succeeds => succeeds present rfl

/-- A check of a list fails only as it does on some item. -/
theorem exists_of_forM_error {check : Item → Except Fault Unit} {items : List Item}
    {fault : Fault} (failed : items.forM check = .error fault) :
    ∃ item ∈ items, check item = .error fault := by
  induction items with
  | nil => cases failed
  | cons item rest inductionHypothesis =>
    rw [List.forM_eq_forM] at inductionHypothesis failed
    rw [List.forM_cons] at failed
    rcases bind_eq_error.mp failed with here | ⟨_, _, later⟩
    · exact ⟨item, List.mem_cons_self, here⟩
    · obtain ⟨other, member, otherFailed⟩ := inductionHypothesis later
      exact ⟨other, List.mem_cons_of_mem _ member, otherFailed⟩

/-- A check of a list fails as it does on the first item on which it fails. -/
theorem forM_eq_error {check : Item → Except Fault Unit} {items : List Item} {fault : Fault} :
    items.forM check = .error fault ↔
      ∃ before item after, items = before ++ item :: after ∧
        (∀ other ∈ before, check other = .ok ()) ∧ check item = .error fault := by
  constructor
  · intro failed
    induction items with
    | nil => cases failed
    | cons item rest inductionHypothesis =>
      rw [List.forM_eq_forM] at inductionHypothesis failed
      rw [List.forM_cons] at failed
      rcases bind_eq_error.mp failed with here | ⟨_, succeeds, later⟩
      · exact ⟨[], item, rest, rfl, nofun, here⟩
      · obtain ⟨before, other, after, rfl, passed, otherFailed⟩ := inductionHypothesis later
        exact ⟨item :: before, other, after, rfl, List.forall_mem_cons.mpr ⟨succeeds, passed⟩,
          otherFailed⟩
  · rintro ⟨before, item, after, rfl, passed, failed⟩
    have passes : before.forM check = .ok () := forM_eq_ok.mpr passed
    rw [List.forM_eq_forM] at passes ⊢
    rw [List.forM_append, passes]
    show forM (item :: after) check = _
    rw [List.forM_cons, failed]
    rfl

theorem exists_of_optionForM_error {check : Item → Except Fault Unit} {item : Option Item}
    {fault : Fault} (failed : item.forM check = .error fault) :
    ∃ present, item = some present ∧ check present = .error fault := by
  cases item with
  | none => cases failed
  | some present => exact ⟨present, rfl, failed⟩

/-! ### Conversions -/

theorem mapM_cons_eq_ok {convert : Item → Except Fault Value} {item : Item} {items : List Item}
    {values : List Value} :
    (item :: items).mapM convert = .ok values ↔
      ∃ value others, convert item = .ok value ∧ items.mapM convert = .ok others ∧
        values = value :: others := by
  rw [List.mapM_cons, bind_eq_ok]
  constructor
  · rintro ⟨value, converted, rest⟩
    obtain ⟨others, restConverted, same⟩ := bind_eq_ok.mp rest
    cases same
    exact ⟨value, others, converted, restConverted, rfl⟩
  · rintro ⟨value, others, converted, restConverted, rfl⟩
    exact ⟨value, converted, bind_eq_ok.mpr ⟨others, restConverted, rfl⟩⟩

/-- A conversion that succeeds on every item gives the results in order. -/
theorem mapM_eq_ok_map {convert : Item → Except Fault Value} {result : Item → Value}
    {items : List Item} (each : ∀ item ∈ items, convert item = .ok (result item)) :
    items.mapM convert = .ok (items.map result) := by
  induction items with
  | nil => rfl
  | cons item rest inductionHypothesis =>
    rw [List.map_cons, mapM_cons_eq_ok]
    exact ⟨result item, rest.map result, each item List.mem_cons_self,
      inductionHypothesis fun other member => each other (List.mem_cons_of_mem _ member), rfl⟩

/-- A conversion that agrees with another one where that succeeds gives the same results. -/
theorem mapM_congr_ok {convert other : Item → Except Fault Value} {items : List Item}
    {values : List Value} (converted : items.mapM convert = .ok values)
    (agree : ∀ item ∈ items, ∀ value, convert item = .ok value → other item = .ok value) :
    items.mapM other = .ok values := by
  induction items generalizing values with
  | nil => exact converted
  | cons item rest inductionHypothesis =>
    obtain ⟨head, others, headConverted, restConverted, rfl⟩ := mapM_cons_eq_ok.mp converted
    exact mapM_cons_eq_ok.mpr ⟨head, others, agree item List.mem_cons_self head headConverted,
      inductionHypothesis restConverted fun item member =>
        agree item (List.mem_cons_of_mem _ member), rfl⟩

/-- A conversion of a list succeeds when it does on every item. -/
theorem exists_mapM_iff {convert : Item → Except Fault Value} {items : List Item} :
    (∃ values, items.mapM convert = .ok values) ↔
      ∀ item ∈ items, ∃ value, convert item = .ok value := by
  induction items with
  | nil => exact ⟨fun _ => nofun, fun _ => ⟨[], rfl⟩⟩
  | cons item rest inductionHypothesis =>
    rw [List.forall_mem_cons, ← inductionHypothesis]
    constructor
    · rintro ⟨_, converted⟩
      obtain ⟨value, others, here, later, _⟩ := mapM_cons_eq_ok.mp converted
      exact ⟨⟨value, here⟩, others, later⟩
    · rintro ⟨⟨value, here⟩, others, later⟩
      exact ⟨value :: others, mapM_cons_eq_ok.mpr ⟨value, others, here, later, rfl⟩⟩

/-- A conversion of a list fails only as it does on some item. -/
theorem exists_of_mapM_error {convert : Item → Except Fault Value} {items : List Item}
    {fault : Fault} (failed : items.mapM convert = .error fault) :
    ∃ item ∈ items, convert item = .error fault := by
  induction items with
  | nil => cases failed
  | cons item rest inductionHypothesis =>
    rw [List.mapM_cons] at failed
    rcases bind_eq_error.mp failed with here | ⟨_, _, failed⟩
    · exact ⟨item, List.mem_cons_self, here⟩
    · rcases bind_eq_error.mp failed with later | ⟨_, _, absent⟩
      · obtain ⟨other, member, otherFailed⟩ := inductionHypothesis later
        exact ⟨other, List.mem_cons_of_mem _ member, otherFailed⟩
      · cases absent

/-- Every result of a conversion comes from an item. -/
theorem exists_of_mapM {convert : Item → Except Fault Value} {items : List Item}
    {values : List Value} (converted : items.mapM convert = .ok values) {value : Value}
    (member : value ∈ values) : ∃ item ∈ items, convert item = .ok value := by
  induction items generalizing values with
  | nil =>
    cases converted
    cases member
  | cons item rest inductionHypothesis =>
    obtain ⟨head, others, headConverted, restConverted, rfl⟩ := mapM_cons_eq_ok.mp converted
    rcases List.mem_cons.mp member with rfl | inRest
    · exact ⟨item, List.mem_cons_self, headConverted⟩
    · obtain ⟨source, inItems, sourceConverted⟩ := inductionHypothesis restConverted inRest
      exact ⟨source, List.mem_cons_of_mem _ inItems, sourceConverted⟩

/-- What is read off each result as off its item is read off all of them. -/
theorem map_eq_of_mapM {Part : Type} {convert : Item → Except Fault Value}
    {before : Item → Part} {after : Value → Part} {items : List Item} {values : List Value}
    (converted : items.mapM convert = .ok values)
    (each : ∀ item ∈ items, ∀ value, convert item = .ok value → after value = before item) :
    values.map after = items.map before := by
  induction items generalizing values with
  | nil =>
    cases converted
    rfl
  | cons item rest inductionHypothesis =>
    obtain ⟨head, others, headConverted, restConverted, rfl⟩ := mapM_cons_eq_ok.mp converted
    rw [List.map_cons, List.map_cons, each item List.mem_cons_self head headConverted,
      inductionHypothesis restConverted fun other member =>
        each other (List.mem_cons_of_mem _ member)]

/-- Converting item by item and taking each result into a state at once is converting all the items
and then taking the results one by one. -/
theorem foldlM_eq_mapM (convert : Item → Except Fault Value) (take : State → Value → State)
    (items : List Item) (state : State) :
    items.foldlM (fun state item => do return take state (← convert item)) state =
      (do return (← items.mapM convert).foldl take state : Except Fault State) := by
  induction items generalizing state with
  | nil => rfl
  | cons item rest inductionHypothesis =>
    rw [List.foldlM_cons, List.mapM_cons]
    cases convert item with
    | error fault => rfl
    | ok value =>
      show rest.foldlM _ (take state value) = _
      rw [inductionHypothesis]
      cases rest.mapM convert with
      | error fault => rfl
      | ok values => rfl

/-- A conversion gives a value exactly when there is an item. -/
theorem isSome_of_optionMapM {convert : Item → Except Fault Value} {item : Option Item}
    {value : Option Value} (converted : item.mapM convert = .ok value) :
    value.isSome = item.isSome := by
  cases item with
  | none =>
    cases converted
    rfl
  | some present =>
    obtain ⟨written, _, rfl⟩ := map_eq_ok.mp converted
    rfl

/-- A conversion of an optional item succeeds when it does on the item, if there is one. -/
theorem exists_optionMapM_iff {convert : Item → Except Fault Value} {item : Option Item} :
    (∃ value, item.mapM convert = .ok value) ↔
      ∀ present, item = some present → ∃ value, convert present = .ok value := by
  cases item with
  | none => exact ⟨fun _ => nofun, fun _ => ⟨none, rfl⟩⟩
  | some present =>
    constructor
    · rintro ⟨_, converted⟩ _ ⟨⟩
      obtain ⟨value, converted, _⟩ := map_eq_ok.mp converted
      exact ⟨value, converted⟩
    · intro each
      obtain ⟨value, converted⟩ := each present rfl
      exact ⟨some value, map_eq_ok.mpr ⟨value, converted, rfl⟩⟩

theorem exists_of_optionMapM_error {convert : Item → Except Fault Value} {item : Option Item}
    {fault : Fault} (failed : item.mapM convert = .error fault) :
    ∃ present, item = some present ∧ convert present = .error fault := by
  cases item with
  | none => cases failed
  | some present => exact ⟨present, rfl, map_eq_error.mp failed⟩

/-- What an optional item is converted to is converted back, when the item is. -/
theorem optionMapM_back {Part : Type} {convert : Item → Except Fault Value} {Other : Type}
    {back : Value → Except Other Part} {result : Item → Part} {item : Option Item}
    {value : Option Value} (converted : item.mapM convert = .ok value)
    (each : ∀ present written, item = some present → convert present = .ok written →
      back written = .ok (result present)) :
    value.mapM back = .ok (item.map result) := by
  cases item with
  | none =>
    cases converted
    rfl
  | some present =>
    obtain ⟨written, presentConverted, same⟩ := map_eq_ok.mp converted
    subst same
    exact map_eq_ok.mpr ⟨result present, each present written rfl presentConverted, rfl⟩

/-- What is written for an optional item is read back, when it is for the item. -/
theorem optionMapM_map {write : Item → Value} {back : Value → Except Fault Item}
    {item : Option Item}
    (each : ∀ present, item = some present → back (write present) = .ok present) :
    (item.map write).mapM back = .ok item := by
  cases item with
  | none => rfl
  | some present => exact map_eq_ok.mpr ⟨present, each present rfl, rfl⟩

/-- What is written for an optional item determines its view, when it does for every item. -/
theorem optionMap_unique {View : Type} {write : Item → Value} {view : Item → View}
    {first second : Option Item} (same : first.map write = second.map write)
    (each : ∀ item other, first = some item → second = some other → write item = write other →
      view item = view other) : first.map view = second.map view := by
  cases first with
  | none =>
    cases second with
    | none => rfl
    | some other => cases same
  | some item =>
    cases second with
    | none => cases same
    | some other => exact congrArg some (each item other rfl rfl (Option.some.inj same))

/-- What an optional item is converted to determines its view, when it does for every item. -/
theorem optionMapM_unique {View : Type} {convert : Item → Except Fault Value} {view : Item → View}
    {first second : Option Item} {value : Option Value} (converted : first.mapM convert = .ok value)
    (otherConverted : second.mapM convert = .ok value)
    (each : ∀ item other, first = some item → second = some other → ∀ written,
      convert item = .ok written → convert other = .ok written → view item = view other) :
    first.map view = second.map view := by
  have isSome := (isSome_of_optionMapM converted).symm.trans (isSome_of_optionMapM otherConverted)
  cases first with
  | none =>
    cases second with
    | none => rfl
    | some other => cases isSome
  | some item =>
    cases second with
    | none => cases isSome
    | some other =>
      obtain ⟨written, itemConverted, rfl⟩ := map_eq_ok.mp converted
      obtain ⟨_, otherItemConverted, same⟩ := map_eq_ok.mp otherConverted
      cases same
      exact congrArg some (each item other rfl rfl written itemConverted otherItemConverted)

/-- What every step of a walk keeps holds in the end. -/
theorem foldlM_invariant {holds : State → Prop} {step : State → Item → Except Fault State}
    {items : List Item} {state final : State}
    (keeps : ∀ item ∈ items, ∀ state next, holds state → step state item = .ok next → holds next)
    (held : holds state) (walked : items.foldlM step state = .ok final) : holds final := by
  induction items generalizing state with
  | nil =>
    cases walked
    exact held
  | cons item rest inductionHypothesis =>
    rw [List.foldlM_cons] at walked
    obtain ⟨next, stepped, walked⟩ := bind_eq_ok.mp walked
    exact inductionHypothesis (fun other member => keeps other (List.mem_cons_of_mem _ member))
      (keeps item List.mem_cons_self state next held stepped) walked

/-! ### Items in another order, and items for other items -/

/-- A walk in which steps on items of different keys can be taken in either order may take the items
in any order, when no key comes twice. -/
theorem foldlM_perm {Key : Type} {key : Item → Key} {step : State → Item → Except Fault State}
    (commutes : ∀ first second state middle final, key first ≠ key second →
      step state first = .ok middle → step middle second = .ok final →
      ∃ between, step state second = .ok between ∧ step between first = .ok final)
    {items others : List Item} (perm : items.Perm others) (distinct : (items.map key).Nodup)
    {state final : State} (walked : items.foldlM step state = .ok final) :
    others.foldlM step state = .ok final := by
  induction perm generalizing state with
  | nil => exact walked
  | cons item perm inductionHypothesis =>
    rw [List.foldlM_cons] at walked ⊢
    obtain ⟨next, stepped, walked⟩ := bind_eq_ok.mp walked
    exact bind_eq_ok.mpr ⟨next, stepped, inductionHypothesis (List.nodup_cons.mp distinct).2 walked⟩
  | swap first second rest =>
    have different : key second ≠ key first := fun same =>
      (List.nodup_cons.mp distinct).1 (same ▸ List.mem_cons_self)
    simp only [List.foldlM_cons, bind_eq_ok] at walked ⊢
    obtain ⟨middle, stepped, after, steppedAgain, walked⟩ := walked
    obtain ⟨between, other, otherAgain⟩ :=
      commutes second first state middle after different stepped steppedAgain
    exact ⟨between, other, after, otherAgain, walked⟩
  | trans perm _ inductionHypothesis laterHypothesis =>
    exact laterHypothesis ((perm.map key).nodup_iff.mp distinct)
      (inductionHypothesis distinct walked)

/-- Walks that take the same steps on items and on their counterparts end in the same states. -/
theorem foldlM_congr_ok {Other : Type} {alike : Item → Other → Prop}
    {step : State → Item → Except Fault State} {otherStep : State → Other → Except Fault State}
    {items : List Item} {others : List Other} (pairs : List.Forall₂ alike items others)
    (each : ∀ item ∈ items, ∀ other, alike item other → ∀ state next,
      step state item = .ok next ↔ otherStep state other = .ok next) {state final : State} :
    items.foldlM step state = .ok final ↔ others.foldlM otherStep state = .ok final := by
  induction pairs generalizing state with
  | nil => exact Iff.rfl
  | @cons item other items others paired pairs inductionHypothesis =>
    rw [List.foldlM_cons, List.foldlM_cons, bind_eq_ok, bind_eq_ok]
    refine exists_congr fun next => and_congr (each item List.mem_cons_self other paired state next)
      (inductionHypothesis fun item inItems => each item (List.mem_cons_of_mem _ inItems))

/-- Conversions that agree on items and on their counterparts give the same results. -/
theorem mapM_pairs_ok {Other : Type} {alike : Item → Other → Prop}
    {convert : Item → Except Fault Value} {otherConvert : Other → Except Fault Value}
    {items : List Item} {others : List Other} (pairs : List.Forall₂ alike items others)
    (each : ∀ item ∈ items, ∀ other, alike item other → ∀ value,
      convert item = .ok value ↔ otherConvert other = .ok value) {values : List Value} :
    items.mapM convert = .ok values ↔ others.mapM otherConvert = .ok values := by
  induction pairs generalizing values with
  | nil => exact Iff.rfl
  | @cons item other items others paired pairs inductionHypothesis =>
    have rest : ∀ values, items.mapM convert = .ok values ↔ others.mapM otherConvert = .ok values :=
      fun _ => inductionHypothesis fun item inItems => each item (List.mem_cons_of_mem _ inItems)
    simp only [mapM_cons_eq_ok, each item List.mem_cons_self other paired, rest]

/-- A part of the state that steps on one key alone set is set by the item of that key, or it stays
unset when there is none. -/
theorem foldlM_part {Key Part : Type} {key : Item → Key} {step : State → Item → Except Fault State}
    {part : State → Option Part} {sets : Item → Option Part → Prop} {wanted : Key}
    (other : ∀ item state next, key item ≠ wanted → step state item = .ok next →
      part next = part state)
    (here : ∀ item state next, key item = wanted → part state = none →
      step state item = .ok next → sets item (part next))
    {items : List Item} (distinct : (items.map key).Nodup) {state final : State}
    (unset : part state = none) (walked : items.foldlM step state = .ok final) :
    (∃ item ∈ items, key item = wanted ∧ sets item (part final)) ∨
      (∀ item ∈ items, key item ≠ wanted) ∧ part final = none := by
  have kept : ∀ (items : List Item) (state : State), (∀ item ∈ items, key item ≠ wanted) →
      items.foldlM step state = .ok final → part final = part state := by
    intro items state others walked
    refine @foldlM_invariant _ _ _ (fun next => part next = part state) _ _ _ _ ?_ rfl walked
    intro item inItems before next held stepped
    exact (other item before next (others item inItems) stepped).trans held
  induction items generalizing state with
  | nil =>
    cases walked
    exact .inr ⟨nofun, unset⟩
  | cons item rest inductionHypothesis =>
    obtain ⟨new, others⟩ := List.nodup_cons.mp distinct
    rw [List.foldlM_cons] at walked
    obtain ⟨next, stepped, walked⟩ := bind_eq_ok.mp walked
    by_cases same : key item = wanted
    · -- No later item has the key, so what the item set is there in the end.
      have later : ∀ other ∈ rest, key other ≠ wanted := fun other inRest again =>
        new ((same.trans again.symm) ▸ List.mem_map_of_mem inRest)
      refine .inl ⟨item, List.mem_cons_self, same, ?_⟩
      rw [kept rest next later walked]
      exact here item state next same unset stepped
    · have stillUnset : part next = none := (other item state next same stepped).trans unset
      rcases inductionHypothesis others stillUnset walked with ⟨found, inRest, held⟩ | ⟨none, held⟩
      · exact .inl ⟨found, List.mem_cons_of_mem _ inRest, held⟩
      · exact .inr ⟨List.forall_mem_cons.mpr ⟨same, none⟩, held⟩

end Traversal

end ListQuery
