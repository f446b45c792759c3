/-
This file proves that the order of members does not matter to a record. A record
sets one field after another and remembers which of them were given, and it is only
there, in what it remembers, that two orders leave a trace. When all that is asked
is that no name comes twice, members set fields that have nothing to do with each
other, and they may do so in any order.
-/

import ListQuery.Proofs.Json.Records
import Mathlib.Data.List.Pairwise

namespace ListQuery

namespace Json

variable {Record : Type}

/-- Whatever two fields are set to, it does not matter which of them is set first. -/
def Field.Commutes (field other : Field Record) : Prop :=
  ∀ part otherPart change otherChange, field.update.ofJson part = .ok change →
    other.update.ofJson otherPart = .ok otherChange →
    ∀ record, otherChange (change record) = change (otherChange record)

instance : Std.Symm (@Field.Commutes Record) where
  symm _ _ commutes part otherPart change otherChange decoded otherDecoded record :=
    (commutes otherPart part otherChange change otherDecoded decoded record).symm

theorem Field.exists_of_optional {Value : Type} {name : String} {decoder : Decoder Value}
    {encode : Value → Json} {get : Record → Option Value} {set : Option Value → Record → Record}
    {part : Json} {change : Record → Record}
    (decoded : (Field.optional name decoder encode get set).update.ofJson part = .ok change) :
    ∃ value, change = set value := by
  obtain ⟨value, _, same⟩ := Traversal.bind_eq_ok.mp decoded
  cases same
  exact ⟨value, rfl⟩

theorem Field.commutes_optional {Value Other : Type} {name otherName : String}
    {decoder : Decoder Value} {otherDecoder : Decoder Other} {encode : Value → Json}
    {otherEncode : Other → Json} {get : Record → Option Value} {otherGet : Record → Option Other}
    {set : Option Value → Record → Record} {otherSet : Option Other → Record → Record}
    (commute : ∀ value other record,
      otherSet other (set value record) = set value (otherSet other record)) :
    (Field.optional name decoder encode get set).Commutes
      (.optional otherName otherDecoder otherEncode otherGet otherSet) := by
  intro part otherPart change otherChange decoded otherDecoded
  obtain ⟨value, rfl⟩ := exists_of_optional decoded
  obtain ⟨other, rfl⟩ := exists_of_optional otherDecoded
  exact commute value other

namespace Layout

variable {layout : Layout Record} {record final : Record} {members others : List (String × Json)}

/-! ### Members without regard to what was given -/

/-- Sets the field of one member, whatever was given before. -/
def setMember (layout : Layout Record) (record : Record) (member : String × Json) :
    Except Fault Record :=
  match Keyed.find? Field.name member.1 layout.fields with
  | some field => return (← field.update.ofJson member.2) record
  | none => .error (.unknownField member.1 (layout.fields.map Field.name))

theorem setMember_eq_ok {member : String × Json} :
    layout.setMember record member = .ok final ↔
      ∃ field change, Keyed.find? Field.name member.1 layout.fields = some field ∧
        field.update.ofJson member.2 = .ok change ∧ final = change record := by
  unfold setMember
  cases known : Keyed.find? Field.name member.1 layout.fields with
  | none => exact ⟨nofun, fun ⟨_, _, absent, _⟩ => by cases absent⟩
  | some field =>
    simp only
    rw [Traversal.bind_eq_ok]
    constructor
    · rintro ⟨change, decoded, same⟩
      cases same
      exact ⟨field, change, rfl, decoded, rfl⟩
    · rintro ⟨_, change, same, decoded, rfl⟩
      cases same
      exact ⟨change, decoded, rfl⟩

theorem takeMember_eq_setMember (strict : layout.strict = true) {given : List String}
    {member : String × Json} {next : Record × List String} :
    layout.takeMember (record, given) member = .ok next ↔
      member.1 ∉ given ∧ layout.setMember record member = .ok next.1 ∧
        next.2 = member.1 :: given := by
  rw [takeMember_eq_ok strict, setMember_eq_ok]
  constructor
  · rintro ⟨field, change, known, new, decoded, rfl⟩
    exact ⟨new, ⟨field, change, known, decoded, rfl⟩, rfl⟩
  · rintro ⟨new, ⟨field, change, known, decoded, same⟩, sameGiven⟩
    exact ⟨field, change, known, new, decoded, Prod.ext same sameGiven⟩

/-- A strict record takes members one after another when it sets their fields one after another and
each name is new. -/
theorem foldlM_takeMember (strict : layout.strict = true) {given names : List String} :
    members.foldlM layout.takeMember (record, given) = .ok (final, names) ↔
      (members.map Prod.fst).Nodup ∧ (∀ member ∈ members, member.1 ∉ given) ∧
        members.foldlM layout.setMember record = .ok final ∧
        names = (members.map Prod.fst).reverse ++ given := by
  constructor
  · intro taken
    obtain ⟨distinct, new⟩ := names_of_foldlM strict taken
    refine ⟨distinct, new, ?_⟩
    clear distinct new
    induction members generalizing record given with
    | nil =>
      cases taken
      exact ⟨rfl, rfl⟩
    | cons member rest inductionHypothesis =>
      rw [List.foldlM_cons] at taken
      obtain ⟨⟨next, grown⟩, memberTaken, taken⟩ := Traversal.bind_eq_ok.mp taken
      obtain ⟨_, set, same⟩ := (takeMember_eq_setMember strict).mp memberTaken
      cases same
      obtain ⟨restSet, namesSame⟩ := inductionHypothesis taken
      rw [List.foldlM_cons, namesSame, List.map_cons, List.reverse_cons, List.append_assoc]
      exact ⟨Traversal.bind_eq_ok.mpr ⟨next, set, restSet⟩, rfl⟩
  · rintro ⟨distinct, new, set, rfl⟩
    induction members generalizing record given with
    | nil =>
      cases set
      rfl
    | cons member rest inductionHypothesis =>
      rw [List.foldlM_cons] at set ⊢
      obtain ⟨next, memberSet, set⟩ := Traversal.bind_eq_ok.mp set
      obtain ⟨memberNew, restNew⟩ := List.forall_mem_cons.mp new
      obtain ⟨notAgain, distinct⟩ := List.nodup_cons.mp distinct
      have stillNew : ∀ other ∈ rest, other.1 ∉ member.1 :: given := by
        intro other inRest held
        rcases List.mem_cons.mp held with same | before
        · exact notAgain (same ▸ List.mem_map_of_mem inRest)
        · exact restNew other inRest before
      refine Traversal.bind_eq_ok.mpr ⟨(next, member.1 :: given),
        (takeMember_eq_setMember strict).mpr ⟨memberNew, memberSet, rfl⟩, ?_⟩
      rw [inductionHypothesis distinct stillNew set, List.map_cons, List.reverse_cons,
        List.append_assoc]
      rfl

/-- A record without required fields is what the members of an object set, when no name comes
twice. -/
theorem ofJson_object_eq_ok (strict : layout.strict = true)
    (free : ∀ field ∈ layout.fields, field.required = false) :
    layout.decoder.ofJson (.object members) = .ok record ↔
      (members.map Prod.fst).Nodup ∧
        members.foldlM layout.setMember layout.initial = .ok record := by
  show (members.foldlM layout.takeMember (layout.initial, []) >>= _) = .ok record ↔ _
  rw [Traversal.bind_eq_ok]
  constructor
  · rintro ⟨⟨built, names⟩, taken, ended⟩
    cases (ofMembers_of_free free).symm.trans ended
    obtain ⟨distinct, _, set, _⟩ := (foldlM_takeMember strict).mp taken
    exact ⟨distinct, set⟩
  · rintro ⟨distinct, set⟩
    exact ⟨(record, _), (foldlM_takeMember strict).mpr ⟨distinct, fun _ _ => nofun, set, rfl⟩,
      ofMembers_of_free free⟩

/-! ### Members in another order -/

/-- Setting fields of different names can be done in either order. -/
theorem setMember_commutes (commutes : layout.fields.Pairwise Field.Commutes)
    {first second : String × Json} {middle : Record} (different : first.1 ≠ second.1)
    (set : layout.setMember record first = .ok middle)
    (setAgain : layout.setMember middle second = .ok final) :
    ∃ between, layout.setMember record second = .ok between ∧
      layout.setMember between first = .ok final := by
  obtain ⟨field, change, known, decoded, rfl⟩ := setMember_eq_ok.mp set
  obtain ⟨other, otherChange, otherKnown, otherDecoded, rfl⟩ := setMember_eq_ok.mp setAgain
  obtain ⟨inFields, named⟩ := Keyed.mem_of_find? known
  obtain ⟨otherInFields, otherNamed⟩ := Keyed.mem_of_find? otherKnown
  have notSame : field ≠ other := fun same => different (by rw [← named, ← otherNamed, same])
  have swap : field.Commutes other := commutes.forall inFields otherInFields notSame
  refine ⟨otherChange record, setMember_eq_ok.mpr ⟨other, otherChange, otherKnown, otherDecoded,
    rfl⟩, setMember_eq_ok.mpr ⟨field, change, known, decoded, ?_⟩⟩
  exact swap _ _ change otherChange decoded otherDecoded record

/-- A record is read from the members of an object in any order. -/
theorem ofJson_object_perm (strict : layout.strict = true)
    (free : ∀ field ∈ layout.fields, field.required = false)
    (commutes : layout.fields.Pairwise Field.Commutes) (perm : members.Perm others) :
    layout.decoder.ofJson (.object members) = .ok record ↔
      layout.decoder.ofJson (.object others) = .ok record := by
  have either : ∀ {first second : List (String × Json)}, first.Perm second →
      layout.decoder.ofJson (.object first) = .ok record →
      layout.decoder.ofJson (.object second) = .ok record := by
    intro first second perm decoded
    obtain ⟨distinct, set⟩ := (ofJson_object_eq_ok strict free).mp decoded
    refine (ofJson_object_eq_ok strict free).mpr
      ⟨(perm.map Prod.fst).nodup_iff.mp distinct, ?_⟩
    exact Traversal.foldlM_perm (fun _ _ _ _ _ => setMember_commutes commutes) perm distinct set
  exact ⟨either perm, either perm.symm⟩

/-- A record is read from members in place of others of the same names that set the same. -/
theorem ofJson_object_congr (strict : layout.strict = true)
    (free : ∀ field ∈ layout.fields, field.required = false)
    {alike : String × Json → String × Json → Prop} (pairs : List.Forall₂ alike members others)
    (named : ∀ member other, alike member other → member.1 = other.1)
    (each : ∀ member ∈ members, ∀ other, alike member other → ∀ field ∈ layout.fields,
      field.name = member.1 → ∀ change,
        field.update.ofJson member.2 = .ok change ↔ field.update.ofJson other.2 = .ok change) :
    layout.decoder.ofJson (.object members) = .ok record ↔
      layout.decoder.ofJson (.object others) = .ok record := by
  have names : members.map Prod.fst = others.map Prod.fst := by
    refine List.forall₂_eq_eq_eq ▸ List.forall₂_map_left_iff.mpr (List.forall₂_map_right_iff.mpr ?_)
    exact pairs.imp fun _ _ => named _ _
  rw [ofJson_object_eq_ok strict free, ofJson_object_eq_ok strict free, names]
  refine and_congr_right fun _ => Traversal.foldlM_congr_ok pairs ?_
  intro member inMembers other paired record next
  rw [setMember_eq_ok, setMember_eq_ok, named member other paired]
  refine exists_congr fun field => exists_congr fun change => and_congr_right fun known => ?_
  obtain ⟨inFields, isNamed⟩ := Keyed.mem_of_find? known
  exact and_congr_left fun _ => each member inMembers other paired field inFields
    (isNamed.trans (named member other paired).symm) change

/-! ### Elements -/

/-- Elements are members without their names. -/
theorem takeElements_eq_setMember (free : ∀ field ∈ layout.fields, field.required = false)
    {length : Nat} {left : List (Field Record)} {items : List Json}
    (known : ∀ field ∈ left, field ∈ layout.fields ∧
      Keyed.find? Field.name field.name layout.fields = some field) :
    layout.takeElements length left record items = .ok final ↔
      items.length ≤ left.length ∧
        ((left.map Field.name).zip items).foldlM layout.setMember record = .ok final := by
  induction items generalizing left record with
  | nil =>
    have nothingMissing : left.findIdx? Field.required = none := by
      rw [List.findIdx?_eq_none_iff]
      exact fun field inLeft => free field (known field inLeft).1
    have ended : layout.takeElements length left record [] = .ok record := by
      rw [takeElements]
      unfold ofElements
      rw [nothingMissing]
    rw [ended, List.zip_nil_right]
    exact ⟨fun same => ⟨Nat.zero_le _, same⟩, And.right⟩
  | cons item items inductionHypothesis =>
    cases left with
    | nil =>
      constructor
      · intro taken
        cases taken
      · rintro ⟨tooLong, -⟩
        exact absurd tooLong (Nat.not_succ_le_zero _)
    | cons field left =>
      obtain ⟨⟨_, found⟩, others⟩ := List.forall_mem_cons.mp known
      rw [takeElements, Traversal.bind_eq_ok, List.map_cons, List.zip_cons_cons, List.foldlM_cons,
        Traversal.bind_eq_ok, List.length_cons, List.length_cons, Nat.succ_le_succ_iff]
      constructor
      · rintro ⟨change, decoded, taken⟩
        obtain ⟨fits, set⟩ := (inductionHypothesis others).mp taken
        exact ⟨fits, change record, setMember_eq_ok.mpr ⟨field, change, found, decoded, rfl⟩, set⟩
      · rintro ⟨fits, _, memberSet, set⟩
        obtain ⟨_, change, known, decoded, rfl⟩ := setMember_eq_ok.mp memberSet
        cases found.symm.trans known
        exact ⟨change, decoded, (inductionHypothesis others).mpr ⟨fits, set⟩⟩

theorem sublist_map_fst_zip (names : List String) (items : List Json) :
    ((names.zip items).map Prod.fst).Sublist names := by
  induction names generalizing items with
  | nil => exact .slnil
  | cons name names inductionHypothesis =>
    cases items with
    | nil => exact List.nil_sublist _
    | cons item items => exact (inductionHypothesis items).cons_cons name

/-- A record is read from an array as from the object in which the elements stand under the names of
the fields. -/
theorem ofJson_array_eq_ok (strict : layout.strict = true)
    (free : ∀ field ∈ layout.fields, field.required = false)
    (distinct : Keyed.Distinct Field.name layout.fields) {items : List Json} :
    layout.decoder.ofJson (.array items) = .ok record ↔
      items.length ≤ layout.fields.length ∧
        layout.decoder.ofJson (.object ((layout.fields.map Field.name).zip items)) =
          .ok record := by
  have names : (((layout.fields.map Field.name).zip items).map Prod.fst).Nodup :=
    (sublist_map_fst_zip _ items).nodup distinct
  rw [ofJson_object_eq_ok strict free]
  refine (takeElements_eq_setMember free fun field member =>
    ⟨member, Keyed.find?_of_mem distinct member⟩).trans (and_congr_right fun _ => ?_)
  exact (and_iff_right names).symm

end Layout

/-! ### Parts that may be missing or null -/

section Parts

variable {Fault Other Value State : Type} {decode : Json → Except Fault Value} {value other : Json}
  {found : Option Value} {members : List (String × Json)}

/-- What a part is read as, nothing when it is null. -/
def ReadsPart (decode : Json → Except Fault Value) (value : Json) (found : Option Value) : Prop :=
  value = .null ∧ found = none ∨
    value ≠ .null ∧ ∃ present, decode value = .ok present ∧ found = some present

theorem ReadsPart.congr (null : value = .null ↔ other = .null)
    (decoded : ∀ present, decode value = .ok present ↔ decode other = .ok present) :
    ReadsPart decode value found ↔ ReadsPart decode other found :=
  or_congr (and_congr_left fun _ => null) (and_congr (not_congr null)
    (exists_congr fun present => and_congr_left fun _ => decoded present))

/-- A step that does nothing for null and otherwise puts in what a part is read as. -/
theorem readsPart_iff (step : Json → Except Other State) (put : Option Value → State)
    (null : step .null = .ok (put none))
    (present : ∀ value, value ≠ .null → ∀ next, step value = .ok next ↔
      ∃ present, decode value = .ok present ∧ put (some present) = next) {next : State} :
    step value = .ok next ↔ ∃ found, ReadsPart decode value found ∧ next = put found := by
  constructor
  · intro stepped
    by_cases isNull : value = .null
    · subst isNull
      rw [null] at stepped
      exact ⟨none, .inl ⟨rfl, rfl⟩, (Except.ok.inj stepped).symm⟩
    · obtain ⟨found, decoded, same⟩ := (present value isNull next).mp stepped
      exact ⟨some found, .inr ⟨isNull, found, decoded, rfl⟩, same.symm⟩
  · rintro ⟨_, ⟨rfl, rfl⟩ | ⟨notNull, found, decoded, rfl⟩, rfl⟩
    · exact null
    · exact (present value notNull _).mpr ⟨found, decoded, rfl⟩

/-- The value under a name, null when there is none. -/
def memberOrNull (members : List (String × Json)) (key : String) : Json :=
  (members.lookup key).getD .null

theorem memberOrNull_of_mem (distinct : (members.map Prod.fst).Nodup) {member : String × Json}
    (held : member ∈ members) : memberOrNull members member.1 = member.2 := by
  rw [memberOrNull, Keyed.lookup_of_mem distinct held, Option.getD_some]

theorem memberOrNull_of_absent {key : String} (absent : ∀ member ∈ members, member.1 ≠ key) :
    memberOrNull members key = .null := by
  have nothing : members.lookup key = none :=
    List.lookup_eq_none_iff.mpr fun member held => bne_iff_ne.mpr (absent member held).symm
  rw [memberOrNull, nothing, Option.getD_none]

theorem wellFormed_memberOrNull {key : String}
    (values : ∀ member ∈ members, member.2.WellFormed) : (memberOrNull members key).WellFormed := by
  unfold memberOrNull
  induction members with
  | nil => exact trivial
  | cons member rest inductionHypothesis =>
    obtain ⟨here, others⟩ := List.forall_mem_cons.mp values
    rw [List.lookup_cons]
    split
    · exact here
    · exact inductionHypothesis others

/-- A part of the state that the members of one name alone set is read from the value under that
name. -/
theorem readsPart_of_foldlM {step : State → String × Json → Except Other State}
    (part : State → Option Value) (key : String)
    (others : ∀ member state next, member.1 ≠ key → step state member = .ok next →
      part next = part state)
    (here : ∀ value state next, part state = none → step state (key, value) = .ok next →
      ReadsPart decode value (part next))
    (distinct : (members.map Prod.fst).Nodup) {state final : State} (unset : part state = none)
    (walked : members.foldlM step state = .ok final) :
    ReadsPart decode (memberOrNull members key) (part final) := by
  have named : ∀ (member : String × Json) (state next : State), member.1 = key →
      part state = none → step state member = .ok next →
      ReadsPart decode member.2 (part next) := by
    rintro ⟨_, value⟩ state next rfl
    exact here value state next
  rcases Traversal.foldlM_part others named distinct unset walked with
    ⟨member, held, rfl, read⟩ | ⟨absent, same⟩
  · rw [memberOrNull_of_mem distinct held]
    exact read
  · rw [memberOrNull_of_absent absent]
    exact .inl ⟨rfl, same⟩

end Parts

end Json

end ListQuery
