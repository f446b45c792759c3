/-
This file proves that a lenient record knows nothing of the members it skips but that
they have names. It takes the members of an object one after another, each as a change
of one of its fields or as nothing at all; which of the two, and which change, is
decided by the name and the value of the member. So an object may grow by any members
with other names, in any places, and is still read as the same record. It is refused
when what is added stands for no name.
-/

import ListQuery.Proofs.Json.Certain

namespace ListQuery

namespace Json

namespace Layout

variable {Record : Type} {layout : Layout Record} {depth : Nat}

/-- A layout that skips the members it does not know, with fields that are certain of their
values. -/
structure Lenient (layout : Layout Record) (depth : Nat) : Prop where
  lenient : layout.strict = false
  fields : ∀ field ∈ layout.fields, Certain (field.update.read depth)

/-! ### Entries -/

/-- What a member gives to a record: a change of the field of that name, or nothing. -/
def readEntry (layout : Layout Record) (depth : Nat) (text : List Char) :
    Except Fault (Option (String × (Record → Record)) × List Char) := do
  let (name, rest) ← readName text
  match Keyed.find? Field.name name layout.fields with
  | none =>
    let rest ← readColon rest
    let rest ← skip rest
    return (none, rest)
  | some field =>
    let rest ← readColon rest
    let (change, rest) ← field.update.read depth rest
    return (some (name, change), rest)

/-- Takes what a member gives into the record. No field is changed twice. -/
def takeEntry (state : Record × List String) :
    Option (String × (Record → Record)) → Except Fault (Record × List String)
  | none => .ok state
  | some (name, change) =>
    if state.2.contains name then .error (.duplicateField name)
    else .ok (change state.1, name :: state.2)

theorem readEntry_eq_ok {text rest : List Char} {entry : Option (String × (Record → Record))} :
    layout.readEntry depth text = .ok (entry, rest) ↔
      ∃ name afterName afterColon, readName text = .ok (name, afterName) ∧
        readColon afterName = .ok afterColon ∧
        ((Keyed.find? Field.name name layout.fields = none ∧ skip afterColon = .ok rest ∧
          entry = none) ∨
        ∃ field change, Keyed.find? Field.name name layout.fields = some field ∧
          field.update.read depth afterColon = .ok (change, rest) ∧
          entry = some (name, change)) := by
  unfold readEntry
  rw [Traversal.bind_eq_ok]
  constructor
  · rintro ⟨⟨name, afterName⟩, nameRead, read⟩
    simp only at read
    split at read
    · rename_i unknown
      obtain ⟨afterColon, colonRead, read⟩ := Traversal.bind_eq_ok.mp read
      obtain ⟨left, skipped, same⟩ := Traversal.bind_eq_ok.mp read
      cases same
      exact ⟨name, afterName, afterColon, nameRead, colonRead, .inl ⟨unknown, skipped, rfl⟩⟩
    · rename_i field known
      obtain ⟨afterColon, colonRead, read⟩ := Traversal.bind_eq_ok.mp read
      obtain ⟨⟨change, left⟩, changeRead, same⟩ := Traversal.bind_eq_ok.mp read
      cases same
      exact ⟨name, afterName, afterColon, nameRead, colonRead,
        .inr ⟨field, change, known, changeRead, rfl⟩⟩
  · rintro ⟨name, afterName, afterColon, nameRead, colonRead,
      ⟨unknown, skipped, rfl⟩ | ⟨field, change, known, changeRead, rfl⟩⟩
    · refine ⟨_, nameRead, ?_⟩
      simp only [unknown]
      exact Traversal.bind_eq_ok.mpr ⟨_, colonRead, Traversal.bind_eq_ok.mpr ⟨_, skipped, rfl⟩⟩
    · refine ⟨_, nameRead, ?_⟩
      simp only [known]
      exact Traversal.bind_eq_ok.mpr ⟨_, colonRead, Traversal.bind_eq_ok.mpr ⟨_, changeRead, rfl⟩⟩

/-- A lenient record takes its fields once each, and any other members as often as they come. -/
theorem fieldOf_lenient (lenient : layout.strict = false) {given : List String} {name : String}
    {found : Option (Field Record)} :
    layout.fieldOf given name = .ok found ↔
      (Keyed.find? Field.name name layout.fields = none ∧ found = none) ∨
        ∃ field, Keyed.find? Field.name name layout.fields = some field ∧
          given.contains name = false ∧ found = some field := by
  unfold fieldOf
  cases known : Keyed.find? Field.name name layout.fields with
  | none =>
    simp only [lenient, Bool.false_eq_true, if_false]
    constructor
    · rintro ⟨⟩
      exact .inl ⟨trivial, rfl⟩
    · rintro (⟨_, rfl⟩ | ⟨_, same, _⟩)
      · rfl
      · cases same
  | some field =>
    simp only
    cases taken : given.contains name with
    | true =>
      refine ⟨nofun, ?_⟩
      rintro (⟨same, _⟩ | ⟨_, _, new, _⟩)
      · cases same
      · cases new
    | false =>
      constructor
      · rintro ⟨⟩
        exact .inr ⟨field, rfl, rfl, rfl⟩
      · rintro (⟨same, _⟩ | ⟨_, same, _, rfl⟩)
        · cases same
        · cases same
          rfl

/-- Taking a member straight from text is reading what it gives and taking that. -/
theorem follows_readEntry (lenient : layout.strict = false) (depth : Nat) :
    Follows (fun _ => True) (layout.readMember depth) (layout.readEntry depth) takeEntry := by
  refine ⟨fun {state} _ => ?_, fun _ _ => trivial⟩
  intro text next rest
  unfold readMember
  simp only [Traversal.bind_eq_ok, readEntry_eq_ok]
  constructor
  · rintro ⟨⟨name, afterName⟩, nameRead, found, fieldFound, read⟩
    rcases (fieldOf_lenient lenient).mp fieldFound with
      ⟨unknown, rfl⟩ | ⟨field, known, new, rfl⟩
    · obtain ⟨afterColon, colonRead, read⟩ := Traversal.bind_eq_ok.mp read
      obtain ⟨left, skipped, same⟩ := Traversal.bind_eq_ok.mp read
      cases same
      exact ⟨none, ⟨name, afterName, afterColon, nameRead, colonRead,
        .inl ⟨unknown, skipped, rfl⟩⟩, rfl⟩
    · obtain ⟨afterColon, colonRead, read⟩ := Traversal.bind_eq_ok.mp read
      obtain ⟨⟨change, left⟩, changeRead, same⟩ := Traversal.bind_eq_ok.mp read
      cases same
      refine ⟨some (name, change), ⟨name, afterName, afterColon, nameRead, colonRead,
        .inr ⟨field, change, known, changeRead, rfl⟩⟩, ?_⟩
      rw [takeEntry, if_neg (new ▸ Bool.false_ne_true)]
  · rintro ⟨entry, ⟨name, afterName, afterColon, nameRead, colonRead,
      ⟨unknown, skipped, rfl⟩ | ⟨field, change, known, changeRead, rfl⟩⟩, taken⟩
    · cases taken
      refine ⟨_, nameRead, none, (fieldOf_lenient lenient).mpr (.inl ⟨unknown, rfl⟩), ?_⟩
      exact Traversal.bind_eq_ok.mpr ⟨_, colonRead, Traversal.bind_eq_ok.mpr ⟨_, skipped, rfl⟩⟩
    · rw [takeEntry] at taken
      split at taken
      · cases taken
      rename_i new
      cases taken
      refine ⟨_, nameRead, some field, (fieldOf_lenient lenient).mpr
        (.inr ⟨field, known, Bool.eq_false_iff.mpr new, rfl⟩), ?_⟩
      exact Traversal.bind_eq_ok.mpr ⟨_, colonRead, Traversal.bind_eq_ok.mpr ⟨_, changeRead, rfl⟩⟩

theorem skipsBlanks_readEntry : SkipsBlanks (layout.readEntry depth) :=
  skipsBlanks_of_dropBlanks fun text => by rw [readEntry, readEntry, readName_dropBlanks]

/-! ### Members -/

section Members

variable {member : Member} {entry : Option (String × (Record → Record))}

/-- A value is skipped with the blanks before it. -/
theorem skip_value {blanks text rest : List Char} (blank : Blank blanks) (isValue : IsValue text)
    (stops : Text.Stops Literal.extends rest) : skip (blanks ++ (text ++ rest)) = .ok rest := by
  have enough : text.length ≤ (blanks ++ (text ++ rest)).length := by
    rw [List.length_append, List.length_append]
    omega
  have takes := takes_skip isValue enough rest stops
  rw [← skipsBlanks_skipItem _ blank, skipItem_eq_ok] at takes
  exact takes

/-- What is read of a member is up to its name and its value alone: nothing if no field has that
name, and else a change that the value stands for. -/
theorem readEntry_core (certain : layout.Lenient depth) (isValid : member.IsValid)
    {rest left : List Char} (stops : Text.Stops Literal.extends rest) :
    layout.readEntry depth (member.core ++ rest) = .ok (entry, left) ↔
      left = rest ∧ ∃ name, Names member.name.core name ∧
        ((Keyed.find? Field.name name layout.fields = none ∧ entry = none) ∨
        ∃ field change, Keyed.find? Field.name name layout.fields = some field ∧
          Takes (field.update.read depth) member.value.core change ∧
          entry = some (name, change)) := by
  rw [readEntry_eq_ok, Member.core, List.append_assoc, List.append_assoc, List.cons_append,
    List.append_assoc]
  constructor
  · rintro ⟨name, afterName, afterColon, nameRead, colonRead, read⟩
    obtain ⟨names, rfl⟩ := names_of_readName isValid.name nameRead
    rw [readColon_append member.name.blankAfter] at colonRead
    cases colonRead
    rcases read with ⟨unknown, skipped, rfl⟩ | ⟨field, change, known, changeRead, rfl⟩
    · rw [skip_value member.value.blankBefore isValid.value stops] at skipped
      cases skipped
      exact ⟨rfl, name, names, .inl ⟨unknown, rfl⟩⟩
    · have sure := certain.fields field (Keyed.mem_of_find? known).1
      rw [sure.skipsBlanks member.value.blankBefore] at changeRead
      obtain ⟨same, takes⟩ := sure.decides isValid.value _ _ _ stops changeRead
      exact ⟨same, name, names, .inr ⟨field, change, known, takes, rfl⟩⟩
  · rintro ⟨rfl, name, names, given⟩
    refine ⟨name, _, _, readName_append isValid.name names _,
      readColon_append member.name.blankAfter _, ?_⟩
    rcases given with ⟨unknown, rfl⟩ | ⟨field, change, known, takes, rfl⟩
    · exact .inl ⟨unknown, skip_value member.value.blankBefore isValid.value stops, rfl⟩
    · have sure := certain.fields field (Keyed.mem_of_find? known).1
      refine .inr ⟨field, change, known, ?_, rfl⟩
      rw [sure.skipsBlanks member.value.blankBefore]
      exact takes _ stops

theorem takes_readEntry (certain : layout.Lenient depth) (isValid : member.IsValid) :
    Takes (layout.readEntry depth) member.core entry ↔
      ∃ name, Names member.name.core name ∧
        ((Keyed.find? Field.name name layout.fields = none ∧ entry = none) ∨
        ∃ field change, Keyed.find? Field.name name layout.fields = some field ∧
          Takes (field.update.read depth) member.value.core change ∧
          entry = some (name, change)) :=
  ⟨fun takes => ((readEntry_core certain isValid Text.stops_nil).mp (takes [] Text.stops_nil)).2,
    fun given _ stops => (readEntry_core certain isValid stops).mpr ⟨rfl, given⟩⟩

/-- A member that stands for the name of a field gives a change of that field. -/
theorem takes_known (certain : layout.Lenient depth) (isValid : member.IsValid) {name : String}
    {field : Field Record} (named : Names member.name.core name)
    (known : Keyed.find? Field.name name layout.fields = some field) :
    Takes (layout.readEntry depth) member.core entry ↔
      ∃ change, Takes (field.update.read depth) member.value.core change ∧
        entry = some (name, change) := by
  rw [takes_readEntry certain isValid]
  constructor
  · rintro ⟨other, otherNamed, ⟨unknown, _⟩ | ⟨found, change, found_eq, takes, rfl⟩⟩
    · cases names_unique named otherNamed
      cases known.symm.trans unknown
    · cases names_unique named otherNamed
      cases known.symm.trans found_eq
      exact ⟨change, takes, rfl⟩
  · rintro ⟨change, takes, rfl⟩
    exact ⟨name, named, .inr ⟨field, change, known, takes, rfl⟩⟩

/-- A member that stands for none of the names of a layout gives nothing. It has to stand for some
name all the same. -/
theorem takes_unknown (certain : layout.Lenient depth) (isValid : member.IsValid)
    (unknown : ∀ name ∈ layout.fields.map Field.name, ¬Names member.name.core name) :
    Takes (layout.readEntry depth) member.core entry ↔ entry = none ∧ member.IsNamed := by
  rw [takes_readEntry certain isValid]
  constructor
  · rintro ⟨name, named, ⟨_, rfl⟩ | ⟨field, _, known, _, _⟩⟩
    · exact ⟨rfl, name, named⟩
    · obtain ⟨inFields, rfl⟩ := Keyed.mem_of_find? known
      exact absurd named (unknown _ (List.mem_map_of_mem inFields))
  · rintro ⟨rfl, name, named⟩
    refine ⟨name, named, .inl ⟨?_, rfl⟩⟩
    by_contra found
    obtain ⟨field, known⟩ := Option.ne_none_iff_exists'.mp found
    obtain ⟨inFields, rfl⟩ := Keyed.mem_of_find? known
    exact unknown _ (List.mem_map_of_mem inFields) named

theorem decides_readEntry (certain : layout.Lenient depth) (isValid : member.IsValid) :
    Decides (layout.readEntry depth) member.core := by
  intro rest entry left stops read
  obtain ⟨same, given⟩ := (readEntry_core certain isValid stops).mp read
  exact ⟨same, (takes_readEntry certain isValid).mpr given⟩

end Members

/-! ### Objects -/

section Objects

variable {padding rest left : List Char} {members : List Member} {record : Record}

/-- Members take a record in the making from one state to another, one by one. -/
def Leads (layout : Layout Record) (depth : Nat) (members : List Member)
    (state final : Record × List String) : Prop :=
  ∃ entries,
    List.Forall₂ (fun member entry => Takes (layout.readEntry depth) member.core entry) members
      entries ∧
    entries.foldlM takeEntry state = .ok final

theorem leads_cons {member : Member} {state final : Record × List String} :
    layout.Leads depth (member :: members) state final ↔
      ∃ entry between, Takes (layout.readEntry depth) member.core entry ∧
        takeEntry state entry = .ok between ∧ layout.Leads depth members between final := by
  constructor
  · rintro ⟨_, given, taken⟩
    obtain ⟨entry, entries, takes, gives, rfl⟩ := List.forall₂_cons_left_iff.mp given
    obtain ⟨between, entryTaken, taken⟩ := Traversal.bind_eq_ok.mp taken
    exact ⟨entry, between, takes, entryTaken, entries, gives, taken⟩
  · rintro ⟨entry, between, takes, entryTaken, entries, gives, taken⟩
    exact ⟨entry :: entries, .cons takes gives, Traversal.bind_eq_ok.mpr ⟨_, entryTaken, taken⟩⟩

/-- A lenient record is taken off an object whose members are taken and lead to it. -/
theorem takes_of_leads (lenient : layout.strict = false) (blank : Blank padding)
    (starts : ∀ member ∈ members, Starts member.core) {final : Record × List String}
    (leads : layout.Leads depth members (layout.initial, []) final)
    (ended : layout.ofMembers final.2 final.1 = .ok record) :
    Takes (layout.decoder.read (depth + 1)) (objectText padding members) record := by
  intro rest _
  obtain ⟨entries, given, folded⟩ := leads
  have elementStarts : ∀ element ∈ members.map Member.element, Starts element.core := by
    rw [List.forall_mem_map]
    exact starts
  have taken : List.Forall₂
      (fun element entry => Takes (layout.readEntry depth) element.core entry)
      (members.map Member.element) entries := by
    rw [List.forall₂_map_left_iff]
    exact given
  have read := foldElements_of_takes (follows_readEntry lenient depth) skipsBlanks_readEntry
    (.inr rfl) (dropBlanks_of_head (by decide) rest) blank elementStarts taken trivial folded
  rw [objectText_append]
  simp only [decoder, dropBlanks_of_head (show isBlank '\x7b' = false by decide)]
  exact Traversal.bind_eq_ok.mpr ⟨_, read, Traversal.bind_eq_ok.mpr ⟨record, ended, rfl⟩⟩

/-- A lenient record is read from an object only as what its members lead to. -/
theorem leads_of_read (certain : layout.Lenient depth) (blank : Blank padding)
    (valid : ∀ member ∈ members, member.IsValid)
    (read : layout.decoder.read (depth + 1) (objectText padding members ++ rest) =
      .ok (record, left)) :
    left = rest ∧ ∃ final, layout.Leads depth members (layout.initial, []) final ∧
      layout.ofMembers final.2 final.1 = .ok record := by
  have starts : ∀ element ∈ members.map Member.element, Starts element.core := by
    rw [List.forall_mem_map]
    exact fun member held => (valid member held).starts
  have decides : ∀ element ∈ members.map Member.element,
      Decides (layout.readEntry depth) element.core := by
    rw [List.forall_mem_map]
    exact fun member held => decides_readEntry certain (valid member held)
  rw [objectText_append] at read
  simp only [decoder, dropBlanks_of_head (show isBlank '\x7b' = false by decide)] at read
  obtain ⟨⟨final, behind⟩, membersRead, read⟩ := Traversal.bind_eq_ok.mp read
  obtain ⟨built, ended, same⟩ := Traversal.bind_eq_ok.mp read
  cases same
  obtain ⟨entries, enclosed, folded⟩ :=
    enclosed_of_foldElements (follows_readEntry certain.lenient depth) trivial membersRead
  obtain ⟨same, taken⟩ := takes_of_enclosed skipsBlanks_readEntry (.inr rfl)
    (dropBlanks_of_head (by decide) rest) blank starts decides enclosed
  rw [List.forall₂_map_left_iff] at taken
  exact ⟨same, final, ⟨entries, taken, folded⟩, ended⟩

theorem takes_objectText (certain : layout.Lenient depth) (blank : Blank padding)
    (valid : ∀ member ∈ members, member.IsValid) :
    Takes (layout.decoder.read (depth + 1)) (objectText padding members) record ↔
      ∃ final, layout.Leads depth members (layout.initial, []) final ∧
        layout.ofMembers final.2 final.1 = .ok record := by
  constructor
  · exact fun takes => (leads_of_read certain blank valid (takes [] Text.stops_nil)).2
  · rintro ⟨final, leads, ended⟩
    exact takes_of_leads certain.lenient blank (fun member held => (valid member held).starts) leads
      ended

/-- A lenient record is sure of every object. -/
theorem decides_objectText (certain : layout.Lenient depth) (blank : Blank padding)
    (valid : ∀ member ∈ members, member.IsValid) :
    Decides (layout.decoder.read (depth + 1)) (objectText padding members) := by
  intro rest record left _ read
  obtain ⟨same, leads⟩ := leads_of_read certain blank valid read
  exact ⟨same, (takes_objectText certain blank valid).mpr leads⟩

end Objects

/-! ### Written objects -/

section Written

variable {members : List (String × Json)} {record : Record}

/-- A member that is known is taken as a change when its name and its value are taken. -/
theorem takes_change {member : Member} {name : String} {field : Field Record}
    {change : Record → Record}
    (named : ∀ rest, readName (member.name.core ++ rest) = .ok (name, rest))
    (known : Keyed.find? Field.name name layout.fields = some field)
    (skipsBlanks : SkipsBlanks (field.update.read depth))
    (takes : Takes (field.update.read depth) member.value.core change) :
    Takes (layout.readEntry depth) member.core (some (name, change)) := by
  intro rest stops
  rw [readEntry_eq_ok, Member.core, List.append_assoc, List.append_assoc, List.cons_append,
    List.append_assoc]
  exact ⟨name, _, _, named _, readColon_append member.name.blankAfter _, .inr ⟨field, change, known,
    (skipsBlanks member.value.blankBefore _ _ _).mpr (takes rest stops), rfl⟩⟩

/-- Members that are taken out of a document lead to the same record when they are written. -/
theorem leads_of_foldlM (certain : layout.Lenient depth)
    (known : ∀ member ∈ members, member.1 ∈ layout.fields.map Field.name)
    (each : ∀ member ∈ members, ∀ field ∈ layout.fields, field.name = member.1 →
      ∀ change, field.update.ofJson member.2 = .ok change →
        Takes (field.update.read depth) member.2.write change)
    {state final : Record × List String}
    (taken : members.foldlM layout.takeMember state = .ok final) :
    layout.Leads depth (members.map Member.bare) state final := by
  induction members generalizing state with
  | nil => exact ⟨[], .nil, taken⟩
  | cons member members inductionHypothesis =>
    obtain ⟨isKnown, othersKnown⟩ := List.forall_mem_cons.mp known
    obtain ⟨takes, others⟩ := List.forall_mem_cons.mp each
    obtain ⟨between, memberTaken, taken⟩ := Traversal.bind_eq_ok.mp taken
    obtain ⟨found, fieldFound, memberTaken⟩ := Traversal.bind_eq_ok.mp memberTaken
    rcases (fieldOf_lenient certain.lenient).mp fieldFound with
      ⟨unknown, _⟩ | ⟨field, fieldKnown, new, rfl⟩
    · obtain ⟨field, inFields, same⟩ := List.mem_map.mp isKnown
      exact absurd (decide_eq_true same) (List.find?_eq_none.mp unknown field inFields)
    · obtain ⟨change, decoded, same⟩ := Traversal.bind_eq_ok.mp memberTaken
      cases same
      obtain ⟨inFields, named⟩ := Keyed.mem_of_find? fieldKnown
      have entry : Takes (layout.readEntry depth) (Member.bare member).core
          (some (member.1, change)) :=
        takes_change (readName_write member.1) fieldKnown
          (certain.fields field inFields).skipsBlanks (takes field inFields named change decoded)
      rw [List.map_cons, leads_cons]
      refine ⟨some (member.1, change), _, entry, ?_, inductionHypothesis othersKnown others taken⟩
      rw [takeEntry, if_neg (new ▸ Bool.false_ne_true)]

/-- A record that a document of known members decodes to is taken off the text of the document, when
the same goes for its fields. -/
theorem takes_write (certain : layout.Lenient depth)
    (known : ∀ member ∈ members, member.1 ∈ layout.fields.map Field.name)
    (each : ∀ member ∈ members, ∀ field ∈ layout.fields, field.name = member.1 →
      ∀ change, field.update.ofJson member.2 = .ok change →
        Takes (field.update.read depth) member.2.write change)
    (decoded : layout.decoder.ofJson (.object members) = .ok record) :
    Takes (layout.decoder.read (depth + 1)) (Json.object members).write record := by
  obtain ⟨final, taken, ended⟩ := Traversal.bind_eq_ok.mp decoded
  have starts : ∀ member ∈ members.map Member.bare, Starts member.core := by
    rw [List.forall_mem_map]
    exact fun member _ => starts_cons (by decide) (by decide) (by decide) _
  rw [write_object]
  exact takes_of_leads certain.lenient blank_nil starts (leads_of_foldlM certain known each taken)
    ended

/-- A record that is read back from its document is taken off the text of the document, when what is
written for each field is taken as what it decodes to. -/
theorem takes_encode (certain : layout.Lenient depth)
    (distinct : Keyed.Distinct Field.name layout.fields) {final : Record}
    (each : ∀ field ∈ layout.fields, ∀ value, field.encode record = some value →
      ∀ change, field.update.ofJson value = .ok change →
        Takes (field.update.read depth) value.write change)
    (decoded : layout.decoder.ofJson (layout.encode record) = .ok final) :
    Takes (layout.decoder.read (depth + 1)) (layout.encode record).write final := by
  refine takes_write certain ?_ ?_ decoded
  · intro member written
    obtain ⟨field, inFields, encoded⟩ := List.mem_filterMap.mp written
    obtain ⟨value, _, rfl⟩ := Option.map_eq_some_iff.mp encoded
    exact List.mem_map_of_mem inFields
  · intro member written field inFields named
    obtain ⟨origin, inOrigins, encoded⟩ := List.mem_filterMap.mp written
    obtain ⟨value, valueEncoded, rfl⟩ := Option.map_eq_some_iff.mp encoded
    -- Fields are told apart by name, so the member was written for the field that takes it.
    have found := Keyed.find?_of_mem distinct inFields
    rw [show field.name = origin.name from named, Keyed.find?_of_mem distinct inOrigins] at found
    cases found
    exact each field inFields value valueEncoded

end Written

/-! ### Records without records inside -/

section Flat

variable {padding : List Char} {text rest : List Char} {record : Record}

theorem lenient_of_streams (lenient : layout.strict = false)
    (streams : ∀ field ∈ layout.fields, field.update.Streams) (depth : Nat) :
    layout.Lenient depth :=
  ⟨lenient, fun field member => Decoder.certain_of_streams (streams field member) depth⟩

/-- A record is read from containers only. -/
theorem exists_of_read_record (read : layout.decoder.read depth text = .ok (record, rest)) :
    ∃ less inner, depth = less + 1 ∧
      (dropBlanks text = '\x7b' :: inner ∨ dropBlanks text = '[' :: inner) := by
  unfold decoder at read
  simp only at read
  split at read
  · cases read
  · cases read
  · rename_i less inner starts
    exact ⟨less, inner, rfl, .inl starts⟩
  · rename_i less inner starts
    exact ⟨less, inner, rfl, .inr starts⟩
  · cases read

/-- A record whose fields stream is sure of every array. -/
theorem decides_arrayText (streams : ∀ field ∈ layout.fields, field.update.Streams)
    {elements : List Padded} (blank : Blank padding)
    (each : ∀ element ∈ elements, IsValue element.core) :
    Decides (layout.decoder.read (depth + 1)) (arrayText padding elements) := by
  have starts : ∀ element ∈ elements, Starts element.core :=
    fun element member => (each element member).starts
  have decides : ∀ element ∈ elements, Decides (Json.read depth) element.core :=
    fun element member => decides_read (each element member) depth
  have ends : ∀ rest, dropBlanks (']' :: rest) = ']' :: rest := dropBlanks_of_head (by decide)
  intro rest record left _ read
  rw [arrayText_append] at read
  simp only [decoder, dropBlanks_of_head (show isBlank '[' = false by decide)] at read
  obtain ⟨⟨⟨built, fields⟩, between⟩, elementsRead, read⟩ := Traversal.bind_eq_ok.mp read
  obtain ⟨final, ended, same⟩ := Traversal.bind_eq_ok.mp read
  cases same
  obtain ⟨rfl, taken⟩ := (foldElements_listed (follows_readElement depth) (skipsBlanks_read depth)
    (.inl rfl) (ends rest) blank starts decides streams).mp elementsRead
  refine ⟨rfl, fun more _ => ?_⟩
  rw [arrayText_append]
  simp only [decoder, dropBlanks_of_head (show isBlank '[' = false by decide)]
  refine Traversal.bind_eq_ok.mpr ⟨((built, fields), more), ?_,
    Traversal.bind_eq_ok.mpr ⟨record, ended, rfl⟩⟩
  exact (foldElements_listed (follows_readElement depth) (skipsBlanks_read depth) (.inl rfl)
    (ends more) blank starts decides streams).mpr ⟨rfl, taken⟩

/-- A lenient record whose fields stream is certain. -/
theorem certain_of_streams (lenient : layout.strict = false)
    (streams : ∀ field ∈ layout.fields, field.update.Streams) (depth : Nat) :
    Certain (layout.decoder.read depth) := by
  constructor
  · exact skipsBlanks_of_dropBlanks fun text => by simp only [decoder, dropBlanks_dropBlanks]
  · intro text isValue rest record left stops read
    obtain ⟨less, inner, rfl, leads⟩ := exists_of_read_record read
    cases isValue with
    | array blank each => exact decides_arrayText streams blank each _ _ _ stops read
    | object blank names each =>
      exact decides_objectText (lenient_of_streams lenient streams less) blank
        (fun member held => ⟨names member held, each member held⟩) _ _ _ stops read
    | word known =>
      simp only [words, List.mem_cons, List.not_mem_nil, or_false] at known
      rcases known with rfl | rfl | rfl <;> rcases leads with leads | leads <;> cases leads
    | number isNumeral =>
      obtain ⟨char, others, rfl, numeral⟩ := exists_of_numeral isNumeral
      obtain ⟨solid, _, _, noArray, noObject, _⟩ := ne_of_numeral numeral
      rw [List.cons_append, dropBlanks_of_head solid] at leads
      rcases leads with leads | leads
      · exact absurd (List.cons.inj leads).1 noObject
      · exact absurd (List.cons.inj leads).1 noArray
    | string isQuoted =>
      obtain ⟨others, _, rfl, _⟩ := codes?_quoted isQuoted
      rcases leads with leads | leads <;> cases leads

end Flat

/-! ### Objects that grow -/

/-- The members of an object before and after some were added, together with all that were added,
there and inside. Those that were there are kept, each as one that is alike. Those that are added
stand for none of the declared names. They need not stand for any name. -/
inductive Grown (declared : List String) (alike : Member → Member → List Member → Prop) :
    List Member → List Member → List Member → Prop
  | done : Grown declared alike [] [] []
  | kept {old new : Member} {olds news inside others : List Member} (same : alike old new inside)
      (grown : Grown declared alike olds news others) :
      Grown declared alike (old :: olds) (new :: news) (inside ++ others)
  | added {new : Member} {olds news others : List Member}
      (unknown : ∀ name ∈ declared, ¬Names new.name.core name) (isValid : new.IsValid)
      (grown : Grown declared alike olds news others) :
      Grown declared alike olds (new :: news) (new :: others)

section Growth

variable {declared : List String} {alike : Member → Member → List Member → Prop}
  {olds news added : List Member} {padding otherPadding : List Char}

/-- Members stay valid when they grow. -/
theorem Grown.valid (each : ∀ old new inside, alike old new inside → old.IsValid → new.IsValid)
    (grown : Grown declared alike olds news added) (valid : ∀ member ∈ olds, member.IsValid) :
    ∀ member ∈ news, member.IsValid := by
  induction grown with
  | done => exact valid
  | kept same _ inductionHypothesis =>
    obtain ⟨first, others⟩ := List.forall_mem_cons.mp valid
    exact List.forall_mem_cons.mpr ⟨each _ _ _ same first, inductionHypothesis others⟩
  | added _ isValid _ inductionHypothesis =>
    exact List.forall_mem_cons.mpr ⟨isValid, inductionHypothesis valid⟩

/-- What is added gives nothing, so grown members lead where they led before, as long as all that
was added stands for names. -/
theorem Grown.leads (certain : layout.Lenient depth)
    (grown : Grown (layout.fields.map Field.name) alike olds news added)
    (each : ∀ old ∈ olds, ∀ new inside, alike old new inside → ∀ entry,
      Takes (layout.readEntry depth) new.core entry ↔
        Takes (layout.readEntry depth) old.core entry ∧ ∀ member ∈ inside, member.IsNamed)
    {state final : Record × List String} :
    layout.Leads depth news state final ↔
      layout.Leads depth olds state final ∧ ∀ member ∈ added, member.IsNamed := by
  induction grown generalizing state with
  | done => exact ⟨fun leads => ⟨leads, List.forall_mem_nil _⟩, And.left⟩
  | @kept old new olds news inside others same _ inductionHypothesis =>
    obtain ⟨first, rest⟩ := List.forall_mem_cons.mp each
    rw [leads_cons, leads_cons, List.forall_mem_append]
    constructor
    · rintro ⟨entry, between, takes, taken, leads⟩
      obtain ⟨takes, insideNamed⟩ := (first new inside same entry).mp takes
      obtain ⟨leads, othersNamed⟩ := (inductionHypothesis rest).mp leads
      exact ⟨⟨entry, between, takes, taken, leads⟩, insideNamed, othersNamed⟩
    · rintro ⟨⟨entry, between, takes, taken, leads⟩, insideNamed, othersNamed⟩
      exact ⟨entry, between, (first new inside same entry).mpr ⟨takes, insideNamed⟩, taken,
        (inductionHypothesis rest).mpr ⟨leads, othersNamed⟩⟩
  | @added new olds news others unknown isValid _ inductionHypothesis =>
    rw [leads_cons, List.forall_mem_cons]
    constructor
    · rintro ⟨entry, between, takes, taken, leads⟩
      obtain ⟨rfl, named⟩ := (takes_unknown certain isValid unknown).mp takes
      cases taken
      obtain ⟨leads, othersNamed⟩ := (inductionHypothesis each).mp leads
      exact ⟨leads, named, othersNamed⟩
    · rintro ⟨leads, named, othersNamed⟩
      exact ⟨none, state, (takes_unknown certain isValid unknown).mpr ⟨rfl, named⟩, rfl,
        (inductionHypothesis each).mpr ⟨leads, othersNamed⟩⟩

/-- A record is taken off an object that has grown exactly when it is taken off the object as it was
before and all that was added stands for names. -/
theorem takes_grown (certain : layout.Lenient depth)
    (grown : Grown (layout.fields.map Field.name) alike olds news added)
    (valid : ∀ member ∈ olds, member.IsValid) (blank : Blank padding)
    (otherBlank : Blank otherPadding)
    (validAlike : ∀ old new inside, alike old new inside → old.IsValid → new.IsValid)
    (each : ∀ old ∈ olds, ∀ new inside, alike old new inside → ∀ entry,
      Takes (layout.readEntry depth) new.core entry ↔
        Takes (layout.readEntry depth) old.core entry ∧ ∀ member ∈ inside, member.IsNamed)
    {record : Record} :
    Takes (layout.decoder.read (depth + 1)) (objectText otherPadding news) record ↔
      Takes (layout.decoder.read (depth + 1)) (objectText padding olds) record ∧
        ∀ member ∈ added, member.IsNamed := by
  rw [takes_objectText certain blank valid,
    takes_objectText certain otherBlank (grown.valid validAlike valid), ← exists_and_right]
  exact exists_congr fun final => by rw [grown.leads certain each, and_right_comm]

end Growth

end Layout

end Json

end ListQuery
