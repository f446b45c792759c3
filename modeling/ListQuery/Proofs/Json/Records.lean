/-
This file proves how records are read. A strict record takes a member or an element
straight from text exactly as it takes it out of a document, so a record is read
where a series of members or of elements is enclosed that the layout accepts. No
field is taken twice, hence nothing is lost when the document is read whole first.
What every field keeps on the way holds of the record in the end, and what a
record writes for its fields is taken field by field.
-/

import ListQuery.Proofs.Json.Streaming

namespace ListQuery

namespace Json

namespace Layout

variable {Record : Type} {layout : Layout Record}

/-- A record whose members are all known, with fields that are read straight from text as out of
documents. -/
structure Streaming (layout : Layout Record) : Prop where
  strict : layout.strict = true
  fields : ∀ field ∈ layout.fields, field.update.Streams

/-! ### Members -/

/-- A strict record takes only fields it knows, each of them once. -/
theorem fieldOf_eq_ok (strict : layout.strict = true) {given : List String} {name : String}
    {found : Option (Field Record)} :
    layout.fieldOf given name = .ok found ↔
      ∃ field, Keyed.find? Field.name name layout.fields = some field ∧ name ∉ given ∧
        found = some field := by
  unfold fieldOf
  cases known : Keyed.find? Field.name name layout.fields with
  | none =>
    simp only [strict, if_true]
    exact ⟨nofun, nofun⟩
  | some field =>
    simp only
    split
    · rename_i taken
      have inGiven := List.contains_iff_mem.mp taken
      exact ⟨nofun, fun ⟨_, _, new, _⟩ => absurd inGiven new⟩
    · rename_i new
      have notGiven : name ∉ given := fun taken => new (List.contains_iff_mem.mpr taken)
      constructor
      · intro same
        cases same
        exact ⟨field, rfl, notGiven, rfl⟩
      · rintro ⟨_, same, _, rfl⟩
        cases same
        rfl

theorem takeMember_eq_ok (strict : layout.strict = true) {state next : Record × List String}
    {member : String × Json} :
    layout.takeMember state member = .ok next ↔
      ∃ field change, Keyed.find? Field.name member.1 layout.fields = some field ∧
        member.1 ∉ state.2 ∧ field.update.ofJson member.2 = .ok change ∧
        next = (change state.1, member.1 :: state.2) := by
  unfold takeMember
  rw [Traversal.bind_eq_ok]
  constructor
  · rintro ⟨found, fieldFound, taken⟩
    obtain ⟨field, known, new, rfl⟩ := (fieldOf_eq_ok strict).mp fieldFound
    obtain ⟨change, decoded, same⟩ := Traversal.bind_eq_ok.mp taken
    cases same
    exact ⟨field, change, known, new, decoded, rfl⟩
  · rintro ⟨field, change, known, new, decoded, rfl⟩
    exact ⟨some field, (fieldOf_eq_ok strict).mpr ⟨field, known, new, rfl⟩,
      Traversal.bind_eq_ok.mpr ⟨change, decoded, rfl⟩⟩

/-- Any record takes a field that it knows and has not been given yet. -/
theorem takeMember_of_known {state : Record × List String} {member : String × Json}
    {field : Field Record} {change : Record → Record}
    (known : Keyed.find? Field.name member.1 layout.fields = some field)
    (new : member.1 ∉ state.2) (decoded : field.update.ofJson member.2 = .ok change) :
    layout.takeMember state member = .ok (change state.1, member.1 :: state.2) := by
  have found : layout.fieldOf state.2 member.1 = .ok (some field) := by
    unfold fieldOf
    simp only [known]
    exact if_neg fun taken => new (List.contains_iff_mem.mp taken)
  exact Traversal.bind_eq_ok.mpr ⟨_, found, Traversal.bind_eq_ok.mpr ⟨change, decoded, rfl⟩⟩

/-- Taking a member straight from text is reading it and taking it. -/
theorem follows_readMember (streaming : layout.Streaming) (depth : Nat) :
    Follows (fun _ => True) (layout.readMember depth) (readPair (Json.read depth))
      layout.takeMember := by
  refine ⟨fun {state} _ => ?_, fun _ _ => trivial⟩
  intro text next rest
  unfold readMember
  rw [Traversal.bind_eq_ok]
  constructor
  · rintro ⟨⟨name, afterName⟩, nameRead, read⟩
    obtain ⟨found, fieldFound, read⟩ := Traversal.bind_eq_ok.mp read
    obtain ⟨field, known, new, rfl⟩ := (fieldOf_eq_ok streaming.strict).mp fieldFound
    obtain ⟨afterColon, colonRead, read⟩ := Traversal.bind_eq_ok.mp read
    obtain ⟨⟨change, left⟩, changeRead, same⟩ := Traversal.bind_eq_ok.mp read
    cases same
    obtain ⟨document, documentRead, decoded⟩ :=
      (streaming.fields field (Keyed.mem_of_find? known).1).mp changeRead
    exact ⟨(name, document),
      readPair_eq_ok.mpr ⟨afterName, afterColon, nameRead, colonRead, documentRead⟩,
      (takeMember_eq_ok streaming.strict).mpr ⟨field, change, known, new, decoded, rfl⟩⟩
  · rintro ⟨member, read, taken⟩
    obtain ⟨afterName, afterColon, nameRead, colonRead, documentRead⟩ := readPair_eq_ok.mp read
    obtain ⟨field, change, known, new, decoded, rfl⟩ :=
      (takeMember_eq_ok streaming.strict).mp taken
    refine ⟨_, nameRead, Traversal.bind_eq_ok.mpr
      ⟨some field, (fieldOf_eq_ok streaming.strict).mpr ⟨field, known, new, rfl⟩, ?_⟩⟩
    refine Traversal.bind_eq_ok.mpr ⟨_, colonRead, ?_⟩
    refine Traversal.bind_eq_ok.mpr ⟨(change, rest), ?_, rfl⟩
    exact (streaming.fields field (Keyed.mem_of_find? known).1).mpr
      ⟨member.2, documentRead, decoded⟩

/-- The names of members that were taken one after another are new and distinct. -/
theorem names_of_foldlM (strict : layout.strict = true) {members : List (String × Json)}
    {state final : Record × List String}
    (taken : members.foldlM layout.takeMember state = .ok final) :
    Keyed.Distinct Prod.fst members ∧ ∀ member ∈ members, member.1 ∉ state.2 := by
  induction members generalizing state with
  | nil => exact ⟨List.nodup_nil, nofun⟩
  | cons member members inductionHypothesis =>
    rw [List.foldlM_cons] at taken
    obtain ⟨next, memberTaken, taken⟩ := Traversal.bind_eq_ok.mp taken
    obtain ⟨_, _, _, new, _, rfl⟩ := (takeMember_eq_ok strict).mp memberTaken
    obtain ⟨distinct, others⟩ := inductionHypothesis taken
    -- The name is among those given when the others are taken, and each of these is new then.
    have notAgain : member.1 ∉ members.map Prod.fst := by
      intro again
      obtain ⟨other, inMembers, same⟩ := List.mem_map.mp again
      exact others other inMembers (same ▸ List.mem_cons_self)
    exact ⟨List.nodup_cons.mpr ⟨notAgain, distinct⟩, List.forall_mem_cons.mpr
      ⟨new, fun other inMembers held => others other inMembers (List.mem_cons_of_mem _ held)⟩⟩

/-! ### Elements -/

/-- Takes one element of an array into the record, for the first field that is left. -/
def takeElement (state : Record × List (Field Record)) (item : Json) :
    Except Fault (Record × List (Field Record)) :=
  match state.2 with
  | [] => .error .malformed
  | field :: left => do
    let change ← field.update.ofJson item
    return (change state.1, left)

theorem takeElement_eq_ok {state next : Record × List (Field Record)} {item : Json} :
    takeElement state item = .ok next ↔
      ∃ field left change, state.2 = field :: left ∧ field.update.ofJson item = .ok change ∧
        next = (change state.1, left) := by
  obtain ⟨record, fields⟩ := state
  unfold takeElement
  cases fields with
  | nil => exact ⟨nofun, nofun⟩
  | cons field left =>
    simp only
    rw [Traversal.bind_eq_ok]
    constructor
    · rintro ⟨change, decoded, same⟩
      cases same
      exact ⟨field, left, change, rfl, decoded, rfl⟩
    · rintro ⟨_, _, change, same, decoded, rfl⟩
      cases same
      exact ⟨change, decoded, rfl⟩

/-- Taking an element straight from text is reading it and taking it. -/
theorem follows_readElement (depth : Nat) :
    Follows (fun state : Record × List (Field Record) => ∀ field ∈ state.2, field.update.Streams)
      (readElement depth) (Json.read depth) takeElement := by
  constructor
  · rintro ⟨record, fields⟩ streams text next rest
    cases fields with
    | nil => exact ⟨nofun, fun ⟨_, _, taken⟩ => by cases taken⟩
    | cons field left =>
      have fieldStreams : field.update.Streams := streams field List.mem_cons_self
      unfold readElement
      simp only
      rw [Traversal.bind_eq_ok]
      constructor
      · rintro ⟨⟨change, after⟩, changeRead, same⟩
        cases same
        obtain ⟨document, documentRead, decoded⟩ := fieldStreams.mp changeRead
        exact ⟨document, documentRead,
          takeElement_eq_ok.mpr ⟨field, left, change, rfl, decoded, rfl⟩⟩
      · rintro ⟨document, documentRead, taken⟩
        obtain ⟨_, _, change, same, decoded, rfl⟩ := takeElement_eq_ok.mp taken
        cases same
        exact ⟨(change, rest), fieldStreams.mpr ⟨document, documentRead, decoded⟩, rfl⟩
  · intro state item next streams taken
    obtain ⟨field, left, change, same, _, rfl⟩ := takeElement_eq_ok.mp taken
    exact fun other member => streams other (same ▸ List.mem_cons_of_mem _ member)

/-- Taking all elements is taking them one after another. -/
theorem takeElements_eq_ok {length : Nat} {left : List (Field Record)} {record final : Record}
    {items : List Json} :
    layout.takeElements length left record items = .ok final ↔
      ∃ state, items.foldlM takeElement (record, left) = .ok state ∧
        layout.ofElements state.2 state.1 = .ok final := by
  induction items generalizing left record with
  | nil =>
    rw [takeElements]
    constructor
    · exact fun ended => ⟨_, rfl, ended⟩
    · rintro ⟨_, same, ended⟩
      cases same
      exact ended
  | cons item items inductionHypothesis =>
    cases left with
    | nil =>
      rw [takeElements]
      exact ⟨nofun, fun ⟨_, taken, _⟩ => by cases taken⟩
    | cons field left =>
      rw [takeElements, Traversal.bind_eq_ok]
      simp only [List.foldlM_cons, Traversal.bind_eq_ok, inductionHypothesis, takeElement_eq_ok]
      constructor
      · rintro ⟨change, decoded, state, taken, ended⟩
        exact ⟨state, ⟨_, ⟨field, left, change, rfl, decoded, rfl⟩, taken⟩, ended⟩
      · rintro ⟨state, ⟨_, ⟨_, _, change, same, decoded, rfl⟩, taken⟩, ended⟩
        cases same
        exact ⟨change, decoded, state, taken, ended⟩

/-! ### Records -/

variable {depth : Nat} {text inner rest : List Char} {record : Record}

/-- A record is read from an object where members are enclosed that it accepts. -/
theorem read_object_eq_ok (streaming : layout.Streaming)
    (starts : dropBlanks text = '\x7b' :: inner) :
    layout.decoder.read (depth + 1) text = .ok (record, rest) ↔
      ∃ members, Enclosed '\x7d' (readPair (Json.read depth)) inner members rest ∧
        layout.decoder.ofJson (.object members) = .ok record := by
  simp only [decoder, starts]
  rw [Traversal.bind_eq_ok]
  constructor
  · rintro ⟨⟨⟨built, given⟩, left⟩, membersRead, read⟩
    obtain ⟨final, ended, same⟩ := Traversal.bind_eq_ok.mp read
    cases same
    obtain ⟨members, enclosed, taken⟩ :=
      enclosed_of_foldElements (follows_readMember streaming depth) trivial membersRead
    exact ⟨members, enclosed, Traversal.bind_eq_ok.mpr ⟨(built, given), taken, ended⟩⟩
  · rintro ⟨members, enclosed, decoded⟩
    obtain ⟨⟨built, given⟩, taken, ended⟩ := Traversal.bind_eq_ok.mp decoded
    refine ⟨((built, given), rest), ?_, Traversal.bind_eq_ok.mpr ⟨record, ended, rfl⟩⟩
    exact (foldElements_eq_ok (follows_readMember streaming depth) (shortens_readPair depth)
      (by decide) trivial).mpr ⟨members, enclosed, taken⟩

/-- A record is read from an array where elements are enclosed that it accepts. -/
theorem read_array_eq_ok (streaming : layout.Streaming) (starts : dropBlanks text = '[' :: inner) :
    layout.decoder.read (depth + 1) text = .ok (record, rest) ↔
      ∃ items, Enclosed ']' (Json.read depth) inner items rest ∧
        layout.decoder.ofJson (.array items) = .ok record := by
  simp only [decoder, starts]
  rw [Traversal.bind_eq_ok]
  constructor
  · rintro ⟨⟨⟨built, fields⟩, left⟩, itemsRead, read⟩
    obtain ⟨final, ended, same⟩ := Traversal.bind_eq_ok.mp read
    cases same
    obtain ⟨items, enclosed, taken⟩ :=
      enclosed_of_foldElements (follows_readElement depth) streaming.fields itemsRead
    exact ⟨items, enclosed, takeElements_eq_ok.mpr ⟨(built, fields), taken, ended⟩⟩
  · rintro ⟨items, enclosed, decoded⟩
    obtain ⟨⟨built, fields⟩, taken, ended⟩ := takeElements_eq_ok.mp decoded
    refine ⟨((built, fields), rest), ?_, Traversal.bind_eq_ok.mpr ⟨record, ended, rfl⟩⟩
    exact (foldElements_eq_ok (follows_readElement depth) (shortens_read depth) (by decide)
      streaming.fields).mpr ⟨items, enclosed, taken⟩

/-- The members that a strict record accepts have distinct names. -/
theorem distinct_of_ofJson (streaming : layout.Streaming) {members : List (String × Json)}
    (decoded : layout.decoder.ofJson (.object members) = .ok record) :
    Keyed.Distinct Prod.fst members := by
  obtain ⟨final, taken, _⟩ := Traversal.bind_eq_ok.mp decoded
  exact (names_of_foldlM streaming.strict taken).1

/-- Whatever a record is read from is a document that decodes to the record. -/
theorem exists_of_read (streaming : layout.Streaming)
    (read : layout.decoder.read depth text = .ok (record, rest)) :
    ∃ document, Json.read depth text = .ok (document, rest) ∧
      layout.decoder.ofJson document = .ok record := by
  have kept := read
  unfold decoder at read
  simp only at read
  split at read
  · cases read
  · cases read
  · rename_i less inner starts
    obtain ⟨members, enclosed, decoded⟩ := (read_object_eq_ok streaming starts).mp kept
    refine ⟨.object members, (Json.read_object_eq_ok starts).mpr ⟨members, enclosed, ?_⟩, decoded⟩
    rw [Keyed.ofList_of_distinct _ (distinct_of_ofJson streaming decoded)]
  · rename_i less inner starts
    obtain ⟨items, enclosed, decoded⟩ := (read_array_eq_ok streaming starts).mp kept
    exact ⟨.array items, (Json.read_array_eq_ok starts).mpr ⟨items, enclosed, rfl⟩, decoded⟩
  · cases read

/-- Whatever a record is read from as a whole is a document that the reader allows. -/
theorem exists_of_ofChars (streaming : layout.Streaming)
    (read : layout.decoder.ofChars text = .ok record) :
    ∃ document, document.WellFormed ∧ document.opened ≤ maxOpen ∧
      layout.decoder.ofJson document = .ok record := by
  obtain ⟨⟨value, left⟩, valueRead, finished⟩ := Traversal.bind_eq_ok.mp read
  obtain ⟨_, _, same⟩ := Traversal.bind_eq_ok.mp finished
  cases same
  obtain ⟨document, documentRead, decoded⟩ := exists_of_read streaming valueRead
  obtain ⟨wellFormed, shallow⟩ := wellFormed_of_read documentRead
  exact ⟨document, wellFormed, shallow, decoded⟩

/-! ### Fields -/

/-- A field that may be missing is read straight from text when its value is. -/
theorem streams_optional {Value : Type} {name : String} {decoder : Decoder Value}
    {encode : Value → Json} {get : Record → Option Value} {set : Option Value → Record → Record}
    (streams : decoder.Streams) : (Field.optional name decoder encode get set).update.Streams :=
  Decoder.streams_map (Decoder.streams_nullable streams) set

/-- Every field of a layout keeps a property of records when it is set from a part of a document. -/
def Keeps (layout : Layout Record) (bound : Nat) (holds : Record → Prop) : Prop :=
  ∀ field ∈ layout.fields, ∀ part change record, part.WellFormed → part.opened ≤ bound →
    field.update.ofJson part = .ok change → holds record → holds (change record)

theorem holds_of_takeMember {holds : Record → Prop} {bound : Nat} (strict : layout.strict = true)
    (keeps : layout.Keeps bound holds) {members : List (String × Json)}
    {state final : Record × List String}
    (each : ∀ member ∈ members, member.2.WellFormed ∧ member.2.opened ≤ bound)
    (initial : holds state.1) (taken : members.foldlM layout.takeMember state = .ok final) :
    holds final.1 := by
  refine @Traversal.foldlM_invariant _ _ _ (fun state => holds state.1) _ _ _ _ ?_ initial taken
  intro member inMembers state next stateHolds stepped
  obtain ⟨field, change, known, _, decoded, rfl⟩ := (takeMember_eq_ok strict).mp stepped
  obtain ⟨wellFormed, shallow⟩ := each member inMembers
  exact keeps field (Keyed.mem_of_find? known).1 member.2 change state.1 wellFormed shallow decoded
    stateHolds

theorem holds_of_takeElement {holds : Record → Prop} {bound : Nat}
    (keeps : layout.Keeps bound holds) {items : List Json}
    {state final : Record × List (Field Record)}
    (each : ∀ item ∈ items, item.WellFormed ∧ item.opened ≤ bound) (initial : holds state.1)
    (known : ∀ field ∈ state.2, field ∈ layout.fields)
    (taken : items.foldlM takeElement state = .ok final) : holds final.1 := by
  have held : holds final.1 ∧ ∀ field ∈ final.2, field ∈ layout.fields := by
    refine @Traversal.foldlM_invariant _ _ _ (fun state => holds state.1 ∧
      ∀ field ∈ state.2, field ∈ layout.fields) _ _ _ _ ?_ ⟨initial, known⟩ taken
    intro item inItems state next stateHolds stepped
    obtain ⟨field, left, change, same, decoded, rfl⟩ := takeElement_eq_ok.mp stepped
    obtain ⟨wellFormed, shallow⟩ := each item inItems
    rw [same] at stateHolds
    exact ⟨keeps field (stateHolds.2 field List.mem_cons_self) item change state.1 wellFormed
      shallow decoded stateHolds.1,
      fun other member => stateHolds.2 other (List.mem_cons_of_mem _ member)⟩
  exact held.1

/-- What holds of the initial record, and what every field keeps, holds of every record that is
decoded. Each field has a part of the document to itself. -/
theorem holds_of_ofJson (streaming : layout.Streaming) {holds : Record → Prop} {bound : Nat}
    (initial : holds layout.initial) (keeps : layout.Keeps bound holds) {document : Json}
    (wellFormed : document.WellFormed) (shallow : document.opened ≤ bound + 1)
    (decoded : layout.decoder.ofJson document = .ok record) : holds record := by
  unfold decoder at decoded
  simp only at decoded
  split at decoded
  · rename_i members
    rw [wellFormed_object] at wellFormed
    rw [opened_object_le_iff] at shallow
    obtain ⟨⟨built, given⟩, taken, ended⟩ := Traversal.bind_eq_ok.mp decoded
    have held : holds built := holds_of_takeMember streaming.strict keeps
      (fun member inMembers => ⟨wellFormed.2 member inMembers, shallow member inMembers⟩) initial
      taken
    unfold ofMembers at ended
    split at ended
    · cases ended
    · cases ended
      exact held
  · rename_i items
    rw [wellFormed_array] at wellFormed
    rw [opened_array_le_iff] at shallow
    obtain ⟨⟨built, left⟩, taken, ended⟩ := takeElements_eq_ok.mp decoded
    have held : holds built := holds_of_takeElement keeps
      (fun item inItems => ⟨wellFormed item inItems, shallow item inItems⟩) initial
      (fun _ member => member) taken
    unfold ofElements at ended
    split at ended
    · cases ended
    · cases ended
      exact held
  · cases decoded

/-- A field that may be missing keeps what it keeps when it is set to what its decoder gave, or
unset. -/
theorem keeps_optional {Value : Type} {name : String} {decoder : Decoder Value}
    {encode : Value → Json} {get : Record → Option Value} {set : Option Value → Record → Record}
    {holds : Record → Prop} {bound : Nat}
    (keeps : ∀ {part value record}, part.WellFormed → part.opened ≤ bound →
      (∀ present, value = some present → decoder.ofJson part = .ok present) → holds record →
      holds (set value record)) :
    ∀ part change record, part.WellFormed → part.opened ≤ bound →
      (Field.optional name decoder encode get set).update.ofJson part = .ok change →
      holds record → holds (change record) := by
  intro part change record wellFormed shallow read held
  obtain ⟨value, decoded, same⟩ := Traversal.bind_eq_ok.mp read
  cases same
  refine keeps wellFormed shallow ?_ held
  rintro present rfl
  rcases Decoder.ofJson_nullable.mp decoded with ⟨_, absent⟩ | ⟨_, _, decoded, same⟩
  · cases absent
  · cases same
    exact decoded

/-- What is written for some fields of a record takes one record to another when it is read. -/
inductive Rewrites (record : Record) : List (Field Record) → Record → Record → Prop
  | done {built : Record} : Rewrites record [] built built
  | unset {field : Field Record} {fields : List (Field Record)} {built final : Record}
      (nothing : field.encode record = none) (others : Rewrites record fields built final) :
      Rewrites record (field :: fields) built final
  | set {field : Field Record} {fields : List (Field Record)} {built final : Record} {value : Json}
      {change : Record → Record} (written : field.encode record = some value)
      (decoded : field.update.ofJson value = .ok change)
      (others : Rewrites record fields (change built) final) :
      Rewrites record (field :: fields) built final

/-- The members that are written for some fields. -/
def membersOf (record : Record) (fields : List (Field Record)) : List (String × Json) :=
  fields.filterMap fun field => (field.encode record).map fun value => (field.name, value)

theorem foldlM_membersOf (distinct : Keyed.Distinct Field.name layout.fields)
    {fields : List (Field Record)} {built final : Record} {given : List String}
    (rewrites : Rewrites record fields built final)
    (known : ∀ field ∈ fields, field ∈ layout.fields)
    (apart : Keyed.Distinct Field.name fields) (new : ∀ field ∈ fields, field.name ∉ given) :
    ∃ names, (membersOf record fields).foldlM layout.takeMember (built, given) =
      .ok (final, names) := by
  induction rewrites generalizing given with
  | done => exact ⟨given, rfl⟩
  | @unset field fields built final nothing others inductionHypothesis =>
    rw [membersOf, List.filterMap_cons, nothing]
    exact inductionHypothesis (fun other member => known other (List.mem_cons_of_mem _ member))
      (List.nodup_cons.mp apart).2 fun other member => new other (List.mem_cons_of_mem _ member)
  | @set field fields built final value change written decoded others inductionHypothesis =>
    have found := Keyed.find?_of_mem distinct (known field List.mem_cons_self)
    have taken : layout.takeMember (built, given) (field.name, value) =
        .ok (change built, field.name :: given) :=
      takeMember_of_known found (new field List.mem_cons_self) decoded
    have stillNew : ∀ other ∈ fields, other.name ∉ field.name :: given := by
      intro other member held
      rcases List.mem_cons.mp held with same | before
      · exact (List.nodup_cons.mp apart).1 (same ▸ List.mem_map_of_mem member)
      · exact new other (List.mem_cons_of_mem _ member) before
    obtain ⟨names, rest⟩ := inductionHypothesis
      (fun other member => known other (List.mem_cons_of_mem _ member))
      (List.nodup_cons.mp apart).2 stillNew
    refine ⟨names, ?_⟩
    rw [membersOf, List.filterMap_cons, written]
    simp only [Option.map_some]
    rw [List.foldlM_cons, taken]
    exact rest

/-- Nothing is missing from a record without required fields. -/
theorem ofMembers_of_free (free : ∀ field ∈ layout.fields, field.required = false)
    {names : List String} : layout.ofMembers names record = .ok record := by
  have nothingMissing : layout.fields.find?
      (fun field => field.required && !names.contains field.name) = none := by
    rw [List.find?_eq_none]
    intro field member
    rw [free field member]
    exact Bool.false_ne_true
  unfold ofMembers
  rw [nothingMissing]

/-- A record without required fields is read back as what its written fields amount to. -/
theorem ofJson_encode (distinct : Keyed.Distinct Field.name layout.fields)
    (free : ∀ field ∈ layout.fields, field.required = false) {final : Record}
    (rewrites : Rewrites record layout.fields layout.initial final) :
    layout.decoder.ofJson (layout.encode record) = .ok final := by
  have new : ∀ field ∈ layout.fields, field.name ∉ [] := fun _ _ => nofun
  obtain ⟨names, taken⟩ :=
    foldlM_membersOf distinct rewrites (fun _ member => member) distinct new
  exact Traversal.bind_eq_ok.mpr ⟨(final, names), taken, ofMembers_of_free free⟩

/-- A field that may be missing is read back as what its decoder makes of the written value. -/
theorem Rewrites.optional {Value : Type} {name : String} {decoder : Decoder Value}
    {encode : Value → Json} {get : Record → Option Value} {set : Option Value → Record → Record}
    {settle : Value → Value} {fields : List (Field Record)} {built final : Record}
    (back : ∀ value, get record = some value →
      encode value ≠ .null ∧ decoder.ofJson (encode value) = .ok (settle value))
    (absent : set none built = built)
    (others : Rewrites record fields (set ((get record).map settle) built) final) :
    Rewrites record (.optional name decoder encode get set :: fields) built final := by
  cases given : get record with
  | none =>
    rw [given, Option.map_none, absent] at others
    refine .unset ?_ others
    show (get record).map encode = none
    rw [given, Option.map_none]
  | some value =>
    obtain ⟨present, decoded⟩ := back value given
    rw [given] at others
    have written : (get record).map encode = some (encode value) := by
      rw [given, Option.map_some]
    refine .set written ?_ others
    · exact Traversal.bind_eq_ok.mpr ⟨some (settle value),
        Decoder.ofJson_nullable.mpr (.inr ⟨present, settle value, decoded, rfl⟩), rfl⟩

/-- What is written for the optional fields of a record is written for what they are set to. -/
theorem forall_membersOf (holds : Json → Prop) {fields : List (Field Record)} :
    (∀ member ∈ membersOf record fields, holds member.2) ↔
      ∀ field ∈ fields, ∀ value, field.encode record = some value → holds value := by
  constructor
  · intro each field member value written
    exact each (field.name, value)
      (List.mem_filterMap.mpr ⟨field, member, by rw [written, Option.map_some]⟩)
  · intro each member held
    obtain ⟨field, inFields, written⟩ := List.mem_filterMap.mp held
    obtain ⟨value, encoded, rfl⟩ := Option.map_eq_some_iff.mp written
    exact each field inFields value encoded

theorem encode_congr {first second : Record}
    (same : ∀ field ∈ layout.fields, field.encode first = field.encode second) :
    layout.encode first = layout.encode second :=
  congrArg Json.object (List.filterMap_congr fun field member => by rw [same field member])

theorem forall_encode_optional {Value : Type} {name : String} {decoder : Decoder Value}
    {encode : Value → Json} {get : Record → Option Value} {set : Option Value → Record → Record}
    {holds : Json → Prop} :
    (∀ value, (Field.optional name decoder encode get set).encode record = some value →
        holds value) ↔ ∀ present, get record = some present → holds (encode present) := by
  show (∀ value, (get record).map encode = some value → holds value) ↔ _
  cases get record with
  | none => exact ⟨fun _ => nofun, fun _ => nofun⟩
  | some present => simp only [Option.map_some, Option.some.injEq, forall_eq']

end Layout

end Json

end ListQuery
