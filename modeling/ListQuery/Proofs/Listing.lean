/-
This file proves that a listing takes from a body what it knows and nothing else. A
body may gain members with names that a listing does not have, and its pagination
may gain members with names that a pagination does not have: it is read as the same
listing as before, or refused as before. Only what has no name at all is not passed
over: a member whose name holds half a surrogate pair is refused. And a listing is
read back from its own text, with what it lacks and what is merely empty kept apart.
-/

import ListQuery.Listing
import ListQuery.Proofs.Json.Lenient
import ListQuery.Proofs.Query.Parts

namespace ListQuery

/-! ### Layouts -/

theorem Json.Decoder.streams_any : Json.Decoder.any.Streams :=
  fun {_ _ value _} => ⟨fun read => ⟨value, read, rfl⟩, fun ⟨_, read, same⟩ => by
    cases same
    exact read⟩

namespace Pagination

theorem streams_fields : ∀ field ∈ layout.fields, field.update.Streams := by
  have count := fun {name get set} =>
    @Json.Layout.streams_optional Pagination Count name Count.decoder Count.toJson get set
      Count.streams_decoder
  simp only [layout, List.forall_mem_cons, List.not_mem_nil, false_implies, implies_true, and_true]
  exact ⟨count, count, count, count, count⟩

theorem certain_decoder (depth : Nat) : Json.Certain (layout.decoder.read depth) :=
  Json.Layout.certain_of_streams rfl streams_fields depth

theorem lenient_layout (depth : Nat) : layout.Lenient depth :=
  Json.Layout.lenient_of_streams rfl streams_fields depth

theorem distinct_layout : Keyed.Distinct Json.Field.name layout.fields :=
  show ["skip", "limit", "count", "pageCount", "currentPage"].Nodup by decide

end Pagination

namespace Listing

/-- The layout of listings whose rows are any documents. -/
abbrev rowsLayout : Json.Layout (Listing Json) :=
  layout .any id

theorem lenient_layout (depth : Nat) : rowsLayout.Lenient depth := by
  refine ⟨rfl, ?_⟩
  simp only [rowsLayout, layout, List.forall_mem_cons, List.not_mem_nil, false_implies,
    implies_true, and_true]
  constructor
  · exact Json.Decoder.certain_of_streams
      (Json.Layout.streams_optional (Json.Decoder.streams_list Json.Decoder.streams_any)) depth
  · exact Json.Decoder.certain_map
      (Json.Decoder.certain_nullable (Pagination.certain_decoder depth)) _

theorem distinct_layout : Keyed.Distinct Json.Field.name rowsLayout.fields :=
  show ["payload", "pagination"].Nodup by decide

end Listing

/-! ### Bodies that grow -/

namespace Json

/-- Two members are the same up to the blanks in them. -/
structure Member.Same (old new : Member) : Prop where
  name : old.name.core = new.name.core
  value : old.value.core = new.value.core

/-- Two members are the same, and nothing was added to what they hold. -/
def Member.Unchanged (old new : Member) (added : List Member) : Prop :=
  Member.Same old new ∧ added = []

theorem Member.Same.isValid {old new : Member} (same : Member.Same old new)
    (isValid : old.IsValid) : new.IsValid :=
  ⟨same.name ▸ isValid.name, same.value ▸ isValid.value⟩

theorem Layout.takes_same {Record : Type} {layout : Layout Record} {depth : Nat} {old new : Member}
    (certain : layout.Lenient depth) (isValid : old.IsValid) (same : Member.Same old new)
    (entry : Option (String × (Record → Record))) :
    Takes (layout.readEntry depth) old.core entry ↔
      Takes (layout.readEntry depth) new.core entry := by
  rw [takes_readEntry certain isValid, takes_readEntry certain (same.isValid isValid), same.name,
    same.value]

/-- A member that is unchanged gives what it gave. -/
theorem Layout.takes_unchanged {Record : Type} {layout : Layout Record} {depth : Nat}
    {old new : Member} {added : List Member} (certain : layout.Lenient depth)
    (isValid : old.IsValid) (unchanged : Member.Unchanged old new added)
    (entry : Option (String × (Record → Record))) :
    Takes (layout.readEntry depth) new.core entry ↔
      Takes (layout.readEntry depth) old.core entry ∧ ∀ member ∈ added, member.IsNamed := by
  obtain ⟨same, rfl⟩ := unchanged
  rw [takes_same certain isValid same, and_iff_left (List.forall_mem_nil _)]

/-- A literal that stands for some name stands for no other one. -/
theorem not_names_of_names {literal : List Char} {name : String} {declared : List String}
    (names : Names literal name) (unknown : name ∉ declared) :
    ∀ other ∈ declared, ¬Names literal other :=
  fun _ known others => unknown (names_unique names others ▸ known)

/-- A text holds an object with some members, with any blanks before, in and behind it. -/
def HoldsObject (text : String) (members : List Member) : Prop :=
  ∃ lead padding trail, Blank lead ∧ Blank padding ∧ Blank trail ∧
    text.toList = lead ++ (objectText padding members ++ trail)

end Json

namespace Listing

open Json

/-- A member of a body before and after it was given more to hold, together with what was added. It
stays the same, or it is the pagination, and members were added to the object there that stand for
none of the names that a pagination has. -/
inductive Alike : Member → Member → List Member → Prop
  | same {old new : Member} (same : Member.Same old new) : Alike old new []
  | pagination {old new : Member} {padding otherPadding : List Char}
      {olds news added : List Member} (names : Names old.name.core "pagination")
      (sameName : old.name.core = new.name.core)
      (blank : Blank padding) (oldValue : old.value.core = objectText padding olds)
      (valid : ∀ member ∈ olds, member.IsValid)
      (otherBlank : Blank otherPadding) (newValue : new.value.core = objectText otherPadding news)
      (grown : Layout.Grown ["skip", "limit", "count", "pageCount", "currentPage"] Member.Unchanged
        olds news added) : Alike old new added

theorem Alike.isValid {old new : Member} {added : List Member} (alike : Alike old new added)
    (isValid : old.IsValid) : new.IsValid := by
  cases alike with
  | same same => exact same.isValid isValid
  | pagination names sameName blank oldValue valid otherBlank newValue grown =>
    have newValid := grown.valid (fun _ _ _ unchanged => unchanged.1.isValid) valid
    refine ⟨sameName ▸ isValid.name, newValue ▸ .object otherBlank ?_ ?_⟩
    · exact fun member held => (newValid member held).name
    · exact fun member held => (newValid member held).value

/-- A pagination is taken off an object that has grown as it was before, if what was added stands
for names. -/
theorem takes_pagination {padding otherPadding : List Char} {olds news added : List Member}
    {depth : Nat} (blank : Blank padding) (valid : ∀ member ∈ olds, member.IsValid)
    (otherBlank : Blank otherPadding)
    (grown : Layout.Grown ["skip", "limit", "count", "pageCount", "currentPage"] Member.Unchanged
      olds news added) (pagination : Pagination) :
    Takes (Pagination.layout.decoder.read (depth + 1)) (objectText otherPadding news) pagination ↔
      Takes (Pagination.layout.decoder.read (depth + 1)) (objectText padding olds) pagination ∧
        ∀ member ∈ added, member.IsNamed :=
  Layout.takes_grown (Pagination.lenient_layout depth) grown valid blank otherBlank
    (fun _ _ _ unchanged => unchanged.1.isValid) fun old held _ _ unchanged =>
      Layout.takes_unchanged (Pagination.lenient_layout depth) (valid old held) unchanged

/-- A member of a body gives to a listing what it gave before, if what was added stands for
names. -/
theorem takes_alike {old new : Member} {added : List Member} {depth : Nat}
    (alike : Alike old new added) (isValid : old.IsValid)
    (entry : Option (String × (Listing Json → Listing Json))) :
    Takes (rowsLayout.readEntry (depth + 1)) new.core entry ↔
      Takes (rowsLayout.readEntry (depth + 1)) old.core entry ∧
        ∀ member ∈ added, member.IsNamed := by
  have newValid := alike.isValid isValid
  cases alike with
  | same same => exact Layout.takes_unchanged (lenient_layout _) isValid ⟨same, rfl⟩ entry
  | @pagination padding otherPadding olds news _ names sameName blank oldValue valid otherBlank
      newValue grown =>
    have oldIsValue := isValid.value
    have newIsValue := newValid.value
    rw [oldValue] at oldIsValue
    rw [newValue] at newIsValue
    rw [Layout.takes_known (lenient_layout _) isValid names rfl,
      Layout.takes_known (lenient_layout _) newValid (sameName ▸ names) rfl, oldValue, newValue,
      ← exists_and_right]
    refine exists_congr fun change => ?_
    rw [and_right_comm]
    exact and_congr_left fun _ => Decoder.takes_optional_congr (Pagination.certain_decoder _)
      oldIsValue nofun newIsValue nofun (takes_pagination blank valid otherBlank grown)

/-- The listing that a body holds is taken off the object in it. -/
theorem ofText_object {text : String} {members : List Member} (held : HoldsObject text members)
    (valid : ∀ member ∈ members, member.IsValid) :
    ∃ padding, Blank padding ∧ ∀ listing, decoder.ofText text = .ok listing ↔
      Takes (rowsLayout.decoder.read maxOpen) (objectText padding members) listing := by
  obtain ⟨lead, padding, trail, leadBlank, blank, trailBlank, parts⟩ := held
  have skipsBlanks : SkipsBlanks (rowsLayout.decoder.read maxOpen) :=
    skipsBlanks_of_dropBlanks fun text => by simp only [Layout.decoder, dropBlanks_dropBlanks]
  exact ⟨padding, blank, fun _ => Decoder.ofText_eq_ok skipsBlanks
    (Layout.decides_objectText (lenient_layout 126) blank valid) leadBlank trailBlank parts⟩

/-- A body that has grown is read as the same listing as before, or as none, as before. What was
added has to stand for names, or else it is refused. -/
theorem ofText_grown {text other : String} {olds news added : List Member}
    (held : HoldsObject text olds) (valid : ∀ member ∈ olds, member.IsValid)
    (otherHeld : HoldsObject other news)
    (grown : Layout.Grown ["payload", "pagination"] Alike olds news added)
    (listing : Listing Json) :
    decoder.ofText other = .ok listing ↔
      decoder.ofText text = .ok listing ∧ ∀ member ∈ added, member.IsNamed := by
  have validAlike := fun old new inside => @Alike.isValid old new inside
  obtain ⟨padding, blank, read⟩ := ofText_object held valid
  obtain ⟨otherPadding, otherBlank, otherRead⟩ :=
    ofText_object otherHeld (grown.valid validAlike valid)
  rw [read, otherRead]
  exact Layout.takes_grown (lenient_layout 126) grown valid blank otherBlank validAlike
    fun old isOld _ _ alike => takes_alike alike (valid old isOld)

end Listing

/-! ### Reading back -/

namespace Pagination

/-- A pagination is read back from its document. -/
theorem ofJson_toJson (pagination : Pagination) :
    layout.decoder.ofJson (layout.encode pagination) = .ok pagination := by
  have rewrites : Json.Layout.Rewrites pagination layout.fields layout.initial
      { skip := pagination.skip.map fun count => count
        limit := pagination.limit.map fun count => count
        count := pagination.count.map fun count => count
        pageCount := pagination.pageCount.map fun count => count
        currentPage := pagination.currentPage.map fun count => count } := by
    refine .optional (fun count _ => ⟨nofun, Count.ofJson_toJson count⟩) rfl ?_
    refine .optional (fun count _ => ⟨nofun, Count.ofJson_toJson count⟩) rfl ?_
    refine .optional (fun count _ => ⟨nofun, Count.ofJson_toJson count⟩) rfl ?_
    refine .optional (fun count _ => ⟨nofun, Count.ofJson_toJson count⟩) rfl ?_
    exact .optional (fun count _ => ⟨nofun, Count.ofJson_toJson count⟩) rfl .done
  simp only [Option.map_id'] at rewrites
  exact Json.Layout.ofJson_encode distinct_layout (by decide) rewrites

/-- What is written for the fields of a pagination is read back. -/
theorem readsBack_fields (pagination : Pagination) (depth : Nat) :
    ∀ field ∈ layout.fields, ∀ value, field.encode pagination = some value →
      Json.ReadsBack (Json.read depth) Json.write value := by
  have count : ∀ {get : Pagination → Option Count} (count : Count), get pagination = some count →
      Json.ReadsBack (Json.read depth) Json.write count.toJson :=
    fun _ _ => Json.readsBack_number (Number.readsBack_integer _ _) depth
  simp only [layout, List.forall_mem_cons, List.not_mem_nil, false_implies, implies_true, and_true,
    Json.Layout.forall_encode_optional]
  exact ⟨count, count, count, count, count⟩

/-- A pagination is taken off its text. -/
theorem takes_write (pagination : Pagination) (depth : Nat) :
    Json.Takes (layout.decoder.read (depth + 1)) (layout.encode pagination).write pagination :=
  Json.Layout.takes_encode (lenient_layout depth) distinct_layout
    (fun field inFields value written _ decoded =>
      Json.Decoder.takes_of_streams (streams_fields field inFields)
        (readsBack_fields pagination depth field inFields value written) decoded)
    (ofJson_toJson pagination)

end Pagination

namespace Listing

open Json

/-- Rows are read back from the array of them. -/
theorem ofJson_rows (rows : List Json) :
    (Decoder.list .any).ofJson (.array (rows.map id)) = .ok rows := by
  rw [List.map_id]
  have same : rows.mapM (Decoder.any).ofJson = .ok (rows.map id) :=
    Traversal.mapM_eq_ok_map fun _ _ => rfl
  rw [List.map_id] at same
  exact same

/-- A listing is read back from its document. -/
theorem ofJson_toJson (listing : Listing Json) :
    decoder.ofJson listing.toJson = .ok listing := by
  have rewrites : Layout.Rewrites listing rowsLayout.fields rowsLayout.initial
      { payload := listing.payload.map fun rows => rows
        pagination := listing.pagination.map fun pagination => pagination } := by
    refine .optional (fun rows _ => ⟨nofun, ofJson_rows rows⟩) rfl ?_
    exact .optional (fun pagination _ => ⟨nofun, pagination.ofJson_toJson⟩) rfl .done
  simp only [Option.map_id'] at rewrites
  exact Layout.ofJson_encode distinct_layout (by decide) rewrites

/-- A listing is read back from its text. Its rows have to be documents that are not too deep, with
numbers that are read back. -/
theorem ofText_text {listing : Listing Json}
    (wellFormed : ∀ rows, listing.payload = some rows → ∀ row ∈ rows, row.WellFormed)
    (numbers : ∀ number ∈ listing.toJson.numbers, number.ReadsBack)
    (shallow : listing.toJson.opened ≤ maxOpen) :
    decoder.ofText listing.toJson.text = .ok listing := by
  have toJson_eq : listing.toJson = .object (Layout.membersOf listing rowsLayout.fields) := rfl
  have eachNumber : ∀ member ∈ Layout.membersOf listing rowsLayout.fields,
      ∀ number ∈ member.2.numbers, number.ReadsBack := fun member held number inside =>
    numbers number (toJson_eq ▸ mem_numbers_object.mpr ⟨member, held, inside⟩)
  rw [toJson_eq, maxOpen, opened_object_le_iff] at shallow
  rw [Layout.forall_membersOf fun part => part.opened ≤ 126] at shallow
  rw [Layout.forall_membersOf fun part => ∀ number ∈ part.numbers, number.ReadsBack] at eachNumber
  simp only [rowsLayout, layout, List.forall_mem_cons, Layout.forall_encode_optional]
    at shallow eachNumber
  have takes : Takes (decoder.read maxOpen) listing.toJson.write listing := by
    refine Layout.takes_encode (lenient_layout 126) distinct_layout ?_ (ofJson_toJson listing)
    simp only [rowsLayout, layout, List.forall_mem_cons, List.not_mem_nil, false_implies,
      implies_true, and_true, Layout.forall_encode_optional]
    constructor
    · intro rows given change decoded
      have rowsWellFormed : (Json.array (rows.map id)).WellFormed := by
        rw [wellFormed_array, List.map_id]
        exact wellFormed rows given
      exact Decoder.takes_of_streams
        (Layout.streams_optional (Decoder.streams_list Decoder.streams_any))
        (readsBack_write rowsWellFormed (eachNumber.1 rows given) (shallow.1 rows given)) decoded
    · intro pagination _ change decoded
      have starts : Starts (Pagination.layout.encode pagination).write :=
        starts_cons (by decide) (by decide) (by decide) _
      have present : Pagination.layout.encode pagination ≠ .null := nofun
      exact Decoder.takes_read_back present pagination.ofJson_toJson decoded starts nofun
        (pagination.takes_write 125)
  have read := takes [] Text.stops_nil
  rw [List.append_nil] at read
  rw [Decoder.ofText, Decoder.ofChars, Json.text, String.toList_ofList]
  exact Traversal.bind_eq_ok.mpr ⟨_, read, rfl⟩

/-! ### Bodies without rows -/

/-- Whether a character stands in a string as it is. -/
def isRaw (char : Char) : Bool :=
  0x20 ≤ char.toNat && char != '"' && char != '\\'

/-- A member without blanks, with a name that needs no escapes. -/
def plain (name : String) (value : List Char) : Member where
  name := .bare ('"' :: (name.toList ++ ['"']))
  value := .bare value

theorem plain_isValid {name : String} {value : List Char} (raw : name.toList.all isRaw = true)
    (isValue : IsValue value) : (plain name value).IsValid := by
  have pieces : IsQuoted ('"' :: ((name.toList.map fun char => [char]).flatten ++ ['"'])) := by
    refine .of fun piece member => ?_
    obtain ⟨char, inName, rfl⟩ := List.mem_map.mp member
    have alone := List.all_eq_true.mp raw char inName
    simp only [isRaw, Bool.and_eq_true_iff, decide_eq_true_iff, bne_iff_ne] at alone
    obtain ⟨⟨printable, noQuote⟩, noEscape⟩ := alone
    exact .raw printable noQuote noEscape
  rw [← List.flatMap_def, List.flatMap_singleton'] at pieces
  exact ⟨pieces, isValue⟩

/-- A number that no double holds. -/
def overflow : Member :=
  plain "more" ['1', 'e', '9', '9', '9']

/-- Half a surrogate pair, in quotes. -/
def loneHalf : List Char :=
  ['"', '\\', 'u', 'd', '8', '0', '0', '"']

/-- A member whose value is half a surrogate pair. -/
def half : Member :=
  plain "half" loneHalf

/-- A member whose name is half a surrogate pair. -/
def stray : Member where
  name := .bare loneHalf
  value := .bare ['1']

/-- The members of a body without rows, given those of its pagination. -/
def bodyMembers (members : List Member) : List Member :=
  [plain "payload" ['[', ']'], plain "pagination" (objectText [] members)]

theorem isWhole_one : IsWhole ['1'] :=
  ⟨⟨List.cons_ne_nil _ _, List.all_eq_true.mp (by decide)⟩, by decide⟩

theorem overflow_isValid : overflow.IsValid := by
  have exponent : IsExponent ('e' :: ([] ++ ['9', '9', '9'])) :=
    .digits (.inl rfl) (.inl rfl) ⟨List.cons_ne_nil _ _, List.all_eq_true.mp (by decide)⟩
  exact plain_isValid (by decide) (.number (.of (.inl rfl) isWhole_one .none exponent))

theorem isQuoted_loneHalf : IsQuoted loneHalf := by
  have digits : ∀ digit ∈ ['d', '8', '0', '0'], digit ∈ hexDigits := by
    simp only [List.forall_mem_cons, List.not_mem_nil, false_implies, implies_true, and_true]
    decide
  have quoted : IsQuoted ('"' :: ([['\\', 'u', 'd', '8', '0', '0']].flatten ++ ['"'])) :=
    .of (List.forall_mem_singleton.mpr (.hex digits))
  exact quoted

theorem half_isValid : half.IsValid :=
  plain_isValid (by decide) (.string isQuoted_loneHalf)

theorem stray_isValid : stray.IsValid :=
  ⟨isQuoted_loneHalf, .number (.of (.inl rfl) isWhole_one .none .none)⟩

/-- Half a surrogate pair stands for no name. -/
theorem not_names_stray (name : String) : ¬Names stray.name.core name := by
  intro named
  have refused : readName stray.name.core = .error .malformed := rfl
  cases refused.symm.trans named

theorem bodyMembers_isValid : ∀ member ∈ bodyMembers [], member.IsValid := by
  refine List.forall_mem_cons.mpr ⟨?_, List.forall_mem_singleton.mpr ?_⟩
  · exact plain_isValid (by decide) (.array blank_nil (List.forall_mem_nil _))
  · exact plain_isValid (by decide)
      (.object blank_nil (List.forall_mem_nil _) (List.forall_mem_nil _))

/-! ### What a listing knows -/

/-- A listing is all that its body says about the members it knows. Whatever else a body is given to
hold, next to its members or in its pagination, the same listing is read from it, or none if none
was before; only members without a name are not passed over, so none is read if one was added. And
every listing is read back from its text. -/
theorem ofText_known_only :
    (∀ {text other : String} {olds news added : List Member}, HoldsObject text olds →
      (∀ member ∈ olds, member.IsValid) → HoldsObject other news →
      Layout.Grown ["payload", "pagination"] Alike olds news added →
      ∀ listing, decoder.ofText other = .ok listing ↔
        decoder.ofText text = .ok listing ∧ ∀ member ∈ added, member.IsNamed) ∧
    ∀ listing : Listing Json,
      (∀ rows, listing.payload = some rows → ∀ row ∈ rows, row.WellFormed) →
      (∀ number ∈ listing.toJson.numbers, number.ReadsBack) →
      listing.toJson.opened ≤ maxOpen →
      decoder.ofText listing.toJson.text = .ok listing :=
  ⟨ofText_grown, fun _ => ofText_text⟩

/-- A body may gain a number that no double holds, next to its members, and half a surrogate pair,
in its pagination. It may not gain half a surrogate pair for the name of a member, there either. A
payload without rows and no payload are kept apart. -/
theorem ofText_known_only_overflow :
    decoder.ofText
          "\x7b\"more\":1e999,\"payload\":[],\"pagination\":\x7b\"half\":\"\\ud800\"\x7d\x7d" =
        .ok { payload := some [], pagination := some {} } ∧
      (∀ listing,
        decoder.ofText "\x7b\"payload\":[],\"pagination\":\x7b\"\\ud800\":1\x7d\x7d" ≠
          .ok listing) ∧
      decoder.ofText (toJson { payload := some [] }).text = .ok { payload := some [] } ∧
      decoder.ofText (toJson {}).text = .ok {} := by
  have held : HoldsObject "\x7b\"payload\":[],\"pagination\":\x7b\x7d\x7d" (bodyMembers []) :=
    ⟨[], [], [], blank_nil, blank_nil, blank_nil, rfl⟩
  have overflowHeld : HoldsObject
      "\x7b\"more\":1e999,\"payload\":[],\"pagination\":\x7b\"half\":\"\\ud800\"\x7d\x7d"
      (overflow :: bodyMembers [half]) :=
    ⟨[], [], [], blank_nil, blank_nil, blank_nil, rfl⟩
  have strayHeld : HoldsObject "\x7b\"payload\":[],\"pagination\":\x7b\"\\ud800\":1\x7d\x7d"
      (bodyMembers [stray]) :=
    ⟨[], [], [], blank_nil, blank_nil, blank_nil, rfl⟩
  have overflowNamed : Names overflow.name.core "more" := rfl
  have halfNamed : Names half.name.core "half" := rfl
  have alikeHalf : Alike (plain "pagination" (objectText [] []))
      (plain "pagination" (objectText [] [half])) [half] :=
    .pagination rfl rfl blank_nil rfl (List.forall_mem_nil _) blank_nil rfl
      (.added (not_names_of_names halfNamed (by decide)) half_isValid .done)
  have alikeStray : Alike (plain "pagination" (objectText [] []))
      (plain "pagination" (objectText [] [stray])) [stray] :=
    .pagination rfl rfl blank_nil rfl (List.forall_mem_nil _) blank_nil rfl
      (.added (fun name _ => not_names_stray name) stray_isValid .done)
  have grownHalf : Layout.Grown ["payload", "pagination"] Alike (bodyMembers [])
      (overflow :: bodyMembers [half]) [overflow, half] :=
    .added (not_names_of_names overflowNamed (by decide)) overflow_isValid
      (.kept (.same ⟨rfl, rfl⟩) (.kept alikeHalf .done))
  have grownStray : Layout.Grown ["payload", "pagination"] Alike (bodyMembers [])
      (bodyMembers [stray]) [stray] :=
    .kept (.same ⟨rfl, rfl⟩) (.kept alikeStray .done)
  have named : ∀ member ∈ [overflow, half], member.IsNamed :=
    List.forall_mem_cons.mpr ⟨⟨_, overflowNamed⟩, List.forall_mem_singleton.mpr ⟨_, halfNamed⟩⟩
  have noRows : ∀ rows : List Json, some [] = some rows → ∀ row ∈ rows, row.WellFormed := by
    rintro _ ⟨⟩
    exact List.forall_mem_nil _
  refine ⟨(ofText_known_only.1 held bodyMembers_isValid overflowHeld grownHalf _).mpr ⟨rfl, named⟩,
    ?_, ofText_known_only.2 _ noRows (List.forall_mem_nil _) (by decide),
    ofText_known_only.2 _ nofun (List.forall_mem_nil _) (by decide)⟩
  intro listing read
  obtain ⟨_, strayNamed⟩ :=
    (ofText_known_only.1 held bodyMembers_isValid strayHeld grownStray listing).mp read
  obtain ⟨name, names⟩ := strayNamed stray List.mem_cons_self
  exact not_names_stray name names

/-- A body that gains a member without a name is refused, where it was read before. -/
theorem ofText_stray :
    HoldsObject "\x7b\x7d" [] ∧ HoldsObject "\x7b\"\\ud800\":1\x7d" [stray] ∧
      Layout.Grown ["payload", "pagination"] Alike [] [stray] [stray] ∧
      decoder.ofText "\x7b\x7d" = .ok {} ∧
      decoder.ofText "\x7b\"\\ud800\":1\x7d" = .error .malformed :=
  ⟨⟨[], [], [], blank_nil, blank_nil, blank_nil, rfl⟩,
    ⟨[], [], [], blank_nil, blank_nil, blank_nil, rfl⟩,
    .added (fun name _ => not_names_stray name) stray_isValid .done, rfl, rfl⟩

end Listing

end ListQuery
