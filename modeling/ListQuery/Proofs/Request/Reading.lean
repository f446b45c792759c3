/-
This file proves how requests are read. A request is read straight from text exactly
as it is read out of the document that the text holds, unless the text names a field
twice, and the same holds of the queries inside relations, which are read in both
ways. Whatever document a request was read from, whether an object or an array, and
with parts that are null or left out, the request is read again, the same in every
part, from the one document that is written for it.
-/

import ListQuery.Request
import ListQuery.Proofs.Json.Names
import ListQuery.Proofs.Relation.Reading

namespace ListQuery

namespace Request

variable {request : Request}

/-! ### Straight from text -/

theorem streaming_layout : layout.Streaming := by
  refine ⟨rfl, ?_⟩
  simp only [layout, List.forall_mem_cons, List.not_mem_nil, false_implies, implies_true, and_true]
  exact ⟨Json.Layout.streams_optional Filter.streams_decoder,
    Json.Layout.streams_optional SortOrder.streams_decoder,
    Json.Layout.streams_optional Selection.streams_decoder,
    Json.Layout.streams_optional RelationTree.streams_decoder,
    Json.Layout.streams_optional Count.streams_decoder,
    Json.Layout.streams_optional Count.streams_decoder,
    Json.Layout.streams_optional Count.streams_decoder⟩

/-- The two ways to read a request agree, and so do the two ways to read a query. Either is read
straight from a text exactly when the text is one document without repeated names of fields and the
value is what that document decodes to. -/
theorem decoders_agree (text : String) :
    (∀ request, decoder.ofText text = .ok request ↔
      ∃ document, Json.ofText text = .ok document ∧
        (∀ field ∈ layout.fields, (Json.writtenNames text.toList).count field.name ≤ 1) ∧
        decoder.ofJson document = .ok request) ∧
    ∀ query, Query.decoder.ofText text = .ok query ↔
      ∃ document, Json.ofText text = .ok document ∧
        (∀ field ∈ Query.layout.fields, (Json.writtenNames text.toList).count field.name ≤ 1) ∧
        Query.decoder.ofJson document = .ok query :=
  ⟨fun _ => Json.Layout.ofText_eq_ok_iff streaming_layout,
    fun _ => Json.Layout.ofText_eq_ok_iff Query.streaming_layout⟩

/-! ### Out of documents with few open containers -/

/-- What holds of a request that was read out of a document with at most `bound + 1` containers open
at once. -/
structure ReadWithin (bound : Nat) (request : Request) : Prop where
  filter : ∀ filter, request.filter = some filter → filter.ReadWithin bound
  sort : ∀ order, request.sort = some order → 0 < bound
  select : ∀ fields, request.select = some fields → 0 < bound
  nested : ∀ tree, request.nested = some tree → tree.ReadWithin bound

theorem keeps_readWithin (bound : Nat) : layout.Keeps bound (ReadWithin bound) := by
  unfold Json.Layout.Keeps
  simp only [layout, List.forall_mem_cons, List.not_mem_nil, false_implies, implies_true, and_true]
  refine ⟨?_, ?_, ?_, ?_, ?_, ?_, ?_⟩
  · refine Json.Layout.keeps_optional fun partWellFormed partShallow decoded held => ?_
    exact ⟨fun filter given => Filter.readWithin_of_ofJson partWellFormed partShallow
      (decoded filter given), held.sort, held.select, held.nested⟩
  · refine Json.Layout.keeps_optional fun _ partShallow decoded held => ?_
    exact ⟨held.filter, fun order given =>
      (SortOrder.opened_of_ofJson (decoded order given)).trans_le partShallow, held.select,
      held.nested⟩
  · refine Json.Layout.keeps_optional fun _ partShallow decoded held => ?_
    exact ⟨held.filter, held.sort, fun fields given =>
      (Selection.opened_of_ofJson (decoded fields given)).trans_le partShallow, held.nested⟩
  · refine Json.Layout.keeps_optional fun partWellFormed partShallow decoded held => ?_
    exact ⟨held.filter, held.sort, held.select, fun tree given =>
      RelationTree.readWithin_of_ofJson partWellFormed (partShallow.trans (Nat.le_succ bound))
        (decoded tree given)⟩
  all_goals
    exact Json.Layout.keeps_optional fun _ _ _ held =>
      ⟨held.filter, held.sort, held.select, held.nested⟩

theorem readWithin_of_ofJson {bound : Nat} {document : Json} (wellFormed : document.WellFormed)
    (shallow : document.opened ≤ bound + 1) (read : decoder.ofJson document = .ok request) :
    request.ReadWithin bound :=
  Json.Layout.holds_of_ofJson streaming_layout ⟨nofun, nofun, nofun, nofun⟩
    (keeps_readWithin bound) wellFormed shallow read

/-- What holds of a request that was read from text. -/
theorem readWithin_of_ofText {text : String} (read : decoder.ofText text = .ok request) :
    request.ReadWithin 126 := by
  obtain ⟨document, wellFormed, shallow, decoded⟩ :=
    Json.Layout.exists_of_ofChars streaming_layout read
  exact readWithin_of_ofJson wellFormed shallow decoded

/-! ### Reading again -/

theorem distinct_layout : Keyed.Distinct Json.Field.name layout.fields :=
  show ["where", "sort", "select", "nested", "limit", "skip", "page"].Nodup by decide

/-- The parts of a request that are not read back by themselves are read from what is written for
them. -/
structure Rereads (request : Request) : Prop where
  filter : ∀ filter, request.filter = some filter →
    Filter.decoder.ofJson filter.toJson = .ok filter
  nested : ∀ tree, request.nested = some tree →
    RelationTree.decoder.ofJson (RelationTree.toJson tree) = .ok tree

theorem keeps_rereads (bound : Nat) : layout.Keeps bound Rereads := by
  unfold Json.Layout.Keeps
  simp only [layout, List.forall_mem_cons, List.not_mem_nil, false_implies, implies_true, and_true]
  refine ⟨?_, ?_, ?_, ?_, ?_, ?_, ?_⟩
  · refine Json.Layout.keeps_optional fun partWellFormed _ decoded held => ?_
    exact ⟨fun filter given => (Filter.reread_of_ofJson partWellFormed (decoded filter given)).2,
      held.nested⟩
  · exact Json.Layout.keeps_optional fun _ _ _ held => ⟨held.filter, held.nested⟩
  · exact Json.Layout.keeps_optional fun _ _ _ held => ⟨held.filter, held.nested⟩
  · refine Json.Layout.keeps_optional fun partWellFormed _ decoded held => ?_
    exact ⟨held.filter, fun tree given =>
      RelationTree.reread_of_ofJson partWellFormed (decoded tree given)⟩
  all_goals
    exact Json.Layout.keeps_optional fun _ _ _ held => ⟨held.filter, held.nested⟩

theorem ofJson_toJson (rereads : request.Rereads) :
    decoder.ofJson request.toJson = .ok request := by
  have rewrites : Json.Layout.Rewrites request layout.fields layout.initial
      { filter := request.filter.map fun filter => filter
        sort := request.sort.map fun order => order
        select := request.select.map fun fields => fields
        nested := request.nested.map fun tree => tree
        limit := request.limit.map fun count => count
        skip := request.skip.map fun count => count
        page := request.page.map fun count => count } := by
    refine .optional (fun filter given => ⟨nofun, rereads.filter filter given⟩) rfl ?_
    refine .optional (fun order _ => ⟨nofun, SortOrder.ofJson_toJson order⟩) rfl ?_
    refine .optional (fun fields _ => ⟨nofun, Selection.ofJson_toJson fields⟩) rfl ?_
    refine .optional (fun tree given => ⟨nofun, rereads.nested tree given⟩) rfl ?_
    refine .optional (fun count _ => ⟨nofun, Count.ofJson_toJson count⟩) rfl ?_
    refine .optional (fun count _ => ⟨nofun, Count.ofJson_toJson count⟩) rfl ?_
    exact .optional (fun count _ => ⟨nofun, Count.ofJson_toJson count⟩) rfl .done
  simp only [Option.map_id'] at rewrites
  exact Json.Layout.ofJson_encode distinct_layout (by decide) rewrites

/-- A request survives its document. Whatever document without repeated names a request was read
from, the same request is read from the document that is written for it. -/
theorem document_reread {document : Json} (wellFormed : document.WellFormed)
    (read : decoder.ofJson document = .ok request) :
    decoder.ofJson request.toJson = .ok request :=
  ofJson_toJson (Json.Layout.holds_of_ofJson streaming_layout ⟨nofun, nofun⟩
    (keeps_rereads document.opened) wellFormed (Nat.le_succ _) read)

/-- A request in the form of an array, with a direction in the form of an object, null for one part
of the request and for one of a scope, and a query in the form of an array. -/
def listedDocument : Json :=
  .array [
    .object [
      ("age", .object [("$lt", .boolean true), ("$eq", .object [("$in", .null)])]),
      ("tag", .object [])],
    .object [("age", .object [("desc", .null)])],
    .null,
    .object [
      ("tags", .object [("nested", .null), ("query", .array [.null, .object []])]),
      ("author", .object [])]]

/-- The request that the array is read as. -/
def listed : Request where
  filter := some ((Filter.empty.field "age" (.operators
    ((OperatorSet.empty.put (.scalar .lt (.boolean true))).put
      (.scalar .eq (.object [("$in", .null)]))))).equals "tag" (.object []))
  sort := some (SortOrder.empty.put "age" .descending)
  nested := some [.refined "tags" (some { sort := some .empty }) none, .refined "author" none none]

/-- The request is written in other forms, and it is read from them again. -/
theorem document_reread_listed :
    listedDocument.WellFormed ∧ decoder.ofJson listedDocument = .ok listed ∧
      listed.toJson ≠ listedDocument ∧ decoder.ofJson listed.toJson = .ok listed := by
  have wellFormed : listedDocument.WellFormed := by
    simp [listedDocument, Json.WellFormed, Json.ItemsWellFormed, Json.MembersWellFormed,
      Keyed.Distinct]
  refine ⟨wellFormed, rfl, fun same => ?_, document_reread wellFormed rfl⟩
  cases same

end Request

end ListQuery
