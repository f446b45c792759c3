/-
This file proves that compiling a request loses nothing of it. A request that was
read from text has a settled filter and settled queries, and writing its parts
again needs no more open containers than reading them did. So every parameter is
read back as the part that it was compiled from, except that a relation whose scope
has no parts comes back without a scope.
-/

import ListQuery.Parameters
import ListQuery.Proofs.Relation.RoundTrip
import ListQuery.Proofs.Request.Reading

namespace ListQuery

/-! ### Parameters by name -/

namespace Parameters

/-- What is found among the entries that are set is what the entry of the name is set to. -/
theorem lookup_filterMap {name : String} {entries : List (String × Option String)}
    (distinct : Keyed.Distinct Prod.fst entries) :
    (entries.filterMap fun (name, value) => value.map fun text => (name, text)).lookup name =
      (entries.lookup name).join := by
  induction entries with
  | nil => rfl
  | cons entry rest inductionHypothesis =>
    obtain ⟨first, value⟩ := entry
    obtain ⟨new, others⟩ := List.nodup_cons.mp distinct
    have inRest := inductionHypothesis others
    rw [List.filterMap_cons, List.lookup_cons]
    by_cases same : name = first
    · subst same
      have absent : rest.lookup name = none := by
        refine List.lookup_eq_none_iff.mpr fun other member => bne_iff_ne.mpr fun again => ?_
        have held : other.1 ∈ rest.map Prod.fst := List.mem_map_of_mem member
        exact new (again ▸ held)
      rw [absent] at inRest
      cases value with
      | none => rwa [beq_self_eq_true]
      | some text =>
        rw [beq_self_eq_true]
        exact List.lookup_cons_self
    · rw [beq_false_of_ne same]
      cases value with
      | none => exact inRest
      | some text =>
        simp only [Option.map_some]
        rw [List.lookup_cons, beq_false_of_ne same]
        exact inRest

/-- The names of the entries that are set. -/
theorem map_fst_filterMap (entries : List (String × Option String)) :
    (entries.filterMap fun (name, value) => value.map fun text => (name, text)).map Prod.fst =
      (entries.map fun (name, value) => (name, value.isSome)).filterMap
        fun (name, isSet) => if isSet then some name else none := by
  rw [List.map_filterMap, List.filterMap_map]
  refine List.filterMap_congr fun entry _ => ?_
  obtain ⟨name, value⟩ := entry
  cases value <;> rfl

/-- All parameters by name, those that are not set included. -/
def entries (parameters : Parameters) : List (String × Option String) :=
  [("limit", parameters.limit), ("nested", parameters.nested), ("page", parameters.page),
    ("select", parameters.select), ("skip", parameters.skip), ("sort", parameters.sort),
    ("where", parameters.filter)]

/-- The entries that are set stand in the order of all. -/
theorem sublist_map_fst (entries : List (String × Option String)) :
    ((entries.filterMap fun (name, value) => value.map fun text => (name, text)).map
      Prod.fst).Sublist (entries.map Prod.fst) := by
  induction entries with
  | nil => exact .slnil
  | cons entry rest inductionHypothesis =>
    obtain ⟨name, value⟩ := entry
    cases value with
    | none => exact inductionHypothesis.cons name
    | some text => exact inductionHypothesis.cons_cons name

/-- The names of the parameters ascend, and none comes twice. -/
theorem pairs_ascending (parameters : Parameters) :
    (parameters.pairs.map Prod.fst).Pairwise (· < ·) :=
  List.Pairwise.sublist (sublist_map_fst parameters.entries)
    (show ["limit", "nested", "page", "select", "skip", "sort", "where"].Pairwise (· < ·) by decide)

theorem lookup_pairs (parameters : Parameters) (name : String) :
    parameters.pairs.lookup name = (parameters.entries.lookup name).join :=
  lookup_filterMap
    (show ["limit", "nested", "page", "select", "skip", "sort", "where"].Nodup by decide)

end Parameters

namespace Request

variable {request : Request}

/-- The names of the parts of a request that are set, in ascending order. -/
def given (request : Request) : List String :=
  [("limit", request.limit.isSome), ("nested", request.nested.isSome),
    ("page", request.page.isSome), ("select", request.select.isSome),
    ("skip", request.skip.isSome), ("sort", request.sort.isSome),
    ("where", request.filter.isSome)].filterMap fun (name, isSet) =>
      if isSet then some name else none

theorem compile_eq_ok {parameters : Parameters} :
    request.compile = .ok parameters ↔
      (∀ filter, request.filter = some filter → filter.check = .ok ()) ∧
        ∃ nested, request.nested.mapM RelationTree.toOutline = .ok nested ∧
          parameters = {
            limit := request.limit.map Count.text
            nested
            page := request.page.map Count.text
            select := request.select.map fun fields => (Selection.toJson fields).text
            skip := request.skip.map Count.text
            sort := request.sort.map fun order => order.toJson.text
            filter := request.filter.map fun filter => filter.toJson.text } := by
  unfold compile
  rw [Traversal.bind_eq_ok]
  constructor
  · rintro ⟨_, checked, rest⟩
    obtain ⟨nested, converted, same⟩ := Traversal.bind_eq_ok.mp rest
    cases same
    refine ⟨fun filter given => ?_, nested, converted, rfl⟩
    exact Traversal.mapError_eq_ok.mp (Traversal.optionForM_eq_ok.mp checked filter given)
  · rintro ⟨checked, nested, converted, rfl⟩
    refine ⟨(), Traversal.optionForM_eq_ok.mpr fun filter given => ?_,
      Traversal.bind_eq_ok.mpr ⟨nested, converted, rfl⟩⟩
    exact Traversal.mapError_eq_ok.mpr (checked filter given)

/-! ### Reading parameters back -/

/-- What holds of the numbers of a request holds of those of its parts. -/
theorem numbers_of_parts {holds : Number → Prop}
    (numbers : ∀ number ∈ request.toJson.numbers, holds number) :
    (∀ filter, request.filter = some filter → ∀ number ∈ filter.toJson.numbers, holds number) ∧
    ∀ tree, request.nested = some tree →
      ∀ number ∈ (RelationTree.toJson tree).numbers, holds number := by
  have each : ∀ member ∈ Json.Layout.membersOf request layout.fields,
      ∀ number ∈ member.2.numbers, holds number := fun member held number inside =>
    numbers number (Json.mem_numbers_object.mpr ⟨member, held, inside⟩)
  rw [Json.Layout.forall_membersOf fun value => ∀ number ∈ value.numbers, holds number] at each
  simp only [layout, List.forall_mem_cons, Json.Layout.forall_encode_optional] at each
  obtain ⟨filter, _, _, nested, _⟩ := each
  exact ⟨filter, nested⟩

/-- A filter that was read from a document is read back from its text. -/
theorem ofText_of_readWithin {filter : Filter} (held : filter.ReadWithin 126)
    (numbers : ∀ number ∈ filter.toJson.numbers, number.ReadsBack)
    (sendable : filter.check = .ok ()) : Filter.decoder.ofText filter.toJson.text = .ok filter := by
  have decoded : Filter.decoder.ofJson filter.toJson = .ok filter :=
    Traversal.mapError_eq_ok.mpr ((Filter.ofJsonWithin_toJson held.wellFormed sendable).trans
      (congrArg Except.ok held.settled))
  exact Json.Decoder.ofText_text Filter.streams_decoder
    (Filter.toJson_wellFormed held.wellFormed sendable) numbers
    (held.shallow.trans (by decide)) decoded

/-- The outline of a tree that was read from a document is parsed to that tree, without the scopes
that have no parts. -/
theorem ofOutline_of_readWithin {tree : RelationTree} {text : String}
    (held : tree.ReadWithin 126) (numbers : ∀ number ∈ tree.toJson.numbers, number.ReadsBack)
    (sent : tree.toOutline = .ok text) :
    RelationTree.ofOutline text = .ok (tree.trimmed id) := by
  have settled : tree.trimmed Query.settled = tree.trimmed id :=
    RelationTree.trimmed_congr held.wellFormed fun query inside =>
      (held.queries query inside).settled_eq
  rw [← settled]
  exact RelationTree.ofOutline_toOutline held.wellFormed
    (fun query inside number found =>
      numbers number (RelationTree.mem_numbers_toJson held.wellFormed inside found))
    (fun query inside => (held.queries query inside).opened_toJson_le) sent

/-- Compiling a request that was read from text loses nothing of it. The parameters are those of its
parts that are set, and each is read back as its part; only relations whose scope has no parts come
back without a scope. -/
theorem parameters_reread {text : String} {parameters : Parameters}
    (read : decoder.ofText text = .ok request) (compiled : request.compile = .ok parameters)
    (numbers : ∀ number ∈ request.toJson.numbers, number.ReadsBack) :
    parameters.pairs.map Prod.fst = request.given ∧
      (parameters.pairs.lookup "where").mapM Filter.decoder.ofText = .ok request.filter ∧
      (parameters.pairs.lookup "sort").mapM SortOrder.decoder.ofText = .ok request.sort ∧
      (parameters.pairs.lookup "select").mapM Selection.decoder.ofText = .ok request.select ∧
      (parameters.pairs.lookup "limit").mapM Count.decoder.ofText = .ok request.limit ∧
      (parameters.pairs.lookup "skip").mapM Count.decoder.ofText = .ok request.skip ∧
      (parameters.pairs.lookup "page").mapM Count.decoder.ofText = .ok request.page ∧
      (parameters.pairs.lookup "nested").mapM RelationTree.ofOutline =
        .ok (request.nested.map (RelationTree.trimmed id)) := by
  have held := readWithin_of_ofText read
  obtain ⟨filterNumbers, nestedNumbers⟩ := numbers_of_parts numbers
  obtain ⟨checked, nested, sent, rfl⟩ := compile_eq_ok.mp compiled
  simp only [Parameters.lookup_pairs]
  refine ⟨?_, ?_, ?_, ?_, ?_, ?_, ?_, ?_⟩
  · rw [Parameters.pairs, Parameters.map_fst_filterMap, given]
    simp only [List.map_cons, List.map_nil, Option.isSome_map, Traversal.isSome_of_optionMapM sent]
  · exact Traversal.optionMapM_map fun filter given =>
      ofText_of_readWithin (held.filter filter given) (filterNumbers filter given)
        (checked filter given)
  · exact Traversal.optionMapM_map fun order _ => SortOrder.ofText_text order
  · exact Traversal.optionMapM_map fun fields _ => Selection.ofText_text fields
  · exact Traversal.optionMapM_map fun count _ => Count.ofText_text count
  · exact Traversal.optionMapM_map fun count _ => Count.ofText_text count
  · exact Traversal.optionMapM_map fun count _ => Count.ofText_text count
  · exact Traversal.optionMapM_back sent fun tree outline given treeSent =>
      ofOutline_of_readWithin (held.nested tree given) (nestedNumbers tree given) treeSent

/-- The text of a request with a count of zero and with a relation whose scope has no parts. -/
def windowText : String :=
  "\x7b\"skip\":0,\"where\":\x7b\"age\":\x7b\"$gte\":18\x7d\x7d,\"nested\":" ++
    "\x7b\"author\":\x7b\x7d,\"tags\":\x7b\"query\":\x7b\"limit\":5\x7d\x7d\x7d\x7d"

/-- The request that the text is read as. -/
def window : Request where
  filter := some (Filter.empty.field "age"
    (.operators (OperatorSet.empty.put (.scalar .gte (.number (Number.ofWord 18))))))
  nested := some [.refined "author" none none, .refined "tags" (some { limit := some 5 }) none]
  skip := some 0

/-- The zero is sent and read back, and the scope without parts is gone. -/
theorem parameters_reread_window :
    ∃ parameters, decoder.ofText windowText = .ok window ∧ window.compile = .ok parameters ∧
      parameters.pairs =
        [("nested", "author,tags\x7b\x7b\"limit\":5\x7d\x7d"), ("skip", "0"),
          ("where", "\x7b\"age\":\x7b\"$gte\":18\x7d\x7d")] ∧
      (parameters.pairs.lookup "skip").mapM Count.decoder.ofText = .ok (some 0) ∧
      (parameters.pairs.lookup "nested").mapM RelationTree.ofOutline =
        .ok (some [.plain "author", .refined "tags" (some { limit := some 5 }) none]) := by
  have numbers : ∀ number ∈ window.toJson.numbers, number.ReadsBack := by
    show ∀ number ∈ [Number.ofWord 18, Number.ofWord 5, Number.ofWord 0], number.ReadsBack
    simp only [List.forall_mem_cons, List.not_mem_nil, false_implies, implies_true, and_true]
    exact ⟨Number.readsBack_integer _ _, Number.readsBack_integer _ _,
      Number.readsBack_integer _ _⟩
  have read : decoder.ofText windowText = .ok window := rfl
  obtain ⟨_, _, _, _, _, skip, _, nested⟩ := parameters_reread read rfl numbers
  exact ⟨_, read, rfl, rfl, skip, nested⟩

end Request

end ListQuery
