/-
This file proves that no two requests compile to the same parameters. Each parameter
determines the part that it was compiled from, as far as the document of that part
goes. Nothing is read back, so this holds of all requests that can be compiled,
with values that nest deeper than any reader allows. Only scopes without parts are lost.
-/

import ListQuery.Proofs.Parameters
import ListQuery.Proofs.Relation.Distinction

namespace ListQuery

/-! ### Parts -/

theorem Count.eq_of_text {first second : Count} (same : first.text = second.text) :
    first = second := by
  have back := Count.ofText_text first
  rw [same, Count.ofText_text] at back
  exact (Except.ok.inj back).symm

/-- What is sent for a tree determines its document, once it is trimmed. -/
theorem RelationTree.trimmedJson_of_toOutline {first second : RelationTree} {text : String}
    (apart : Json.NumbersApart first.toJson second.toJson) (sent : first.toOutline = .ok text)
    (otherSent : second.toOutline = .ok text) : first.trimmedJson = second.trimmedJson := by
  obtain ⟨checked, written⟩ := toOutline_eq_ok.mp sent
  obtain ⟨otherChecked, otherWritten⟩ := toOutline_eq_ok.mp otherSent
  have same := congrArg String.toList (written.symm.trans otherWritten)
  rw [String.toList_ofList, String.toList_ofList, ← List.append_nil first.outline,
    ← List.append_nil second.outline] at same
  exact (determines_outline checked otherChecked apart [] [] (.inl rfl) (.inl rfl) same).1

/-- Parameters are determined by the entries that are set. -/
theorem Parameters.eq_of_pairs {first second : Parameters} (same : first.pairs = second.pairs) :
    first = second := by
  have sameLookup : ∀ name,
      (first.entries.lookup name).join = (second.entries.lookup name).join := by
    intro name
    rw [← lookup_pairs, ← lookup_pairs, same]
  have limit : first.limit = second.limit := sameLookup "limit"
  have nested : first.nested = second.nested := sameLookup "nested"
  have page : first.page = second.page := sameLookup "page"
  have select : first.select = second.select := sameLookup "select"
  have skip : first.skip = second.skip := sameLookup "skip"
  have sort : first.sort = second.sort := sameLookup "sort"
  have filter : first.filter = second.filter := sameLookup "where"
  cases first
  cases second
  simp only [mk.injEq]
  exact ⟨limit, nested, page, select, skip, sort, filter⟩

namespace Request

variable {first second : Request}

/-- The numbers in the parts of two requests are apart when those of the requests are. -/
theorem numbersApart_parts (apart : Json.NumbersApart first.toJson second.toJson) :
    (∀ filter other, first.filter = some filter → second.filter = some other →
      Json.NumbersApart filter.toJson other.toJson) ∧
    ∀ tree other, first.nested = some tree → second.nested = some other →
      Json.NumbersApart (RelationTree.toJson tree) (RelationTree.toJson other) := by
  obtain ⟨filters, trees⟩ := numbers_of_parts
    fun number (inside : number ∈ first.toJson.numbers) => inside
  obtain ⟨otherFilters, otherTrees⟩ := numbers_of_parts
    fun number (inside : number ∈ second.toJson.numbers) => inside
  constructor
  · exact fun filter other given otherGiven =>
      apart.parts (filters filter given) (otherFilters other otherGiven)
  · exact fun tree other given otherGiven =>
      apart.parts (trees tree given) (otherTrees other otherGiven)

/-! ### Requests -/

/-- A request without the scopes that have no parts. -/
def trimmed (request : Request) : Request :=
  { request with nested := request.nested.map (RelationTree.trimmed id) }

/-- Requests have the same document, once they are trimmed, when each of their parts has. -/
theorem toJson_trimmed_congr
    (filter : first.filter.map Filter.toJson = second.filter.map Filter.toJson)
    (sort : first.sort.map SortOrder.toJson = second.sort.map SortOrder.toJson)
    (select : first.select.map Selection.toJson = second.select.map Selection.toJson)
    (nested : first.nested.map RelationTree.trimmedJson =
      second.nested.map RelationTree.trimmedJson)
    (limit : first.limit.map Count.toJson = second.limit.map Count.toJson)
    (skip : first.skip.map Count.toJson = second.skip.map Count.toJson)
    (page : first.page.map Count.toJson = second.page.map Count.toJson) :
    first.trimmed.toJson = second.trimmed.toJson := by
  refine Json.Layout.encode_congr ?_
  simp only [layout, List.forall_mem_cons, List.not_mem_nil, false_implies, implies_true, and_true]
  have trimmedNested : (first.nested.map (RelationTree.trimmed id)).map RelationTree.toJson =
      (second.nested.map (RelationTree.trimmed id)).map RelationTree.toJson := by
    rw [Option.map_map, Option.map_map]
    exact nested
  exact ⟨filter, sort, select, trimmedNested, limit, skip, page⟩

/-- No two requests compile to the same parameters, unless their documents differ in nothing but
scopes without parts. -/
theorem compile_unique {parameters otherParameters : Parameters}
    (apart : Json.NumbersApart first.toJson second.toJson)
    (compiled : first.compile = .ok parameters)
    (otherCompiled : second.compile = .ok otherParameters)
    (same : parameters.pairs = otherParameters.pairs) :
    first.trimmed.toJson = second.trimmed.toJson := by
  obtain ⟨filters, trees⟩ := numbersApart_parts apart
  obtain ⟨_, outline, sent, rfl⟩ := compile_eq_ok.mp compiled
  obtain ⟨_, otherOutline, otherSent, rfl⟩ := compile_eq_ok.mp otherCompiled
  have sameParts := Parameters.eq_of_pairs same
  simp only [Parameters.mk.injEq] at sameParts
  obtain ⟨limit, rfl, page, select, skip, sort, filter⟩ := sameParts
  refine toJson_trimmed_congr ?_ ?_ ?_ ?_ ?_ ?_ ?_
  · exact Traversal.optionMap_unique filter fun filter other given otherGiven =>
      Json.eq_of_text (filters filter other given otherGiven)
  · exact Traversal.optionMap_unique sort fun order _ _ _ =>
      Json.eq_of_text (Json.numbersApart_of_nil order.numbers_toJson)
  · exact Traversal.optionMap_unique select fun fields _ _ _ =>
      Json.eq_of_text (Json.numbersApart_of_nil (Selection.numbers_toJson fields))
  · exact Traversal.optionMapM_unique sent otherSent fun tree other given otherGiven _ =>
      RelationTree.trimmedJson_of_toOutline (trees tree other given otherGiven)
  · exact Traversal.optionMap_unique limit fun _ _ _ _ sameText =>
      congrArg Count.toJson (Count.eq_of_text sameText)
  · exact Traversal.optionMap_unique skip fun _ _ _ _ sameText =>
      congrArg Count.toJson (Count.eq_of_text sameText)
  · exact Traversal.optionMap_unique page fun _ _ _ _ sameText =>
      congrArg Count.toJson (Count.eq_of_text sameText)

/-- The request with a count of zero, its relation without a scope in place of one without parts. -/
def unscopedWindow : Request where
  filter := window.filter
  nested := some [.plain "author", .refined "tags" (some { limit := some 5 }) none]
  skip := some 0

/-- The two requests have different documents and the same parameters. -/
theorem compile_unique_window :
    ∃ parameters, window.compile = .ok parameters ∧ unscopedWindow.compile = .ok parameters ∧
      window.toJson ≠ unscopedWindow.toJson ∧
      window.trimmed.toJson = unscopedWindow.trimmed.toJson := by
  have apart : Json.NumbersApart window.toJson unscopedWindow.toJson := by
    show ∀ number ∈ [Number.ofWord 18, Number.ofWord 5, Number.ofWord 0],
      ∀ another ∈ [Number.ofWord 18, Number.ofWord 5, Number.ofWord 0],
        number.text = another.text → number = another
    decide
  exact ⟨_, rfl, rfl, nofun, compile_unique apart rfl rfl rfl⟩

end Request

end ListQuery
