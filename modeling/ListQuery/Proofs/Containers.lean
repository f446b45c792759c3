/-
This file proves that the five ordered containers keep one law. Whatever run of
builders fills an operator set, a sort order, a relation tree, a schema or a filter,
it holds the keys of the run once each, as they first came, and under each key what
came last under it. In a filter the key of a clause is its kind together with the
key under which it is written, so clauses on fields and connectives never meet.
-/

import ListQuery.Proofs.Query.Parts
import ListQuery.Relation.Schema

namespace ListQuery

/-! ### How entries get into containers -/

/-- How a set takes a comparison. -/
inductive OperatorSet.Puts (set : OperatorSet) (comparison : Comparison) : OperatorSet → Prop
  | put : Puts set comparison (set.put comparison)

/-- How a sort order takes a field with a direction. -/
inductive SortOrder.Puts (order : SortOrder) (key : SortKey) : SortOrder → Prop
  | put : Puts order key (order.put key.field key.direction)

/-- How a tree takes a relation. -/
inductive RelationTree.Puts (tree : RelationTree) : Relation → RelationTree → Prop
  | put (relation : Relation) : Puts tree relation (tree.put relation)
  | plain (name : String) : Puts tree (.plain name) (tree.plain name)
  | refined (name : String) (query : Option Query) (nested : Option RelationTree) :
      Puts tree (.refined name query nested) (tree.refined name query nested)

/-- How a schema takes the declaration of a relation. -/
inductive Schema.Puts (schema : Schema) : String × Schema → Schema → Prop
  | declare (name : String) (target : Schema) :
      Puts schema (name, target) (schema.declare name target)

/-- How a filter takes a clause. -/
inductive Filter.Puts (filter : Filter) : Clause → Filter → Prop
  | put (clause : Clause) : Puts filter clause (filter.put clause)
  | field (path : String) (condition : Condition) :
      Puts filter (.field path condition) (filter.field path condition)
  | equals (path : String) (value : Json) :
      Puts filter (.field path (.bare value)) (filter.equals path value)
  | group (connective : Connective) (branches : List Filter) :
      Puts filter (.group connective branches) (filter.group connective branches)
  | negation (branch : Filter) : Puts filter (.negation branch) (filter.negation branch)

/-! ### The kinds of clauses -/

/-- What a clause is, whatever it says. -/
inductive Clause.Kind where
  | field
  | every
  | some
  | negation
deriving DecidableEq

namespace Clause

/-- The kind of a clause. -/
def kind : Clause → Kind
  | .field _ _ => .field
  | .group .all _ => .every
  | .group .any _ => .some
  | .negation _ => .negation

/-- The kind of a clause with the key under which it is written. -/
def place (clause : Clause) : Kind × String :=
  (clause.kind, clause.key)

/-- Whether a clause is a condition on a field. -/
def isField (clause : Clause) : Bool :=
  clause.kind = .field

/-- The slot of a clause says no more and no less than its kind and its key. -/
theorem slot_eq_iff (first second : Clause) :
    first.slot = second.slot ↔ first.place = second.place := by
  cases first with
  | field path condition =>
    cases second with
    | field other _ => simp only [slot, place, kind, key, Slot.key, Slot.field.injEq,
        Prod.mk.injEq, true_and]
    | group connective _ => cases connective <;> exact ⟨nofun, nofun⟩
    | negation _ => exact ⟨nofun, nofun⟩
  | group connective branches =>
    cases second with
    | field _ _ => cases connective <;> exact ⟨nofun, nofun⟩
    | group other _ =>
      cases connective <;> cases other <;>
        simp only [slot, place, kind, key, Slot.key, Slot.group.injEq, reduceCtorEq, Prod.mk.injEq,
          false_and]
    | negation _ => cases connective <;> exact ⟨nofun, nofun⟩
  | negation branch =>
    cases second with
    | field _ _ => exact ⟨nofun, nofun⟩
    | group connective _ => cases connective <;> exact ⟨nofun, nofun⟩
    | negation _ => exact ⟨fun _ => rfl, fun _ => rfl⟩

theorem isField_eq_of_place {first second : Clause} (same : first.place = second.place) :
    first.isField = second.isField :=
  congrArg (fun place : Kind × String => decide (place.1 = .field)) same

end Clause

/-! ### One entry -/

theorem OperatorSet.Puts.comparisons {set next : OperatorSet} {comparison : Comparison}
    (puts : set.Puts comparison next) :
    next.comparisons = Keyed.put Comparison.operator comparison set.comparisons := by
  cases puts
  rfl

theorem SortOrder.Puts.keys {order next : SortOrder} {key : SortKey} (puts : order.Puts key next) :
    next.keys = Keyed.put SortKey.field key order.keys := by
  cases puts
  rfl

theorem RelationTree.Puts.eq_put {tree next : RelationTree} {relation : Relation}
    (puts : tree.Puts relation next) : next = Keyed.put Relation.name relation tree := by
  cases puts <;> rfl

theorem Schema.Puts.relations {schema next : Schema} {declaration : String × Schema}
    (puts : schema.Puts declaration next) :
    next.relations = Keyed.put Prod.fst declaration schema.relations := by
  cases puts
  rfl

theorem Filter.Puts.eq_put {filter next : Filter} {clause : Clause}
    (puts : filter.Puts clause next) : next = Keyed.put Clause.place clause filter := by
  rw [← Keyed.put_congr Clause.slot_eq_iff]
  cases puts <;> rfl

/-- Collecting fields with directions is putting them one after another. -/
theorem SortOrder.run_ofList (keys : List SortKey) :
    Keyed.Run Puts empty keys (SortOrder.ofList keys) := by
  have exists_run : ∀ order : SortOrder, ∃ built, Keyed.Run Puts order keys built := by
    induction keys with
    | nil => exact fun order => ⟨order, .done⟩
    | cons key rest inductionHypothesis =>
      intro order
      obtain ⟨built, run⟩ := inductionHypothesis (order.put key.field key.direction)
      exact ⟨built, .step .put run⟩
  obtain ⟨built, run⟩ := exists_run empty
  have same : SortOrder.ofList keys = built :=
    eq_of_keys (run.eq_ofList SortOrder.keys rfl SortOrder.Puts.keys).symm
  rw [same]
  exact run

/-! ### Runs of entries -/

open Keyed in
/-- Whatever run of builders fills a container, it holds the keys of the run in the order in which
they first came, each once and with what came last under it, and this is what is found under a key.
Collecting a sort order is such a run. A filter keeps its clauses by kind and key, so the clauses on
fields are those that the run leaves without any connectives, and the other way around. -/
theorem containers_keep_law :
    (∀ comparisons set, Run OperatorSet.Puts .empty comparisons set →
      LeftBy Comparison.operator comparisons set.comparisons ∧
        ∀ operator, set.get? operator = last? Comparison.operator operator comparisons) ∧
    (∀ relations tree, Run RelationTree.Puts .empty relations tree →
      LeftBy Relation.name relations tree ∧
        ∀ name, tree.get? name = last? Relation.name name relations) ∧
    (∀ keys order, Run SortOrder.Puts .empty keys order →
      LeftBy SortKey.field keys order.keys) ∧
    (∀ keys, Run SortOrder.Puts .empty keys (SortOrder.ofList keys)) ∧
    (∀ declarations schema, Run Schema.Puts .empty declarations schema →
      LeftBy Prod.fst declarations schema.relations ∧
        ∀ name, schema.get? name = (last? Prod.fst name declarations).map Prod.snd) ∧
    ∀ clauses filter, Run Filter.Puts .empty clauses filter →
      LeftBy Clause.place clauses filter ∧
        LeftBy Clause.place (clauses.filter Clause.isField) (filter.filter Clause.isField) ∧
        LeftBy Clause.place (clauses.filter fun clause => !clause.isField)
          (filter.filter fun clause => !clause.isField) := by
  refine ⟨?_, ?_, ?_, SortOrder.run_ofList, ?_, ?_⟩
  · intro comparisons set run
    have built := run.eq_ofList OperatorSet.comparisons rfl OperatorSet.Puts.comparisons
    have left := leftBy_ofList Comparison.operator comparisons
    rw [← built] at left
    exact ⟨left, left.find?⟩
  · intro relations tree run
    have built := run.eq_ofList id rfl RelationTree.Puts.eq_put
    have left := leftBy_ofList Relation.name relations
    rw [← built] at left
    exact ⟨left, left.find?⟩
  · intro keys order run
    rw [run.eq_ofList SortOrder.keys rfl SortOrder.Puts.keys]
    exact leftBy_ofList SortKey.field keys
  · intro declarations schema run
    have built := run.eq_ofList Schema.relations rfl Schema.Puts.relations
    have left := leftBy_ofList Prod.fst declarations
    rw [← built] at left
    exact ⟨left, fun name => congrArg (Option.map Prod.snd) (left.find? name)⟩
  · intro clauses filter run
    have built : filter = ofList Clause.place clauses := run.eq_ofList id rfl Filter.Puts.eq_put
    rw [built, filter_ofList fun _ _ => Clause.isField_eq_of_place,
      filter_ofList fun _ _ same => congrArg (!·) (Clause.isField_eq_of_place same)]
    exact ⟨leftBy_ofList _ _, leftBy_ofList _ _, leftBy_ofList _ _⟩

/-- A run of clauses in which a condition on a field has the key of a connective. -/
def lookalikes : List Clause :=
  [.field "$and" (.bare .null), .group .all [[]], .field "age" (.bare (.boolean true)),
    .field "$and" (.bare (.string "all")), .group .all []]

open Keyed in
/-- A run for each of the containers, in which keys come again. The filter keeps both clauses with
the key `$and`, each in its first place and as it came last. -/
theorem containers_keep_law_lookalikes :
    ∃ (set : OperatorSet) (tree : RelationTree) (order : SortOrder) (schema : Schema)
      (filter : Filter),
      Run OperatorSet.Puts .empty
        [.scalar .eq .null, .flag .null true, .scalar .eq (.string "all")] set ∧
      set.get? (.scalar .eq) = some (.scalar .eq (.string "all")) ∧
      Run RelationTree.Puts .empty
        [.plain "tags", .plain "author", .refined "tags" none none] tree ∧
      tree.map Relation.name = ["tags", "author"] ∧
      Run SortOrder.Puts .empty
        [⟨"name", .ascending⟩, ⟨"id", .ascending⟩, ⟨"name", .descending⟩] order ∧
      order.keys.map SortKey.field = ["name", "id"] ∧
      Run Schema.Puts .empty
        [("tags", .empty), ("tags", Schema.empty.declare "tags" .empty)] schema ∧
      schema.get? "tags" = some (Schema.empty.declare "tags" .empty) ∧
      Run Filter.Puts .empty lookalikes filter ∧
      filter.map Clause.place = [(.field, "$and"), (.every, "$and"), (.field, "age")] ∧
      LeftBy Clause.place (lookalikes.filter Clause.isField) (filter.filter Clause.isField) := by
  obtain ⟨sets, trees, orders, collected, schemas, filters⟩ := containers_keep_law
  have set : Run OperatorSet.Puts .empty
      [.scalar .eq .null, .flag .null true, .scalar .eq (.string "all")] _ :=
    .step .put (.step .put (.step .put .done))
  have tree : Run RelationTree.Puts .empty
      [.plain "tags", .plain "author", .refined "tags" none none] _ :=
    .step (.plain "tags") (.step (.put (.plain "author"))
      (.step (.refined "tags" none none) .done))
  have schema : Run Schema.Puts .empty
      [("tags", .empty), ("tags", Schema.empty.declare "tags" .empty)] _ :=
    .step (.declare "tags" _) (.step (.declare "tags" _) .done)
  have filter : Run Filter.Puts .empty lookalikes _ :=
    .step (.equals "$and" .null) (.step (.group .all [[]]) (.step (.equals "age" (.boolean true))
      (.step (.field "$and" _) (.step (.put (.group .all [])) .done))))
  have order := collected [⟨"name", .ascending⟩, ⟨"id", .ascending⟩, ⟨"name", .descending⟩]
  exact ⟨_, _, _, _, _, set, (sets _ _ set).2 _, tree, (trees _ _ tree).1.keys, order,
    (orders _ _ order).keys, schema, (schemas _ _ schema).2 "tags", filter,
    (filters _ _ filter).1.keys, (filters _ _ filter).2.1⟩

end ListQuery
