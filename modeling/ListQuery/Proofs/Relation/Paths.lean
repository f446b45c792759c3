/-
This file proves that validating a tree against a schema is asking for its paths. A
tree leads along paths of names from its root, and so does a schema, where the last
declaration of a name counts. Validation goes through the paths of the tree in the
order in which they are written, each before the ones that go on from it, and stops
at the first that the schema does not have. Nothing else in the tree matters.
-/

import ListQuery.Proofs.Relation.Skeleton
import ListQuery.Relation.Schema

namespace ListQuery

/-! ### Schemas as runs of declarations -/

namespace Schema

/-- The schemas that a run of declarations makes, for entities with schemas made in the same way. -/
inductive Built : Schema → Prop
  | empty : Built Schema.empty
  | declare {schema target : Schema} (name : String) (built : Built schema)
      (targetBuilt : Built target) : Built (schema.declare name target)

/-- The last declaration of a name leads to an entity. -/
inductive Declares : Schema → String → Schema → Prop
  | last {schema : Schema} {name : String} {target : Schema} :
      Declares (schema.declare name target) name target
  | earlier {schema : Schema} {name other : String} {target otherTarget : Schema}
      (declares : Declares schema name target) (different : other ≠ name) :
      Declares (schema.declare other otherTarget) name target

/-- The relations of a path lead from an entity to others one after another. -/
def HasPath : Schema → List String → Prop
  | _, [] => True
  | schema, name :: path => ∃ target, schema.Declares name target ∧ HasPath target path
termination_by structural _ path => path

variable {schema target : Schema} {name : String} {path : List String}

theorem get?_declare (wanted : String) :
    (schema.declare name target).get? wanted =
      if name = wanted then some target else schema.get? wanted := by
  show (Keyed.find? Prod.fst wanted (Keyed.put Prod.fst (name, target) schema.relations)).map
    Prod.snd = _
  rw [Keyed.find?_put]
  split <;> rfl

theorem get?_of_declares (declares : schema.Declares name target) :
    schema.get? name = some target := by
  induction declares with
  | last => rw [get?_declare, if_pos rfl]
  | earlier _ different inductionHypothesis =>
    rw [get?_declare, if_neg different, inductionHypothesis]

/-- What is found under a name is what the last declaration of the name leads to. -/
theorem Built.declares_of_get? (built : schema.Built) (found : schema.get? name = some target) :
    schema.Declares name target ∧ target.Built := by
  induction built with
  | empty => cases found
  | declare other _ targetBuilt inductionHypothesis _ =>
    rw [get?_declare] at found
    split at found
    · rename_i same
      cases same
      cases found
      exact ⟨.last, targetBuilt⟩
    · rename_i different
      obtain ⟨declares, foundBuilt⟩ := inductionHypothesis found
      exact ⟨.earlier declares different, foundBuilt⟩

/-! ### Following paths -/

/-- The entity that a path leads to. -/
def follow : Schema → List String → Option Schema
  | schema, [] => some schema
  | schema, name :: path => (schema.get? name).bind fun target => follow target path
termination_by structural _ path => path

/-- Checks that a path leads somewhere. -/
def checkPath (schema : Schema) (path : List String) : Except ShapeFault Unit :=
  match schema.follow path with
  | some _ => .ok ()
  | none => .error (.unknownRelation (path.getLastD ""))

theorem Built.hasPath_iff (built : schema.Built) :
    schema.HasPath path ↔ schema.checkPath path = .ok () := by
  have follows : schema.HasPath path ↔ ∃ target, schema.follow path = some target := by
    induction path generalizing schema with
    | nil => exact ⟨fun _ => ⟨schema, rfl⟩, fun _ => trivial⟩
    | cons name path inductionHypothesis =>
      simp only [HasPath, follow, Option.bind_eq_some_iff]
      constructor
      · rintro ⟨target, declares, hasPath⟩
        have found := get?_of_declares declares
        obtain ⟨final, followed⟩ :=
          (inductionHypothesis (built.declares_of_get? found).2).mp hasPath
        exact ⟨final, target, found, followed⟩
      · rintro ⟨final, target, found, followed⟩
        obtain ⟨declares, targetBuilt⟩ := built.declares_of_get? found
        exact ⟨target, declares, (inductionHypothesis targetBuilt).mpr ⟨final, followed⟩⟩
  rw [follows, checkPath]
  cases schema.follow path with
  | none => exact ⟨fun ⟨_, absent⟩ => absurd absent.symm (Option.some_ne_none _), nofun⟩
  | some final => exact ⟨fun _ => rfl, fun _ => ⟨final, rfl⟩⟩

/-- A path that leads nowhere is refused for its last relation. -/
theorem checkPath_eq_error {fault : ShapeFault} :
    schema.checkPath path = .error fault ↔
      schema.checkPath path ≠ .ok () ∧
        ∃ before name, path = before ++ [name] ∧ fault = .unknownRelation name := by
  unfold checkPath
  cases followed : schema.follow path with
  | some final => exact ⟨nofun, fun ⟨failed, _⟩ => absurd rfl failed⟩
  | none =>
    rcases List.eq_nil_or_concat path with rfl | ⟨before, last, rfl⟩
    · cases followed
    · rw [List.concat_eq_append, List.getLastD_concat]
      constructor
      · intro same
        cases same
        exact ⟨nofun, before, last, rfl, rfl⟩
      · rintro ⟨_, _, _, same, rfl⟩
        cases List.append_inj_right' same rfl
        rfl

theorem checkPath_cons_of_absent (absent : schema.get? name = none) :
    schema.checkPath [name] = .error (.unknownRelation name) := by
  unfold checkPath
  rw [follow, absent]
  rfl

/-- A path is checked where its first relation leads to. -/
theorem checkPath_cons (found : schema.get? name = some target) (path : List String) :
    schema.checkPath (name :: path) = target.checkPath path := by
  unfold checkPath
  rw [follow, found, Option.bind_some]
  cases path with
  | nil => rfl
  | cons next path => rfl

/-- Nothing behind a relation is checked when the relation is not there. -/
theorem forM_cons_of_absent (absent : schema.get? name = none) (paths : List (List String)) :
    ([name] :: paths.map (List.cons name)).forM schema.checkPath =
      .error (.unknownRelation name) := by
  rw [List.forM_eq_forM, List.forM_cons, checkPath_cons_of_absent absent]
  rfl

/-- What is behind a relation is checked where the relation leads to. -/
theorem forM_cons_of_found (found : schema.get? name = some target) (paths : List (List String)) :
    ([name] :: paths.map (List.cons name)).forM schema.checkPath =
      paths.forM target.checkPath := by
  have first : schema.checkPath [name] = .ok () := checkPath_cons found []
  have others : (fun path => schema.checkPath (name :: path)) = target.checkPath :=
    funext (checkPath_cons found)
  rw [List.forM_eq_forM, List.forM_cons, first]
  show forM (paths.map (List.cons name)) schema.checkPath = _
  rw [List.forM_map, others]

end Schema

/-! ### Paths of trees -/

mutual

/-- The paths of names that start with a relation, each before the ones that go on from it. -/
def Relation.paths : Relation → List (List String)
  | .plain name => [[name]]
  | .refined name _ nested => [name] :: (nestedPaths nested).map (List.cons name)
termination_by structural relation => relation

/-- The paths of names from the root of a tree, in the order in which the names are written. -/
def RelationTree.paths : RelationTree → List (List String)
  | [] => []
  | relation :: rest => relation.paths ++ RelationTree.paths rest
termination_by structural tree => tree

/-- The paths of the nested relations of a scope, if it has any. -/
def nestedPaths : Option RelationTree → List (List String)
  | none => []
  | some tree => RelationTree.paths tree
termination_by structural nested => nested

end

mutual

/-- Queries do not show in paths, and neither do scopes without nested relations. -/
theorem Relation.paths_skeleton : ∀ relation : Relation, relation.skeleton.paths = relation.paths
  | .plain _ => rfl
  | .refined _ _ none => rfl
  | .refined name _ (some tree) =>
    congrArg (fun paths : List (List String) => [name] :: paths.map (List.cons name))
      (RelationTree.paths_skeleton tree)

theorem RelationTree.paths_skeleton : ∀ tree : RelationTree, tree.skeleton.paths = tree.paths
  | [] => rfl
  | relation :: rest =>
    congrArg₂ List.append (Relation.paths_skeleton relation) (RelationTree.paths_skeleton rest)

end

mutual

/-- Validating a relation is checking its paths. -/
theorem Relation.validate_eq_forM : ∀ (relation : Relation) (schema : Schema),
    relation.validate schema = relation.paths.forM schema.checkPath
  | .plain name, schema => by
    rw [Relation.validate, Relation.paths]
    cases found : schema.get? name with
    | none => exact (Schema.forM_cons_of_absent found []).symm
    | some target => exact (Schema.forM_cons_of_found found []).symm
  | .refined name query nested, schema => by
    rw [Relation.validate, Relation.paths]
    cases found : schema.get? name with
    | none => exact (Schema.forM_cons_of_absent found (nestedPaths nested)).symm
    | some target =>
      rw [Schema.forM_cons_of_found found (nestedPaths nested)]
      exact validateNested_eq_forM nested target

/-- Validating a tree is checking its paths in order. -/
theorem RelationTree.validate_eq_forM : ∀ (tree : RelationTree) (schema : Schema),
    tree.validate schema = tree.paths.forM schema.checkPath
  | [], _ => rfl
  | relation :: rest, schema => by
    rw [RelationTree.validate, Relation.validate_eq_forM relation schema,
      RelationTree.validate_eq_forM rest schema, RelationTree.paths]
    exact (List.forM_append ..).symm

theorem validateNested_eq_forM : ∀ (nested : Option RelationTree) (schema : Schema),
    validateNested schema nested = (nestedPaths nested).forM schema.checkPath
  | none, _ => rfl
  | some tree, schema => RelationTree.validate_eq_forM tree schema

end

/-! ### Validation by paths -/

namespace RelationTree

variable {schema : Schema} {parsed : RelationTree}

theorem validate_skeleton (tree : RelationTree) (schema : Schema) :
    tree.skeleton.validate schema = tree.validate schema := by
  rw [validate_eq_forM, validate_eq_forM, paths_skeleton]

/-- Trees with one skeleton are validated alike. -/
theorem validate_of_skeleton {tree : RelationTree} (same : parsed.skeleton = tree.skeleton) :
    parsed.validate schema = tree.validate schema := by
  rw [← validate_skeleton, same, validate_skeleton]

/-- Validating a tree is asking for its paths. The tree is accepted exactly when every path of names
from its root is a path of the schema. It is refused for the first path that the schema does not
have, in the order in which the names are written, and the fault names the relation at the end of
that path. Queries have no part in this and neither have scopes without nested relations; so the
tree that is parsed from the outline of another one is validated as that one is. -/
theorem validate_eq_paths (schemaBuilt : schema.Built) (tree : RelationTree) :
    (tree.validate schema = .ok () ↔ ∀ path ∈ tree.paths, schema.HasPath path) ∧
      (∀ fault, tree.validate schema = .error fault ↔
        ∃ before path name after, tree.paths = before ++ (path ++ [name]) :: after ∧
          (∀ other ∈ before, schema.HasPath other) ∧ ¬schema.HasPath (path ++ [name]) ∧
          fault = .unknownRelation name) ∧
      (∀ other : RelationTree, other.skeleton = tree.skeleton →
        other.validate schema = tree.validate schema) ∧
      (tree.WellFormed → ∀ text parsed, tree.toOutline = .ok text → ofOutline text = .ok parsed →
        parsed.validate schema = tree.validate schema) := by
  refine ⟨?_, fun fault => ?_, fun _ => validate_of_skeleton, fun wellFormed _ _ sent read =>
    validate_of_skeleton (skeleton_of_ofOutline wellFormed sent read)⟩
  · rw [validate_eq_forM, Traversal.forM_eq_ok]
    exact forall₂_congr fun path _ => schemaBuilt.hasPath_iff.symm
  · rw [validate_eq_forM, Traversal.forM_eq_error]
    constructor
    · rintro ⟨before, _, after, parts, passed, failed⟩
      obtain ⟨notPassed, path, name, rfl, same⟩ := Schema.checkPath_eq_error.mp failed
      exact ⟨before, path, name, after, parts,
        fun other member => schemaBuilt.hasPath_iff.mpr (passed other member),
        fun hasPath => notPassed (schemaBuilt.hasPath_iff.mp hasPath), same⟩
    · rintro ⟨before, path, name, after, parts, passed, missing, same⟩
      exact ⟨before, path ++ [name], after, parts,
        fun other member => schemaBuilt.hasPath_iff.mp (passed other member),
        Schema.checkPath_eq_error.mpr
          ⟨fun passes => missing (schemaBuilt.hasPath_iff.mpr passes), path, name, rfl, same⟩⟩

/-- A schema in which an author is declared twice, the second time with posts. -/
def authorship : Schema :=
  ((Schema.empty.declare "author" Schema.empty).declare "posts"
    (Schema.empty.declare "author" Schema.empty)).declare "author"
      (Schema.empty.declare "posts" Schema.empty)

/-- A tree with one relation below two others, of which only the first has it. -/
def twofold : RelationTree :=
  (RelationTree.empty.refined "author" (some { limit := some 1 })
      (some (RelationTree.empty.plain "posts"))).refined "posts" none
    (some ((RelationTree.empty.refined "author" (some {}) none).plain "posts"))

/-- The tree is refused for the second of the two, and so is what comes back from its outline. -/
theorem validate_eq_paths_twofold :
    authorship.Built ∧ twofold.Built ∧
      twofold.paths = [["author"], ["author", "posts"], ["posts"], ["posts", "author"],
        ["posts", "posts"]] ∧
      ¬(∀ path ∈ twofold.paths, authorship.HasPath path) ∧
      ∃ text parsed, twofold.toOutline = .ok text ∧ ofOutline text = .ok parsed ∧
        parsed.validate authorship = .error (.unknownRelation "posts") := by
  have schemaBuilt : authorship.Built :=
    .declare "author" (.declare "posts" (.declare "author" .empty .empty)
      (.declare "author" .empty .empty)) (.declare "posts" .empty .empty)
  have built : twofold.Built := by
    refine .refined "posts" _ _ (.refined "author" _ _ .empty ?_ ?_) nofun ?_
    · rintro _ ⟨⟩ _ ⟨⟩
    · rintro _ ⟨⟩
      exact .plain "posts" .empty
    · rintro _ ⟨⟩
      refine .plain "posts" (.refined "author" _ _ .empty ?_ nofun)
      rintro _ ⟨⟩ _ ⟨⟩
  have refused : twofold.validate authorship = .error (.unknownRelation "posts") := rfl
  obtain ⟨accepted, _, _, reread⟩ := validate_eq_paths schemaBuilt twofold
  refine ⟨schemaBuilt, built, rfl, fun each => ?_, _, _, rfl, rfl,
    (reread built.wellFormed _ _ rfl rfl).trans refused⟩
  cases refused.symm.trans (accepted.mpr each)

end RelationTree

end ListQuery
