/-
This file defines filters: conditions on fields, joined by the connectives `$and`
and `$or` and by `$not`. The clauses of a filter all have to hold. A slot is what
a clause occupies in its filter; a clause replaces the one in its own slot, so a
field whose path reads like a connective never replaces that connective.
-/

import ListQuery.Comparison

namespace ListQuery

/-- What a field has to be: equal to a bare value, or as a set of operators says. -/
inductive Condition where
  | bare (value : Json)
  | operators (set : OperatorSet)

/-- How the branches of a group are joined. -/
inductive Connective where
  | all
  | any
deriving DecidableEq

/-- The key of a connective in a document. -/
def Connective.key : Connective → String
  | .all => "$and"
  | .any => "$or"

/-- The key of a negation in a document. -/
def negationKey : String := "$not"

/-- One clause of a filter. Paths may cross relations by dots, which have no meaning here. -/
inductive Clause where
  | field (path : String) (condition : Condition)
  | group (connective : Connective) (branches : List (List Clause))
  | negation (branch : List Clause)

/-- A filter: its clauses in order. -/
abbrev Filter := List Clause

/-! ### Slots -/

/-- The place that a clause takes in its filter. -/
inductive Slot where
  | field (path : String)
  | group (connective : Connective)
  | negation
deriving DecidableEq

/-- The key under which a slot is written. -/
def Slot.key : Slot → String
  | .field path => path
  | .group connective => connective.key
  | .negation => negationKey

namespace Clause

/-- The slot of a clause. -/
def slot : Clause → Slot
  | .field path _ => .field path
  | .group connective _ => .group connective
  | .negation _ => .negation

/-- The key under which a clause is written. -/
def key (clause : Clause) : String :=
  clause.slot.key

end Clause

namespace Filter

/-! ### Building -/

/-- The filter without clauses, which everything passes. -/
def empty : Filter := []

/-- Puts a clause in the place of the one in its slot, or at the end. -/
def put (filter : Filter) (clause : Clause) : Filter :=
  Keyed.put Clause.slot clause filter

/-- Asks a field for a condition. -/
def field (filter : Filter) (path : String) (condition : Condition) : Filter :=
  filter.put (.field path condition)

/-- Asks a field for equality with a bare value. -/
def equals (filter : Filter) (path : String) (value : Json) : Filter :=
  filter.field path (.bare value)

/-- Joins branches by a connective. -/
def group (filter : Filter) (connective : Connective) (branches : List Filter) : Filter :=
  filter.put (.group connective branches)

/-- Asks that a filter does not hold. -/
def negation (filter : Filter) (branch : Filter) : Filter :=
  filter.put (.negation branch)

end Filter

/-! ### Normal form -/

/-- A bare value written out as a test for equality. -/
def Condition.normalized : Condition → Condition
  | .bare value => .operators (OperatorSet.empty.put (.scalar .eq value))
  | .operators set => .operators set

mutual

/-- A clause with every bare value in it written out as a test for equality. -/
def Clause.normalized : Clause → Clause
  | .field path condition => .field path condition.normalized
  | .group connective branches => .group connective (normalizedBranches branches)
  | .negation branch => .negation (Filter.normalized branch)
termination_by structural clause => clause

/-- A filter with every bare value in it written out as a test for equality. -/
def Filter.normalized : Filter → Filter
  | [] => []
  | clause :: rest => clause.normalized :: Filter.normalized rest
termination_by structural filter => filter

/-- Branches with every bare value in them written out as a test for equality. -/
def normalizedBranches : List Filter → List Filter
  | [] => []
  | branch :: rest => Filter.normalized branch :: normalizedBranches rest
termination_by structural branches => branches

end

/-! ### Equality up to the order of members in values -/

/-- Whether two conditions are of one kind and hold the same. -/
def Condition.same : Condition → Condition → Bool
  | .bare first, .bare second => first.same second
  | .operators first, .operators second => first.same second
  | _, _ => false

mutual

/-- Whether two clauses are of one kind and hold the same. -/
def Clause.same : Clause → Clause → Bool
  | .field path condition, .field otherPath otherCondition =>
    path == otherPath && condition.same otherCondition
  | .group connective branches, .group otherConnective otherBranches =>
    connective == otherConnective && sameBranches branches otherBranches
  | .negation branch, .negation otherBranch => Filter.same branch otherBranch
  | _, _ => false
termination_by structural clause => clause

/-- Whether two filters hold the same clauses in the same order. -/
def Filter.same : Filter → Filter → Bool
  | [], [] => true
  | clause :: rest, otherClause :: otherRest =>
    clause.same otherClause && Filter.same rest otherRest
  | _, _ => false
termination_by structural filter => filter

/-- Whether two lists of branches are the same one by one. -/
def sameBranches : List Filter → List Filter → Bool
  | [], [] => true
  | branch :: rest, otherBranch :: otherRest =>
    Filter.same branch otherBranch && sameBranches rest otherRest
  | _, _ => false
termination_by structural branches => branches

end

end ListQuery
