/-
This file names the comparison operators that the remote service understands,
grouped by the operand they take, and the keys that stand for them in documents.
-/

namespace ListQuery

/-- Operators whose operand is any one value. -/
inductive ScalarTest where
  | eq | ne | gt | gte | lt | lte
deriving DecidableEq

/-- Operators whose operand is a list of values. -/
inductive ListTest where
  | within | outside
deriving DecidableEq

/-- Operators whose operand is a pattern. -/
inductive PatternTest where
  | like | ilike
deriving DecidableEq

/-- Operators whose operand is a flag. -/
inductive FlagTest where
  | present | null
deriving DecidableEq

/-- A comparison operator. -/
inductive Operator where
  | scalar (test : ScalarTest)
  | list (test : ListTest)
  | pattern (test : PatternTest)
  | between
  | flag (test : FlagTest)
deriving DecidableEq

namespace Operator

/-- The key of an operator in a document. -/
def key : Operator → String
  | .scalar .eq => "$eq"
  | .scalar .ne => "$ne"
  | .scalar .gt => "$gt"
  | .scalar .gte => "$gte"
  | .scalar .lt => "$lt"
  | .scalar .lte => "$lte"
  | .list .within => "$in"
  | .list .outside => "$nin"
  | .pattern .like => "$like"
  | .pattern .ilike => "$ilike"
  | .between => "$between"
  | .flag .present => "$exists"
  | .flag .null => "$null"

/-- All operators. -/
def all : List Operator :=
  [.scalar .eq, .scalar .ne, .scalar .gt, .scalar .gte, .scalar .lt, .scalar .lte, .list .within,
    .list .outside, .pattern .like, .pattern .ilike, .between, .flag .present, .flag .null]

/-- The operator that a key stands for. -/
def ofKey? (key : String) : Option Operator :=
  all.find? fun operator => operator.key == key

end Operator

end ListQuery
