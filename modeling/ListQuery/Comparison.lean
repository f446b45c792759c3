/-
This file holds comparisons, which are operators with an operand of the type the
operator asks for, and operator sets, which are the comparisons that one field
has to pass. A set holds an operator at most once; putting it again replaces the
operand in place.
-/

import ListQuery.Fault
import ListQuery.Keyed

namespace ListQuery

/-- One operator with its operand. -/
inductive Comparison where
  | scalar (test : ScalarTest) (operand : Json)
  | list (test : ListTest) (operands : List Json)
  | pattern (test : PatternTest) (text : String)
  | between (low high : Json)
  | flag (test : FlagTest) (holds : Bool)

namespace Comparison

/-- The operator of a comparison. -/
def operator : Comparison → Operator
  | .scalar test _ => .scalar test
  | .list test _ => .list test
  | .pattern test _ => .pattern test
  | .between _ _ => .between
  | .flag test _ => .flag test

/-- The operand of a comparison as a document. -/
def operand : Comparison → Json
  | .scalar _ operand => operand
  | .list _ operands => .array operands
  | .pattern _ text => .string text
  | .between low high => .array [low, high]
  | .flag _ holds => .boolean holds

/-- The comparison with an operator, when the operand has the type the operator asks for. -/
def ofOperand : Operator → Json → Except ShapeFault Comparison
  | .scalar test, operand => .ok (.scalar test operand)
  | .list test, .array operands => .ok (.list test operands)
  | .list test, _ => .error (.operandNotArray (.list test))
  | .pattern test, .string text => .ok (.pattern test text)
  | .pattern test, _ => .error (.operandNotString (.pattern test))
  | .between, .array [low, high] => .ok (.between low high)
  | .between, _ => .error .operandNotPair
  | .flag test, .boolean holds => .ok (.flag test holds)
  | .flag test, _ => .error (.operandNotBoolean (.flag test))

/-- The comparison that a member of an operator document stands for. -/
def ofMember (key : String) (operand : Json) : Except ShapeFault Comparison :=
  match Operator.ofKey? key with
  | some operator => ofOperand operator operand
  | none => .error (.unknownOperator key)

/-- The member that stands for a comparison. -/
def toMember (comparison : Comparison) : String × Json :=
  (comparison.operator.key, comparison.operand)

/-- Whether two comparisons have the same operator and the same operand. -/
def same (first second : Comparison) : Bool :=
  first.operator == second.operator && first.operand.same second.operand

end Comparison

/-- The comparisons of one field, in the order in which their operators first came. -/
structure OperatorSet where
  comparisons : List Comparison
  distinct : Keyed.Distinct Comparison.operator comparisons

namespace OperatorSet

/-- The set without comparisons. -/
def empty : OperatorSet :=
  ⟨[], List.nodup_nil⟩

/-- Puts a comparison in the place of the one with the same operator, or at the end. -/
def put (set : OperatorSet) (comparison : Comparison) : OperatorSet :=
  ⟨Keyed.put Comparison.operator comparison set.comparisons, Keyed.distinct_put _ _ set.distinct⟩

/-- The comparison with an operator. -/
def get? (set : OperatorSet) (operator : Operator) : Option Comparison :=
  Keyed.find? Comparison.operator operator set.comparisons

/-- The set that an operator document stands for. -/
def ofMembers (members : List (String × Json)) : Except ShapeFault OperatorSet :=
  if members.isEmpty then .error .noOperators
  else
    members.foldlM (fun set member =>
      return set.put (← Comparison.ofMember member.1 member.2)) empty

/-- The document that stands for a set. -/
def toJson (set : OperatorSet) : Json :=
  .object (set.comparisons.map Comparison.toMember)

/-- Whether two sets hold the same comparisons in the same order. -/
def same (first second : OperatorSet) : Bool :=
  first.comparisons.length == second.comparisons.length &&
    (first.comparisons.zip second.comparisons).all fun (left, right) => left.same right

end OperatorSet

end ListQuery
