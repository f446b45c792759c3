/-
This file relates filters to documents. A document is decoded level by level up
to the nesting limit; every filter can be written, but only a filter that passes
the check is read back. A bare value that would be read as an operator document is
written as an explicit test for equality, so that it keeps its meaning.
-/

import ListQuery.Filter.Basic
import ListQuery.Json.Decoder

namespace ListQuery

/-- Whether a key starts with a dollar sign, which marks operators and connectives. -/
def startsWithDollar (key : String) : Bool :=
  key.toList.head? == some '$'

/-- The members of an object whose first key marks it as an operator document. -/
def Json.operatorMembers? : Json → Option (List (String × Json))
  | .object ((key, operand) :: rest) =>
    if startsWithDollar key then some ((key, operand) :: rest) else none
  | _ => none

namespace Condition

/-- The condition that the value of a field stands for. -/
def ofJson (value : Json) : Except ShapeFault Condition :=
  match value.operatorMembers? with
  | some members => return .operators (← OperatorSet.ofMembers members)
  | none => .ok (.bare value)

/-- The value of a field that stands for a condition. -/
def toJson : Condition → Json
  | .bare value =>
    match value.operatorMembers? with
    | some _ => .object [((Operator.scalar .eq).key, value)]
    | none => value
  | .operators set => set.toJson

end Condition

/-! ### Decoding -/

/-- The branches under a connective; `decode` is used for each of them. -/
def branchesOfJson (decode : Json → Except ShapeFault Filter) (key : String) :
    Json → Except ShapeFault (List Filter)
  | .array items =>
    items.mapM fun item =>
      match item with
      | .object members => decode (.object members)
      | _ => .error (.branchNotObject key)
  | _ => .error (.branchesNotArray key)

/-- The clause that a member of a filter document stands for; `decode` is used for the filters
inside it. -/
def Clause.ofMember (decode : Json → Except ShapeFault Filter) (key : String) (value : Json) :
    Except ShapeFault Clause :=
  if key = Connective.all.key then return .group .all (← branchesOfJson decode key value)
  else if key = Connective.any.key then return .group .any (← branchesOfJson decode key value)
  else if key = negationKey then
    match value with
    | .object members => return .negation (← decode (.object members))
    | _ => .error .negationNotObject
  else if startsWithDollar key then .error (.unknownConnective key)
  else return .field key (← Condition.ofJson value)

namespace Filter

/-- The filter that a document stands for, with filters at no more than `levels` levels. -/
def ofJsonWithin : Nat → Json → Except ShapeFault Filter
  | 0, _ => .error .filterTooDeep
  | levels + 1, .object members =>
    members.foldlM (fun filter member =>
      return filter.put (← Clause.ofMember (ofJsonWithin levels) member.1 member.2)) empty
  | _ + 1, _ => .error .filterNotObject

/-- The filter that a document stands for. -/
def ofJson (document : Json) : Except ShapeFault Filter :=
  ofJsonWithin (maxNesting + 1) document

/-- The decoder of filters. -/
def decoder : Json.Decoder Filter :=
  .whole fun document => (ofJson document).mapError QueryFault.inDocument

end Filter

/-! ### Encoding -/

mutual

/-- The member that stands for a clause. -/
def Clause.toMember : Clause → String × Json
  | .field path condition => (path, condition.toJson)
  | .group connective branches => (connective.key, .array (branchesToJson branches))
  | .negation branch => (negationKey, .object (Filter.toMembers branch))
termination_by structural clause => clause

/-- The members that stand for the clauses of a filter. -/
def Filter.toMembers : Filter → List (String × Json)
  | [] => []
  | clause :: rest => clause.toMember :: Filter.toMembers rest
termination_by structural filter => filter

/-- The documents of branches. -/
def branchesToJson : List Filter → List Json
  | [] => []
  | branch :: rest => .object (Filter.toMembers branch) :: branchesToJson rest
termination_by structural branches => branches

end

namespace Filter

/-- The document that stands for a filter. -/
def toJson (filter : Filter) : Json :=
  .object filter.toMembers

/-! ### Checking -/

/-- Checks the filters at no more than `levels` levels, in the order in which they are written. -/
def checkWithin : Nat → Filter → Except ShapeFault Unit
  | 0, _ => .error .filterTooDeep
  | levels + 1, filter =>
    filter.forM fun clause =>
      match clause with
      | .field path _ => if startsWithDollar path then .error (.reservedPath path) else .ok ()
      | .group _ branches => branches.forM (checkWithin levels)
      | .negation branch => checkWithin levels branch

/-- Checks that a filter can be sent: no field path reads like a connective, and the nesting stays
within the limit. -/
def check (filter : Filter) : Except ShapeFault Unit :=
  checkWithin (maxNesting + 1) filter

end Filter

end ListQuery
