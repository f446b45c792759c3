/-
This file defines the JSON documents that the library reads and writes. Members
of an object keep their order, because the order shows in every text the library
writes; that no name occurs twice is a property of documents, not of the type,
and whatever is read from text has it. Two documents are the same when they
differ in the order of members only.
-/

import ListQuery.Json.Number
import ListQuery.Keyed

namespace ListQuery

/-- A JSON document. -/
inductive Json where
  | null
  | boolean (flag : Bool)
  | number (number : Number)
  | string (text : String)
  | array (items : List Json)
  | object (members : List (String × Json))
deriving Inhabited

namespace Json

/-! ### Documents without repeated names -/

mutual

/-- No object of the document holds a name twice. -/
def WellFormed : Json → Prop
  | .array items => ItemsWellFormed items
  | .object members => Keyed.Distinct Prod.fst members ∧ MembersWellFormed members
  | _ => True
termination_by structural document => document

/-- All items are well formed. -/
def ItemsWellFormed : List Json → Prop
  | [] => True
  | item :: rest => WellFormed item ∧ ItemsWellFormed rest
termination_by structural items => items

/-- The values of all members are well formed. -/
def MembersWellFormed : List (String × Json) → Prop
  | [] => True
  | (_, value) :: rest => WellFormed value ∧ MembersWellFormed rest
termination_by structural members => members

end

/-! ### Equality up to the order of members -/

mutual

/-- Whether two documents are the same: equal up to the order of members, and with numbers compared
by value within their kind. -/
def same : Json → Json → Bool
  | .null, .null => true
  | .boolean first, .boolean second => first == second
  | .number first, .number second => first.same second
  | .string first, .string second => first == second
  | .array first, .array second => sameItems first second
  | .object first, .object second => first.length == second.length && sameMembers first second
  | _, _ => false
termination_by structural document => document

/-- Whether two lists hold the same documents in the same order. -/
def sameItems : List Json → List Json → Bool
  | [], [] => true
  | first :: firsts, second :: seconds => same first second && sameItems firsts seconds
  | _, _ => false
termination_by structural items => items

/-- Whether every member has a counterpart of the same name and value among the others. -/
def sameMembers : List (String × Json) → List (String × Json) → Bool
  | [], _ => true
  | (name, value) :: rest, others =>
    (match others.lookup name with
      | some other => same value other
      | none => false) && sameMembers rest others
termination_by structural members => members

end

end Json

end ListQuery
