/-
This file names the faults of query specifications: parts that do not have the
shape the model asks for, and relation outlines that cannot be parsed. Each kind
has its message in one place.
-/

import ListQuery.Json.Fault
import ListQuery.Operator

namespace ListQuery

/-- How deep filters and relation trees may nest. -/
def maxNesting : Nat := 32

/-- A part of a specification that does not have the shape the model asks for. -/
inductive ShapeFault where
  | filterNotObject
  | filterTooDeep
  | unknownConnective (key : String)
  /-- The value under a connective is no array. -/
  | branchesNotArray (key : String)
  /-- An element of the array under a connective is no object. -/
  | branchNotObject (key : String)
  | negationNotObject
  | unknownOperator (key : String)
  | operandNotArray (operator : Operator)
  | operandNotString (operator : Operator)
  | operandNotBoolean (operator : Operator)
  | operandNotPair
  | noOperators
  /-- A field path that would be read back as a connective. -/
  | reservedPath (path : String)
  | treeNotObject
  | treeTooDeep
  | relationMalformed (name : String)
  | unexpectedKey (key : String)
  | relationQuery (fault : Json.Fault)
  | emptyName
  | reservedName (name : String)
  | unknownRelation (name : String)
  /-- A fault that someone else found, in their own words. -/
  | described (reason : String)
deriving DecidableEq

namespace ShapeFault

/-- The message of a fault. -/
def message : ShapeFault → String
  | .filterNotObject => "filter must be an object"
  | .filterTooDeep => s!"filter nested deeper than {maxNesting} levels"
  | .unknownConnective key => s!"unknown logical operator: {key}"
  | .branchesNotArray key => s!"{key} value must be an array"
  | .branchNotObject key => s!"{key} array elements must be objects"
  | .negationNotObject => "$not value must be an object"
  | .unknownOperator key => s!"unknown field operator: {key}"
  | .operandNotArray operator => s!"{operator.key} value must be an array"
  | .operandNotString operator => s!"{operator.key} value must be a string"
  | .operandNotBoolean operator => s!"{operator.key} value must be a boolean"
  | .operandNotPair => "$between value must be a [low, high] pair"
  | .noOperators => "empty operator document"
  | .reservedPath path => s!"field path must not start with `$`: {path}"
  | .treeNotObject => "nested relations must be an object"
  | .treeTooDeep => s!"relation tree deeper than {maxNesting} levels"
  | .relationMalformed name =>
    s!"relation `{name}` must be `true` or an object with `query`/`nested`"
  | .unexpectedKey key => s!"unexpected key in relation config: {key}"
  | .relationQuery fault => s!"invalid relation query: {fault.locatedMessage}"
  | .emptyName => "relation name must not be empty"
  | .reservedName name => s!"relation name `{name}` contains a reserved character (\x7b, \x7d or ,)"
  | .unknownRelation name => s!"`{name}` is not a relation of this entity"
  | .described reason => reason

end ShapeFault

/-- A place of a relation outline where it cannot be parsed further. -/
inductive OutlineFault where
  | nameExpected
  /-- After a relation stands something else than a comma, a closing brace or the end. -/
  | separatorExpected
  /-- After a query stands something else than a comma or a closing brace. -/
  | queryEndExpected
  | unclosed (name : String)
  | strayBrace
  | unterminatedQuery
  | invalidQuery (fault : Json.Fault)
  /-- A fault that someone else found, in their own words. -/
  | described (reason : String)
deriving DecidableEq

namespace OutlineFault

/-- The message of a fault. -/
def message : OutlineFault → String
  | .nameExpected => "expected a relation name"
  | .separatorExpected => "expected `,` or `\x7d`"
  | .queryEndExpected => "expected `,` or `\x7d` after query"
  | .unclosed name => s!"unclosed `\x7b` after `{name}`"
  | .strayBrace => "unexpected `\x7d`"
  | .unterminatedQuery => "unterminated query object"
  | .invalidQuery fault => s!"invalid query: {fault.message}"
  | .described reason => reason

end OutlineFault

/-- Why a specification cannot be built, validated, parsed or compiled. -/
inductive QueryFault where
  | shape (fault : ShapeFault)
  | encoding (fault : Json.Fault)
  /-- An outline cannot be parsed beyond a position, counted in bytes of UTF-8. -/
  | parse (position : Nat) (fault : OutlineFault)
deriving DecidableEq

namespace QueryFault

/-- The message of a fault. -/
def message : QueryFault → String
  | .shape fault => s!"shape error: {fault.message}"
  | .encoding fault => s!"encoding error: {fault.message}"
  | .parse position fault => s!"parse error at byte {position}: {fault.message}"

/-- A shape fault, as the reader of a document reports it. -/
def inDocument (fault : ShapeFault) : Json.Fault :=
  .ofReason (QueryFault.shape fault).message

end QueryFault

end ListQuery
