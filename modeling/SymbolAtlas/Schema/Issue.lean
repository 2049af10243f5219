import SymbolAtlas.Value

/-!
# Issues

An issue says where in a document a value does not fit its schema and why.  The wording of every
cause is here.
-/

namespace SymbolAtlas.Schema

/-- One step from a value into a part of it. -/
inductive Step where
  | key (name : String)
  | index (i : Nat)
  deriving DecidableEq, Repr, Inhabited

namespace Step

/-- The step as text. -/
def display : Step → String
  | key name => name
  | index i => toString i

/-- The step as a value. -/
def toValue : Step → Value
  | key name => .str name
  | index i => .int i

end Step

/-- Why a value does not fit. -/
inductive Cause where
  | intFromFloat
  | intParsing
  | intType
  | notFinite
  | floatParsing
  | floatType
  | boolParsing
  | boolType
  | stringType
  | listType
  | dictType
  | tupleType
  | tooLong (most actual : Nat)
  | missing
  | unknownTag (known : List String)
  | notLiteral (known : List String)
  /-- The value is no object; the word names the section that it should be. -/
  | modelType (word : String)
  /-- A rule of the domain is broken; the text says which. -/
  | ruleBroken (text : String)
  | extraField
  /-- A cause of a validator's own. -/
  | other (tag text : String)
  deriving DecidableEq, Repr, Inhabited

/-- Alternatives in quotes, the last one after "or". -/
def alternatives (words : List String) : String :=
  let quoted := words.map fun w => "'" ++ w ++ "'"
  match quoted.reverse with
  | [] => ""
  | [only] => only
  | last :: front => ", ".intercalate front.reverse ++ " or " ++ last

namespace Cause

/-- The short name of a cause. -/
def tag : Cause → String
  | intFromFloat => "int_from_float"
  | intParsing => "int_parsing"
  | intType => "int_type"
  | notFinite => "finite_number"
  | floatParsing => "float_parsing"
  | floatType => "float_type"
  | boolParsing => "bool_parsing"
  | boolType => "bool_type"
  | stringType => "string_type"
  | listType => "list_type"
  | dictType => "dict_type"
  | tupleType => "tuple_type"
  | tooLong _ _ => "too_long"
  | missing => "missing"
  | unknownTag _ => "enum"
  | notLiteral _ => "literal_error"
  | modelType _ => "model_type"
  | ruleBroken _ => "value_error"
  | extraField => "extra_forbidden"
  | other tag _ => tag

/-- The wording of a cause. -/
def message : Cause → String
  | intFromFloat => "Input should be a valid integer, got a number with a fractional part"
  | intParsing => "Input should be a valid integer, unable to parse string as an integer"
  | intType => "Input should be a valid integer"
  | notFinite => "Input should be a finite number"
  | floatParsing => "Input should be a valid number, unable to parse string as a number"
  | floatType => "Input should be a valid number"
  | boolParsing => "Input should be a valid boolean, unable to interpret input"
  | boolType => "Input should be a valid boolean"
  | stringType => "Input should be a valid string"
  | listType => "Input should be a valid list"
  | dictType => "Input should be a valid dictionary"
  | tupleType => "Input should be a valid tuple"
  | tooLong most actual =>
    "Tuple should have at most " ++ toString most ++ " items after validation, not " ++
      toString actual
  | missing => "Field required"
  | unknownTag known => "Input should be " ++ alternatives known
  | notLiteral known => "Input should be " ++ alternatives known
  | modelType word => "Input should be a valid dictionary or instance of " ++ word
  | ruleBroken text => "Value error, " ++ text
  | extraField => "Extra inputs are not permitted"
  | other _ text => text

end Cause

/-- A value that does not fit: where it is, what it is and why it does not fit. -/
structure Issue where
  place : List Step := []
  cause : Cause
  input : Value
  deriving Inhabited

/-- The same issue, seen from one step further out. -/
def Issue.under (step : Step) (issue : Issue) : Issue :=
  { issue with place := step :: issue.place }

end SymbolAtlas.Schema
