import SymbolAtlas.Value
import SymbolAtlas.Number.Shortest
import SymbolAtlas.Text.Quoted

/-!
# Values in messages

`Value.literal` writes a value unambiguously, with quoted strings; `Value.display` writes a string
bare and everything else as its literal.
-/

namespace SymbolAtlas

namespace Value

/-- Texts joined by a comma and a blank. -/
def commas (parts : List String) : String :=
  ", ".intercalate parts

mutual

/-- The value as it is written inside a message, strings in quotes. -/
def literal : Value → String
  | .null => "None"
  | .bool b => if b then "True" else "False"
  | .int i => toString i
  | .float x => x.text
  | .str s => Text.quoted s
  | .list items => "[" ++ commas (literalItems items) ++ "]"
  | .object fields => "\x7b" ++ commas (literalFields fields) ++ "\x7d"
termination_by structural v => v

/-- The literals of the items of a list. -/
def literalItems : List Value → List String
  | [] => []
  | v :: rest => v.literal :: literalItems rest
termination_by structural vs => vs

/-- The literals of the fields of an object, each after its quoted name. -/
def literalFields : List (String × Value) → List String
  | [] => []
  | (k, v) :: rest => (Text.quoted k ++ ": " ++ v.literal) :: literalFields rest
termination_by structural fs => fs

end

/-- The value as text: a string is shown bare. -/
def display : Value → String
  | .str s => s
  | v => v.literal

/-! ## Numbers that are too long -/

/-- The most digits that a number may have to be written out. -/
def longestNumber : Nat := 4300

mutual

/-- Whether every number in a value can be written out. -/
def isWritable : Value → Bool
  | .int i => i.natAbs < 10 ^ longestNumber
  | .list items => areWritable items
  | .object fields => fieldsAreWritable fields
  | .null | .bool _ | .float _ | .str _ => true
termination_by structural v => v

/-- Whether every number in the items of a list can be written out. -/
def areWritable : List Value → Bool
  | [] => true
  | v :: rest => v.isWritable && areWritable rest
termination_by structural vs => vs

/-- Whether every number in the fields of an object can be written out. -/
def fieldsAreWritable : List (String × Value) → Bool
  | [] => true
  | (_, v) :: rest => v.isWritable && fieldsAreWritable rest
termination_by structural fs => fs

end

end Value

end SymbolAtlas
