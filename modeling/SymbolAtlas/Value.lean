import SymbolAtlas.Ledger
import SymbolAtlas.Number.Double

/-!
# Values

The trees that parsers hand over, snapshots and configuration documents are all made of the same
plain values.  An object keeps its fields in the order in which they were written, because the
order decides in which order declarations are found.
-/

namespace SymbolAtlas

/-- A plain value; the fields of an object are in written order. -/
inductive Value where
  | null
  | bool (b : Bool)
  | int (i : Int)
  | float (x : Double)
  | str (s : String)
  | list (items : List Value)
  | object (fields : List (String × Value))
  deriving Inhabited

namespace Value

/-- The value of a field; nothing if the field is absent or the value is no object. -/
def field? : Value → String → Option Value
  | .object fields, key => Ledger.get? fields key
  | _, _ => none

/-- The value of a field, `null` standing for an absent one. -/
def field (v : Value) (key : String) : Value :=
  (v.field? key).getD .null

/-- Whether the value is an object. -/
def isObject : Value → Bool
  | .object _ => true
  | _ => false

/-- The text of a string value. -/
def text? : Value → Option String
  | .str s => some s
  | _ => none

/-- The items of a list value. -/
def items? : Value → Option (List Value)
  | .list xs => some xs
  | _ => none

/-- Null, false, zero and everything empty count as false. -/
def truthy : Value → Bool
  | .null => false
  | .bool b => b
  | .int i => i != 0
  | .float x => !x.isZero
  | .str s => s != ""
  | .list xs => !xs.isEmpty
  | .object fields => !fields.isEmpty

/-- A text or nothing as a value. -/
def ofText? : Option String → Value
  | some s => .str s
  | none => .null

/-- A natural number or nothing as a value. -/
def ofNat? : Option Nat → Value
  | some n => .int n
  | none => .null

/-- A list of natural numbers as a value. -/
def ofNats (ns : List Nat) : Value :=
  .list (ns.map fun n : Nat => .int n)

end Value

end SymbolAtlas
