import SymbolAtlas.Value

/-!
# Spans

A span is the range of byte offsets that a construct covers in its source, both ends included.  A
node states it as a pair, as an object with two ends, or through the positions of its location.
-/

namespace SymbolAtlas

/-- An offset as it is written: an integer, or a truth value that counts as one or zero. -/
inductive Offset where
  | number (n : Int)
  | flag (b : Bool)
  deriving DecidableEq, Repr, Inhabited

namespace Offset

/-- The integer that an offset denotes. -/
def value : Offset → Int
  | .number n => n
  | .flag b => if b then 1 else 0

/-- The offset that a value writes. -/
def ofValue? : Value → Option Offset
  | .int n => some (.number n)
  | .bool b => some (.flag b)
  | _ => none

/-- The offset as it was written. -/
def toValue : Offset → Value
  | .number n => .int n
  | .flag b => .bool b

end Offset

/-- The byte offsets from `start` to `stop`, both included. -/
structure Span where
  start : Offset
  stop : Offset
  deriving DecidableEq, Repr, Inhabited

namespace Span

/-- A span between two integers. -/
def between (start stop : Int) : Span :=
  ⟨.number start, .number stop⟩

/-- Whether an offset lies in the span. -/
def contains (s : Span) (offset : Int) : Bool :=
  s.start.value ≤ offset && offset ≤ s.stop.value

/-- The span between two written offsets, which have to be in order. -/
def ofEnds? (start stop : Value) : Option Span :=
  match Offset.ofValue? start, Offset.ofValue? stop with
  | some a, some b => if a.value ≤ b.value then some ⟨a, b⟩ else none
  | _, _ => none

/-- The span of a node that states it through the positions of its location. -/
def ofLocation? (location : Value) : Option Span :=
  match location.field "start", location.field "end" with
  | .object s, .object e =>
    ofEnds? ((Ledger.get? s "offset").getD .null) ((Ledger.get? e "offset").getD .null)
  | _, _ => none

/-- The span of a node.  Its location counts only if no pair and no object states the range. -/
def ofNode? (node : Value) : Option Span :=
  match node.field "range" with
  | .object fields =>
    ofEnds? ((Ledger.get? fields "start").getD .null) ((Ledger.get? fields "end").getD .null)
  | .list [start, stop] => ofEnds? start stop
  | _ => ofLocation? (node.field "loc")

/-- The pair of offsets as they were written. -/
def toValue (s : Span) : Value :=
  .list [s.start.toValue, s.stop.toValue]

end Span

end SymbolAtlas
