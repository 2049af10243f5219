import SymbolAtlas.Node
import SymbolAtlas.Value.Display

/-!
# From values to classified nodes

`Reading.ofValue` reads a value once, from its leaves upwards.  A list contributes the nodes among
its items, a node contributes itself, and any other value contributes nothing.  Along with its
nodes a value's reading keeps the blocks it could supply to a `try`: for an object its own body,
for a list those of its items.
-/

namespace SymbolAtlas

/-- What a value contributes. -/
structure Reading where
  value : Value
  /-- The nodes that the value contributes to the scope that holds it. -/
  nodes : List Node := []
  /-- Of an object: the block of its body. -/
  clause : Option Arm := none
  /-- Of a list: the blocks of its items. -/
  clauses : List Arm := []
  deriving Inhabited

namespace Reading

/-- The block that a value supplies to a branch: none if it counts as false. -/
def block? (r : Reading) : Option Arm :=
  if r.value.truthy then
    some ((if r.value.isObject then Span.ofNode? r.value else none), r.nodes)
  else none

/-- The reading of a field, that of `null` if it is absent. -/
def field (fields : Ledger Reading) (key : String) : Reading :=
  (fields.get? key).getD { value := .null }

end Reading

namespace Node

/-- The name that a node states, directly or through the name of an identifier node. -/
def nameOf (node : Value) : Option String :=
  match node.field "name" with
  | .str s => some s
  | .object fields => ((Ledger.get? fields "name").bind Value.text?)
  | _ => none

/-- Whether a text opens as a documentation comment does. -/
def opensDoc (s : String) : Bool :=
  s.toList.take 3 == ['/', '*', '*']

/-- Whether a comment that is not marked as documentation reads like it. -/
def readsLikeDoc (node : Value) : Bool :=
  let value := node.field "value"
  match (if value.truthy then value else node.field "body") with
  | .str s => opensDoc s
  | _ => false

/-- The first of body, value and lines that gives a text.  Lines with a number that is too long to
be written out give none. -/
def writtenDoc (node : Value) : Option String :=
  match node.field "body", node.field "value", node.field "lines" with
  | .str s, _, _ => some s
  | _, .str s, _ => some s
  | _, _, .list lines =>
    if Value.areWritable lines then some ("\n".intercalate (lines.map Value.display)) else none
  | _, _, _ => none

/-- The documentation text of a comment node; a plain comment has none. -/
def docText (tag : String) (node : Value) : Option String :=
  if tag = "comment" && !(node.field "isDoc").truthy && !readsLikeDoc node then none
  else writtenDoc node

/-- The literal path of an include target, or the target as it is. -/
def includeTarget (target : Value) : Value :=
  match target.field "kind", target.field "value" with
  | .str "string", .str path => .str path
  | _, _ => target

/-- What a node without a meaning of its own contributes: the nodes of its fields in written
order. -/
def fieldNodes (fields : Ledger Reading) : List Node :=
  (fields.filter (fun entry => entry.1 ≠ "kind")).flatMap (fun entry => entry.2.nodes)

/-- The blocks of an `if`. -/
def ifArms (fields : Ledger Reading) : List Arm :=
  [Reading.field fields "body", Reading.field fields "alternate"].filterMap Reading.block?

/-- The block that always runs at the end of a `try`; both spellings of its field are known. -/
def finalArm (fields : Ledger Reading) : Option Arm :=
  ((Reading.field fields "always").block?).or ((Reading.field fields "allways").block?)

/-- The blocks of a `try`. -/
def tryArms (fields : Ledger Reading) : List Arm :=
  (Reading.field fields "body").block?.toList ++ (Reading.field fields "catches").clauses ++
    (finalArm fields).toList

/-- The meaning of an object with a textual kind, given the readings of its fields. -/
def classify (tag : String) (node : Value) (fields : Ledger Reading) : Node :=
  let bare : Heading := { tag := tag, span := Span.ofNode? node, range := node.field "range" }
  let named : Heading := { bare with name := nameOf node }
  match tag with
  | "doc" | "comment" =>
    match docText tag node with
    | some text => .documentation bare text
    | none => .remark bare
  | "class" => .classNode named (Reading.field fields "body").nodes
  | "function" => .functionNode named (Reading.field fields "body").nodes
  | "method" => .methodNode named (Reading.field fields "body").nodes (fieldNodes fields)
  | "namespace" => .namespaceNode named (Reading.field fields "children").nodes
  | "include" =>
    .includeNode bare (includeTarget (node.field "target")) (node.field "once").truthy
      (node.field "require").truthy
  | "if" => .branches bare (ifArms fields)
  | "try" => .branches bare (tryArms fields)
  | "assign" =>
    match (node.field "left").field "kind" with
    | .str "variable" => .assignment { bare with name := nameOf (node.field "left") }
    | _ => .other bare (fieldNodes fields)
  | _ => .other bare (fieldNodes fields)

end Node

namespace Reading

/-- The reading of an object, given the readings of its fields. -/
def ofFields (fields : List (String × Value)) (read : Ledger Reading) : Reading where
  value := .object fields
  nodes :=
    match Ledger.get? fields "kind" with
    | some (.str tag) => [Node.classify tag (.object fields) read]
    | _ => []
  clause := (Reading.field read "body").block?

/-- The reading of a list, given the readings of its items. -/
def ofItems (items : List Value) (read : List Reading) : Reading where
  value := .list items
  nodes := (read.filter (fun r => r.value.isObject)).flatMap (·.nodes)
  clauses := read.filterMap (·.clause)

mutual

/-- Reads a value from its leaves upwards. -/
def ofValue : Value → Reading
  | .list items => ofItems items (readItems items)
  | .object fields => ofFields fields (readFields fields)
  | v => { value := v }
termination_by structural v => v

/-- Reads the items of a list. -/
def readItems : List Value → List Reading
  | [] => []
  | v :: rest => ofValue v :: readItems rest
termination_by structural vs => vs

/-- Reads the fields of an object. -/
def readFields : List (String × Value) → Ledger Reading
  | [] => []
  | (k, v) :: rest => (k, ofValue v) :: readFields rest
termination_by structural fs => fs

end

end Reading

/-- The nodes that a value contributes to the scope that holds it. -/
def Node.ofValue (v : Value) : List Node :=
  (Reading.ofValue v).nodes

end SymbolAtlas
