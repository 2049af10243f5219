import SymbolAtlas.Encoding.Utf8

/-!
# Parse trees

The concrete parse tree of a PHP source, as a grammar delivers it: every node has a type, a range
of bytes and possibly a field name that tells its role in its parent.  Nodes of type `ERROR` and
missing nodes mark places where the source does not follow the grammar.
-/

namespace SymbolAtlas

/-- What is known of a node of a parse tree besides its children. -/
structure TreeLabel where
  type : String
  start : Int
  stop : Int
  /-- Whether the node is more than a token. -/
  named : Bool := true
  /-- The role of the node in its parent. -/
  field : Option String := none
  /-- Whether the node was made up because the source lacks it. -/
  missing : Bool := false
  /-- The source text of the node. -/
  text : String := ""
  deriving Inhabited

/-- A concrete parse tree. -/
inductive ParseTree where
  | node (label : TreeLabel) (children : List ParseTree)
  deriving Inhabited

namespace ParseTree

/-- The label at the root. -/
def label : ParseTree → TreeLabel
  | node l _ => l

/-- The children of the root. -/
def children : ParseTree → List ParseTree
  | node _ cs => cs

end ParseTree

/-- Whether a node marks an error. -/
def TreeLabel.isError (l : TreeLabel) : Bool :=
  l.type = "ERROR" || l.missing

namespace ParseTree

mutual

/-- Where the first error mark lies, in the order of the source. -/
def firstError? : ParseTree → Option Int
  | node l cs => if l.isError then some l.start else firstErrorAmong? cs
termination_by structural t => t

/-- Where the first error mark among several trees lies. -/
def firstErrorAmong? : List ParseTree → Option Int
  | [] => none
  | t :: rest => (firstError? t).or (firstErrorAmong? rest)
termination_by structural ts => ts

end

/-- The bytes of a source between two offsets. -/
def slice (source : List UInt8) (start stop : Int) : List UInt8 :=
  (source.take stop.toNat).drop start.toNat

end ParseTree

end SymbolAtlas
