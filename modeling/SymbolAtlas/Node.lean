import SymbolAtlas.Symbol.Span

/-!
# Classified nodes

A parser hands over a tree of plain values in which a node is an object with a textual `kind`.  A
classified node is what such a node means for the index: documentation, a declaration with its
body, branches with blocks of their own, or something else that may hold declarations in its
fields.
-/

namespace SymbolAtlas

/-- What is known of every node besides its meaning. -/
structure Heading where
  /-- The kind as it is written. -/
  tag : String
  /-- The name, if the node states one. -/
  name : Option String := none
  /-- The span, if the node states a valid one. -/
  span : Option Span := none
  /-- The range as it is written, `null` if there is none. -/
  range : Value := .null
  deriving Inhabited

/-- What a node means for the index. -/
inductive Node where
  /-- A documentation comment with its text. -/
  | documentation (heading : Heading) (text : String)
  /-- A comment that documents nothing. -/
  | remark (heading : Heading)
  /-- A class with its body. -/
  | classNode (heading : Heading) (body : List Node)
  /-- A function with its body. -/
  | functionNode (heading : Heading) (body : List Node)
  /-- A method with its body.  Outside of a class only the fields count, as for `other`. -/
  | methodNode (heading : Heading) (body : List Node) (fields : List Node)
  /-- A namespace with what it holds. -/
  | namespaceNode (heading : Heading) (body : List Node)
  /-- An include directive. -/
  | includeNode (heading : Heading) (target : Value) (once require : Bool)
  /-- An assignment to a variable, whose name the heading carries. -/
  | assignment (heading : Heading)
  /-- Branches, each with the span and the nodes of its block. -/
  | branches (heading : Heading) (arms : List (Option Span × List Node))
  /-- Any other node, with the nodes in its fields. -/
  | other (heading : Heading) (fields : List Node)
  deriving Inhabited

/-- A branch: the span and the nodes of its block. -/
abbrev Arm := Option Span × List Node

namespace Node

/-- The heading of a node. -/
def heading : Node → Heading
  | documentation h _ => h
  | remark h => h
  | classNode h _ => h
  | functionNode h _ => h
  | methodNode h _ _ => h
  | namespaceNode h _ => h
  | includeNode h _ _ _ => h
  | assignment h => h
  | branches h _ => h
  | other h _ => h

end Node

end SymbolAtlas
