import SymbolAtlas.ParseTree
import SymbolAtlas.Value

/-!
# From parse trees to tagged trees

The tagged tree keeps what the index looks at: comments, namespaces, declarations, branches,
includes and assignments get a shape of their own, and every other named node keeps its type and
its named children.  A namespace without a body takes in the statements that follow it.

Conversion goes from the leaves upwards: a `Rendered` tree carries, at every node, the tagged tree
of that node, and a parent is put together from its rendered children.
-/

namespace SymbolAtlas

/-- A parse tree with the tagged tree of every node. -/
inductive Rendered where
  | node (label : TreeLabel) (value : Value) (children : List Rendered)
  deriving Inhabited

namespace Rendered

/-- The label at the root. -/
def label : Rendered → TreeLabel
  | node l _ _ => l

/-- The tagged tree of the root. -/
def value : Rendered → Value
  | node _ v _ => v

/-- The children of the root. -/
def children : Rendered → List Rendered
  | node _ _ cs => cs

/-- The children that are more than tokens. -/
def namedOf (cs : List Rendered) : List Rendered :=
  cs.filter (fun c => c.label.named)

/-- The first child with a role. -/
def child? (cs : List Rendered) (role : String) : Option Rendered :=
  cs.find? (fun c => c.label.field == some role)

/-- The tagged tree of the first child with a role. -/
def childValue (cs : List Rendered) (role : String) : Value :=
  ((child? cs role).map value).getD .null

/-- The text of the first child with a role. -/
def childText? (cs : List Rendered) (role : String) : Option String :=
  (child? cs role).map fun c => c.label.text

end Rendered

namespace TreeLabel

/-- The range of a node as a pair. -/
def range (l : TreeLabel) : Value :=
  .list [.int l.start, .int l.stop]

/-- The fields that every tagged node starts with. -/
def tagged (l : TreeLabel) (kind : String) (fields : Ledger Value) : Value :=
  .object (("kind", .str kind) :: ("range", l.range) :: fields)

end TreeLabel

namespace ParseTree

open Rendered

/-- A node without a shape of its own. -/
def genericNode (l : TreeLabel) (cs : List Rendered) : Value :=
  l.tagged l.type [("children", .list ((namedOf cs).map value))]

/-- A comment, which is documentation if it opens like it. -/
def commentNode (l : TreeLabel) : Value :=
  if l.text.toList.take 3 = ['/', '*', '*'] then l.tagged "doc" [("body", .str l.text)]
  else l.tagged "comment" [("value", .str l.text)]

/-! ## Statement lists and namespaces -/

/-- Whether a statement opens a namespace that takes in what follows it. -/
def opensNamespace (r : Rendered) : Bool :=
  r.label.type = "namespace_definition" && (child? r.children "body").isNone

/-- A namespace without a body that has taken in statements, given the end of its range. -/
def openNamespace (r : Rendered) (stop : Int) (taken : List Value) : Value :=
  .object
    [("kind", .str "namespace"), ("range", .list [.int r.label.start, .int stop]),
     ("name", .str ((childText? r.children "name").getD "")), ("children", .list taken)]

/-- Whether a statement is no namespace of either form. -/
def isPlainStatement (r : Rendered) : Bool :=
  r.label.type ≠ "namespace_definition"

/-- A namespace without a body that is open: where it was met, the end of its range so far, and the
statements that it has taken in. -/
structure OpenNamespace where
  heading : Rendered
  stop : Int
  taken : List Value := []

/-- An open namespace takes in a statement. -/
def OpenNamespace.take (o : OpenNamespace) (r : Rendered) : OpenNamespace :=
  { o with stop := max o.stop r.label.stop, taken := o.taken ++ [r.value] }

/-- The tagged tree of an open namespace. -/
def OpenNamespace.value (o : OpenNamespace) : Value :=
  openNamespace o.heading o.stop o.taken

/-- The statements that were converted so far.  A namespace that is open is the last of them. -/
structure Gathering where
  done : List Value := []
  current : Option OpenNamespace := none

namespace Gathering

/-- The tagged trees of the statements. -/
def result (g : Gathering) : List Value :=
  g.done ++ (g.current.map OpenNamespace.value).toList

/-- Converts one more statement.  It goes to the namespace that is open, if any; a namespace of
either form closes that one first. -/
def add (g : Gathering) (r : Rendered) : Gathering :=
  if opensNamespace r then
    { done := g.result, current := some { heading := r, stop := r.label.stop } }
  else
    let g := if isPlainStatement r then g else { done := g.result }
    match g.current with
    | some o => { g with current := some (o.take r) }
    | none => { g with done := g.done ++ [r.value] }

end Gathering

/-- Converts a statement list: a namespace without a body takes in what follows it. -/
def statements (rs : List Rendered) : List Value :=
  (rs.foldl Gathering.add {}).result

/-- A namespace by itself. -/
def namespaceNode (l : TreeLabel) (cs : List Rendered) : Value :=
  let body := match child? cs "body" with
    | some b => statements (namedOf b.children)
    | none => []
  l.tagged "namespace"
    [("name", .str ((childText? cs "name").getD "")), ("children", .list body)]

/-! ## Declarations and branches -/

/-- A class, interface, trait, function or method. -/
def declarationNode (kind : String) (l : TreeLabel) (cs : List Rendered) : Value :=
  l.tagged kind [("name", Value.ofText? (childText? cs "name")), ("body", childValue cs "body")]

/-- A statement that only wraps an expression is that expression. -/
def expressionStatement (l : TreeLabel) (cs : List Rendered) : Value :=
  match namedOf cs with
  | [only] => only.value
  | _ => genericNode l cs

/-- The further branches of an `if`, each nested in the one before it. -/
def alternate : List Rendered → Value
  | [] => .null
  | clause :: rest =>
    if clause.label.type = "else_if_clause" then
      clause.label.tagged "if"
        [("test", childValue clause.children "condition"),
         ("body", childValue clause.children "body"),
         ("alternate", alternate rest)]
    else childValue clause.children "body"

/-- An `if` with its further branches. -/
def ifNode (l : TreeLabel) (cs : List Rendered) : Value :=
  l.tagged "if"
    [("test", childValue cs "condition"), ("body", childValue cs "body"),
     ("alternate", alternate (cs.filter fun c => c.label.field == some "alternative"))]

/-- A `try` with its handlers and its final block; of several final blocks the last one counts. -/
def tryNode (l : TreeLabel) (cs : List Rendered) : Value :=
  let named := namedOf cs
  let catches := (named.filter fun c => c.label.type = "catch_clause").map fun c =>
    c.label.tagged "catch" [("body", childValue c.children "body")]
  let finals := (named.filter fun c => c.label.type = "finally_clause").map fun c =>
    childValue c.children "body"
  l.tagged "try"
    [("body", childValue cs "body"), ("catches", .list catches),
     ("always", (finals.getLast?).getD .null)]

/-! ## Includes and assignments -/

/-- Whether an include directive runs once and whether it insists on its target. -/
def includeFlags? (type : String) : Option (Bool × Bool) :=
  match type with
  | "include_expression" => some (false, false)
  | "include_once_expression" => some (true, false)
  | "require_expression" => some (false, true)
  | "require_once_expression" => some (true, true)
  | _ => none

/-- The parts of a string that holds no expression. -/
def isPlainPart (r : Rendered) : Bool :=
  ["string_content", "string_value", "escape_sequence"].contains r.label.type

/-- The text without the quotes around it. -/
def unquoted (text : String) : String :=
  let chars := text.toList
  match chars.head?, chars.getLast? with
  | some a, some b =>
    if 2 ≤ chars.length && a = b && (a = '\'' || a = '"') then
      String.ofList (chars.drop 1).dropLast
    else text
  | _, _ => text

/-- The target of an include: a string without expressions is a literal path. -/
def targetValue (r : Rendered) : Value :=
  let l := r.label
  if (l.type = "string" || l.type = "encapsed_string") && (namedOf r.children).all isPlainPart then
    l.tagged "string" [("value", .str (unquoted l.text))]
  else r.value

mutual

/-- The target inside any parentheses. -/
def insideParens : Rendered → Value
  | .node l v cs =>
    if l.type = "parenthesized_expression" then
      match firstNamedTarget cs with
      | some inner => inner
      | none => targetValue (.node l v cs)
    else targetValue (.node l v cs)
termination_by structural r => r

/-- The target that the first named tree of several stands for. -/
def firstNamedTarget : List Rendered → Option Value
  | [] => none
  | r :: rest => if r.label.named then some (insideParens r) else firstNamedTarget rest
termination_by structural rs => rs

end

/-- An include directive. -/
def includeNode (l : TreeLabel) (once require : Bool) (cs : List Rendered) : Value :=
  l.tagged "include"
    [("once", .bool once), ("require", .bool require),
     ("target", (firstNamedTarget cs).getD .null)]

/-- The left side of an assignment; a plain variable is known by its name. -/
def leftValue (left : Option Rendered) : Value :=
  match left with
  | none => .object []
  | some r =>
    if r.label.type = "variable_name" then
      r.label.tagged "variable"
        [("name", .str (String.ofList (r.label.text.toList.dropWhile (· = '$'))))]
    else r.value

/-- An assignment. -/
def assignNode (l : TreeLabel) (cs : List Rendered) : Value :=
  l.tagged "assign" [("left", leftValue (child? cs "left")), ("right", childValue cs "right")]

/-! ## The whole tree -/

/-- The tagged tree of a node, given its rendered children. -/
def tagNode (l : TreeLabel) (cs : List Rendered) : Value :=
  match l.type with
  | "comment" => commentNode l
  | "namespace_definition" => namespaceNode l cs
  | "class_declaration" => declarationNode "class" l cs
  | "interface_declaration" => declarationNode "interface" l cs
  | "trait_declaration" => declarationNode "trait" l cs
  | "function_definition" => declarationNode "function" l cs
  | "method_declaration" => declarationNode "method" l cs
  | "expression_statement" => expressionStatement l cs
  | "if_statement" => ifNode l cs
  | "try_statement" => tryNode l cs
  | "assignment_expression" => assignNode l cs
  | type =>
    match includeFlags? type with
    | some (once, require) => includeNode l once require cs
    | none => genericNode l cs

mutual

/-- Renders a tree from its leaves upwards. -/
def render : ParseTree → Rendered
  | node l cs =>
    let rendered := renderAll cs
    .node l (tagNode l rendered) rendered
termination_by structural t => t

/-- Renders several trees. -/
def renderAll : List ParseTree → List Rendered
  | [] => []
  | t :: rest => render t :: renderAll rest
termination_by structural ts => ts

end

/-- The tagged tree of a node. -/
def convert (t : ParseTree) : Value :=
  t.render.value

/-- The tagged tree of a whole source. -/
def program (t : ParseTree) : Value :=
  t.label.tagged "program" [("children", .list (statements (namedOf (renderAll t.children))))]

/-- A source that does not follow the grammar. -/
structure SourceError where
  name : String
  offset : Int
  deriving DecidableEq, Repr, Inhabited

/-- The wording of a source error. -/
def SourceError.message (e : SourceError) : String :=
  "syntax error in " ++ e.name ++ " at offset " ++ toString e.offset

/-- Where a tree that has an error goes wrong first. -/
def errorOffset (t : ParseTree) : Int :=
  t.firstError?.getD t.label.start

/-- The tagged tree of a source, or its first error if errors are not tolerated. -/
def accept (t : ParseTree) (name : String) (strict hasError : Bool) : Except SourceError Value :=
  if hasError && strict then .error ⟨name, t.errorOffset⟩ else .ok t.program

end ParseTree

end SymbolAtlas
