import SymbolAtlas.Symbol.Kind
import SymbolAtlas.Symbol.Qualified
import SymbolAtlas.Symbol.Span
import SymbolAtlas.Text.Quoted

/-!
# Entities

An entity is a file, something declared in it, or an include directive.  Files, namespaces,
classes, functions and blocks are scopes: they own other entities and show them in seven member
lists.  Entities refer to each other by their number in the outline of their file, so a whole file
is one value.
-/

namespace SymbolAtlas

/-- The kinds of scopes. -/
inductive ScopeKind where
  | file
  | namespaceScope
  | classScope
  /-- A method is a function that is declared directly in the body of a class. -/
  | functionScope (isMethod : Bool)
  | block
  deriving DecidableEq, Repr, Inhabited

/-- The seven member lists of a scope, by entity number. -/
structure Members where
  vars : List Nat := []
  defines : List Nat := []
  functions : List Nat := []
  classes : List Nat := []
  interfaces : List Nat := []
  traits : List Nat := []
  blocks : List Nat := []
  deriving DecidableEq, Repr, Inhabited

namespace Members

/-- One of the lists. -/
def get (m : Members) : MemberList → List Nat
  | .vars => m.vars
  | .defines => m.defines
  | .functions => m.functions
  | .classes => m.classes
  | .interfaces => m.interfaces
  | .traits => m.traits
  | .blocks => m.blocks

/-- Replaces one of the lists. -/
def set (m : Members) (list : MemberList) (ids : List Nat) : Members :=
  match list with
  | .vars => { m with vars := ids }
  | .defines => { m with defines := ids }
  | .functions => { m with functions := ids }
  | .classes => { m with classes := ids }
  | .interfaces => { m with interfaces := ids }
  | .traits => { m with traits := ids }
  | .blocks => { m with blocks := ids }

/-- Puts a member at the end of one of the lists. -/
def push (m : Members) (list : MemberList) (id : Nat) : Members :=
  m.set list (m.get list ++ [id])

@[simp] theorem get_set_self (m : Members) (list : MemberList) (ids : List Nat) :
    (m.set list ids).get list = ids := by
  cases list <;> rfl

theorem get_set_of_ne (m : Members) {list other : MemberList} (ids : List Nat)
    (h : other ≠ list) : (m.set list ids).get other = m.get other := by
  cases list <;> cases other <;> simp_all [set, get]

@[simp] theorem get_push_self (m : Members) (list : MemberList) (id : Nat) :
    (m.push list id).get list = m.get list ++ [id] := by
  simp [push]

theorem get_push_of_ne (m : Members) {list other : MemberList} (id : Nat) (h : other ≠ list) :
    (m.push list id).get other = m.get other := by
  simp [push, get_set_of_ne m _ h]

end Members

/-- What a scope holds: the entities it owns, its member lists, and whether they are closed. -/
structure Body where
  children : List Nat := []
  members : Members := {}
  /-- A closed scope shows its members and takes no more of them. -/
  closed : Bool := false
  deriving DecidableEq, Repr, Inhabited

/-- Where an include directive leads. -/
inductive Link where
  /-- It has not been looked up yet. -/
  | pending
  /-- It was looked up in vain. -/
  | unresolved
  /-- It leads to the file with this number in its index. -/
  | file (number : Nat)
  deriving DecidableEq, Repr, Inhabited

/-- An include directive. -/
structure Inclusion where
  /-- The literal path if the directive names one, and its target expression otherwise. -/
  target : Value := .null
  once : Bool := false
  require : Bool := false
  link : Link := .pending
  deriving Inhabited

/-- The literal path of a directive, if its target is one. -/
def Inclusion.path? (i : Inclusion) : Option String :=
  i.target.text?

/-- What an entity carries besides its name, span and documentation. -/
inductive Detail where
  | scope (kind : ScopeKind) (body : Body)
  | variable
  | external (inclusion : Inclusion)
  deriving Inhabited

/-- A file, a declaration in it, or an include directive. -/
structure Entity where
  detail : Detail
  name : Option String := none
  /-- The number of the scope that owns the entity; a file has no owner. -/
  parent : Option Nat := none
  span : Option Span := none
  doc : Option String := none
  deriving Inhabited

namespace ScopeKind

/-- The kind of an entity that is such a scope. -/
def kind : ScopeKind → Kind
  | file => .file
  | namespaceScope => .namespaceDecl
  | classScope => .classDecl
  | functionScope _ => .functionDecl
  | block => .block

/-- The word for such a scope in messages. -/
def word : ScopeKind → String
  | file => "File"
  | namespaceScope => "Namespace"
  | classScope => "ClassEntity"
  | functionScope _ => "FunctionEntity"
  | block => "Block"

end ScopeKind

namespace Entity

/-- The kind of an entity. -/
def kind (e : Entity) : Kind :=
  match e.detail with
  | .scope k _ => k.kind
  | .variable => .variableDecl
  | .external _ => .external

/-- The kind of scope, if the entity is one. -/
def scopeKind? (e : Entity) : Option ScopeKind :=
  match e.detail with
  | .scope k _ => some k
  | _ => none

/-- What a scope holds. -/
def body? (e : Entity) : Option Body :=
  match e.detail with
  | .scope _ b => some b
  | _ => none

/-- Whether the entity is a scope. -/
def isScope (e : Entity) : Bool :=
  e.body?.isSome

/-- The include directive, if the entity is one. -/
def inclusion? (e : Entity) : Option Inclusion :=
  match e.detail with
  | .external i => some i
  | _ => none

/-- Changes what a scope holds; other entities stay as they are. -/
def mapBody (f : Body → Body) (e : Entity) : Entity :=
  match e.detail with
  | .scope k b => { e with detail := .scope k (f b) }
  | _ => e

/-- Changes an include directive; other entities stay as they are. -/
def mapInclusion (f : Inclusion → Inclusion) (e : Entity) : Entity :=
  match e.detail with
  | .external i => { e with detail := .external (f i) }
  | _ => e

/-- The entities that a scope owns, in order of declaration. -/
def children (e : Entity) : List Nat :=
  match e.body? with
  | some b => b.children
  | none => []

/-- One of the member lists of a scope. -/
def members (e : Entity) (list : MemberList) : List Nat :=
  match e.body? with
  | some b => b.members.get list
  | none => []

/-- A new namespace, stored under its canonical name. -/
def newNamespace (name : String) (span : Option Span) (doc : Option String) : Entity where
  detail := .scope .namespaceScope {}
  name := some (Qualified.canonical name)
  span := span
  doc := doc

/-- The word for an entity in messages. -/
def word (e : Entity) : String :=
  match e.detail with
  | .scope k _ => k.word
  | .variable => "Variable"
  | .external _ => "ExternalReference"

/-- How messages refer to an entity: its word, its quoted name if it has one, and its number. -/
def label (e : Entity) (number : Option Nat) : String :=
  let named := match e.name with
    | some n => " " ++ Text.quoted n
    | none => ""
  let numbered := match number with
    | some n => toString n
    | none => "None"
  "<" ++ e.word ++ named ++ " #" ++ numbered ++ ">"

end Entity

end SymbolAtlas
