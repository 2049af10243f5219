/-!
# Kinds of entities

The closed set of tags an entity can carry, and the seven member lists of a scope.
-/

namespace SymbolAtlas

/-- What an entity is. -/
inductive Kind where
  | file
  | namespaceDecl
  | classDecl
  | interfaceDecl
  | traitDecl
  | functionDecl
  | variableDecl
  | block
  | external
  | define
  deriving DecidableEq, Repr, Inhabited

namespace Kind

/-- The written tag of a kind. -/
def tag : Kind → String
  | file => "file"
  | namespaceDecl => "namespace"
  | classDecl => "class"
  | interfaceDecl => "interface"
  | traitDecl => "trait"
  | functionDecl => "function"
  | variableDecl => "variable"
  | block => "block"
  | external => "external"
  | define => "define"

/-- Every kind. -/
def all : List Kind :=
  [file, namespaceDecl, classDecl, interfaceDecl, traitDecl, functionDecl, variableDecl, block,
    external, define]

/-- The kind with a written tag; an unknown tag names none. -/
def ofTag? (s : String) : Option Kind :=
  all.find? (fun k => k.tag = s)

/-- A kind's tag names that kind. -/
@[simp] theorem ofTag?_tag (k : Kind) : ofTag? k.tag = some k := by
  cases k <;> decide

/-- Only a kind's own tag names it. -/
theorem tag_of_ofTag? {s : String} {k : Kind} (h : ofTag? s = some k) : k.tag = s := by
  simpa using List.find?_some h

end Kind

/-- The lists in which a scope shows its members. -/
inductive MemberList where
  | vars
  | defines
  | functions
  | classes
  | interfaces
  | traits
  | blocks
  deriving DecidableEq, Repr, Inhabited

namespace MemberList

/-- The written name of a list. -/
def name : MemberList → String
  | vars => "variables"
  | defines => "defines"
  | functions => "functions"
  | classes => "classes"
  | interfaces => "interfaces"
  | traits => "traits"
  | blocks => "blocks"

/-- Every list, in the order in which they are written. -/
def all : List MemberList :=
  [vars, defines, functions, classes, interfaces, traits, blocks]

/-- The list with a written name. -/
def ofName? (s : String) : Option MemberList :=
  all.find? (fun l => l.name = s)

/-- A list's name names that list. -/
@[simp] theorem ofName?_name (l : MemberList) : ofName? l.name = some l := by
  cases l <;> decide

end MemberList

end SymbolAtlas
