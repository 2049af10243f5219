import SymbolAtlas.Outline
import SymbolAtlas.Node

/-!
# Filling an outline

Walking nodes into a scope adds their declarations to the outline, in the order in which they are
written.  Each scope body has one pending documentation text: documentation replaces it, and any
other node takes it, whether or not it has a use for it.  A node that cannot be entered is refused
and reported; what was already added for it stays, and the walk goes on with the next node.
-/

namespace SymbolAtlas

/-- Why a node was refused. -/
inductive Fault where
  /-- A member list is closed. -/
  | closed
  /-- A namespace stands outside of every file. -/
  | noFile
  /-- A scope, given by its label, lies in no namespace. -/
  | noNamespace (label : String)
  deriving DecidableEq, Repr, Inhabited

/-- The wording of a fault. -/
def Fault.message : Fault → String
  | .closed => "'tuple' object has no attribute 'append'"
  | .noFile => "namespace outside of a file"
  | .noNamespace label => label ++ " has no enclosing namespace"

/-- The report on a node that was refused. -/
structure Refusal where
  heading : Heading
  fault : Fault
  deriving Inhabited

/-- An outline on its way, with the refusals so far. -/
structure Walk where
  outline : Outline
  refusals : List Refusal := []
  deriving Inhabited

/-- What walking one node leads to. -/
structure Visit where
  walk : Walk
  /-- The documentation text that is pending afterwards. -/
  pending : Option String := none
  fault : Option Fault := none
  deriving Inhabited

namespace Outline

/-- Adds an entity to a scope, shows it in one of the lists of the scope and, if it is shared, in
that list of the enclosing namespace too. -/
def declare (o : Outline) (scope : Nat) (e : Entity) (list : MemberList) (shared : Bool) :
    Outline × Nat × Option Fault :=
  let (o, id) := o.add scope e
  match o.show? scope list id with
  | none => (o, id, some .closed)
  | some o =>
    if shared && !o.isNamespace scope then
      match o.namespaceOf scope with
      | none => (o, id, some (.noNamespace (o.label scope)))
      | some ns =>
        match o.show? ns list id with
        | none => (o, id, some .closed)
        | some o => (o, id, none)
    else (o, id, none)

/-- Adds a namespace to the file around a scope, whatever the scope is. -/
def declareNamespace (o : Outline) (scope : Nat) (e : Entity) : Outline × Nat × Option Fault :=
  match o.fileOf scope with
  | none => (o, 0, some .noFile)
  | some file =>
    let (o, id) := o.add file e
    match o.showNamespace? id with
    | none => (o, id, some .closed)
    | some o => (o, id, none)

/-- Adds an include directive to a scope and lists it for the file around it. -/
def declareExternal (o : Outline) (scope : Nat) (e : Entity) : Outline × Option Fault :=
  let file := o.fileOf scope
  let (o, id) := o.add scope e
  match file with
  | none => (o, none)
  | some _ =>
    match o.showExternal? id with
    | none => (o, some .closed)
    | some o => (o, none)

end Outline

namespace Heading

/-- The scope that a heading declares. -/
def scope (h : Heading) (kind : ScopeKind) (doc : Option String) : Entity where
  detail := .scope kind {}
  name := h.name
  span := h.span
  doc := doc

/-- The namespace that a heading declares. -/
def namespaceEntity (h : Heading) (doc : Option String) : Entity :=
  Entity.newNamespace (h.name.getD "") h.span doc

/-- The variable that a heading declares. -/
def variableEntity (h : Heading) (doc : Option String) : Entity where
  detail := .variable
  name := h.name
  span := h.span
  doc := doc

/-- The include directive that a heading declares. -/
def externalEntity (h : Heading) (target : Value) (once require : Bool) (doc : Option String) :
    Entity where
  detail := .external { target := target, once := once, require := require }
  span := h.span
  doc := doc

end Heading

namespace Walk

/-- Reports a refused node. -/
def report (w : Walk) (h : Heading) : Option Fault → Walk
  | none => w
  | some fault => { w with refusals := w.refusals ++ [{ heading := h, fault := fault }] }

mutual

/-- Walks one node into a scope while a documentation text may be pending. -/
def visit (scope : Nat) (pending : Option String) (w : Walk) : Node → Visit
  | .documentation _ text => { walk := w, pending := some text }
  | .remark _ => { walk := w, pending := pending }
  | .classNode h body =>
    match w.outline.declare scope (h.scope .classScope pending) .classes true with
    | (o, _, some fault) => { walk := { w with outline := o }, fault := some fault }
    | (o, id, none) => { walk := (visitAll id none { w with outline := o } body).1 }
  | .functionNode h body =>
    match w.outline.declare scope (h.scope (.functionScope false) pending) .functions true with
    | (o, _, some fault) => { walk := { w with outline := o }, fault := some fault }
    | (o, id, none) => { walk := (visitAll id none { w with outline := o } body).1 }
  | .methodNode h body fields =>
    if w.outline.isClass scope then
      match w.outline.declare scope (h.scope (.functionScope true) pending) .functions false with
      | (o, _, some fault) => { walk := { w with outline := o }, fault := some fault }
      | (o, id, none) => { walk := (visitAll id none { w with outline := o } body).1 }
    else
      let (w, pending) := visitAll scope none w fields
      { walk := w, pending := pending }
  | .namespaceNode h body =>
    match w.outline.declareNamespace scope (h.namespaceEntity pending) with
    | (o, _, some fault) => { walk := { w with outline := o }, fault := some fault }
    | (o, id, none) => { walk := (visitAll id none { w with outline := o } body).1 }
  | .includeNode h target once require =>
    let (o, fault) :=
      w.outline.declareExternal scope (h.externalEntity target once require pending)
    { walk := { w with outline := o }, fault := fault }
  | .assignment h =>
    let (o, _, fault) := w.outline.declare scope (h.variableEntity pending) .vars false
    { walk := { w with outline := o }, fault := fault }
  | .branches _ arms =>
    let (w, fault) := visitArms scope w arms
    { walk := w, fault := fault }
  | .other _ fields =>
    let (w, pending) := visitAll scope none w fields
    { walk := w, pending := pending }
termination_by structural n => n

/-- Walks nodes into a scope one after the other, reporting those that are refused. -/
def visitAll (scope : Nat) (pending : Option String) (w : Walk) :
    List Node → Walk × Option String
  | [] => (w, pending)
  | n :: rest =>
    let v := visit scope pending w n
    visitAll scope v.pending (v.walk.report n.heading v.fault) rest
termination_by structural ns => ns

/-- Walks each branch into a block of its own, up to the first that is refused. -/
def visitArms (scope : Nat) (w : Walk) : List (Option Span × List Node) → Walk × Option Fault
  | [] => (w, none)
  | (span, body) :: rest =>
    match w.outline.declare scope { detail := .scope .block {}, span := span } .blocks false with
    | (o, _, some fault) => ({ w with outline := o }, some fault)
    | (o, id, none) => visitArms scope (visitAll id none { w with outline := o } body).1 rest
termination_by structural arms => arms

end

end Walk

/-- Walks nodes into a scope that starts without a pending documentation text. -/
def Outline.populate (o : Outline) (scope : Nat) (nodes : List Node) : Walk :=
  (Walk.visitAll scope none { outline := o } nodes).1

end SymbolAtlas
