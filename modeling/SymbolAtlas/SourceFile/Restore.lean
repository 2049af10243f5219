import SymbolAtlas.SourceFile
import SymbolAtlas.Snapshot

/-!
# Files from snapshots

A snapshot of a file is taken back if its entities are numbered without gaps, the first is the file
and every other one is owned by an earlier scope, and if all numbers it mentions denote entities of
the right kind.  The order in which the entities are listed does not matter.
-/

namespace SymbolAtlas

/-- Why a snapshot of a file is not consistent. -/
inductive SnapshotFault where
  | gaps
  | noFile
  | noParent (id : Int)
  | badKind (id : Int) (kind : Kind)
  | noList (id : Int) (name : String)
  | dangling (id : Int)
  | noHome
  deriving DecidableEq, Repr, Inhabited

/-- The wording of an inconsistency. -/
def SnapshotFault.message : SnapshotFault → String
  | gaps => "entity ids are not contiguous"
  | noFile => "entity 0 must be the file"
  | noParent id => "entity " ++ toString id ++ " has no valid parent"
  | badKind id kind => "entity " ++ toString id ++ " has kind " ++ kind.tag
  | noList id name => "entity " ++ toString id ++ " has no list " ++ name
  | dangling id => "dangling entity reference " ++ toString id
  | noHome => "default namespace is missing"

namespace EntitySnapshot

/-- The span of an entity. -/
def span (e : EntitySnapshot) : Option Span :=
  e.range.map fun r => Span.between r.1 r.2

/-- A field of the payload, `null` standing for an absent one. -/
def payloadField (e : EntitySnapshot) (key : String) : Value :=
  (e.payload.get? key).getD .null

/-- What an entity of a kind carries; files, interfaces, traits and defines cannot be owned. -/
def detail? (e : EntitySnapshot) : Option Detail :=
  match e.kind with
  | .namespaceDecl => some (.scope .namespaceScope {})
  | .classDecl => some (.scope .classScope {})
  | .functionDecl => some (.scope (.functionScope (e.payloadField "is_method").truthy) {})
  | .block => some (.scope .block {})
  | .variableDecl => some .variable
  | .external =>
    some (.external
      { target := e.payloadField "target"
        once := (e.payloadField "once").truthy
        require := (e.payloadField "require").truthy })
  | _ => none

/-- The name under which an entity is restored; a namespace gets its canonical name. -/
def restoredName (e : EntitySnapshot) : Option String :=
  if e.kind = .namespaceDecl then some (Qualified.canonical (e.name.getD "")) else e.name

end EntitySnapshot

namespace Outline

/-- Adds the next listed entity below its owner. -/
def restoreEntity (o : Outline) (e : EntitySnapshot) : Except SnapshotFault Outline :=
  match e.parent with
  | none => .error (.noParent e.id)
  | some p =>
    if ((o.find? p).map Entity.isScope).getD false && p < e.id then
      match e.detail? with
      | none => .error (.badKind e.id e.kind)
      | some detail =>
        .ok (o.add p.toNat
          { detail := detail, name := e.restoredName, span := e.span, doc := e.doc }).1
    else .error (.noParent e.id)

/-- Adds the listed entities one after the other. -/
def restoreEntities (o : Outline) : List EntitySnapshot → Except SnapshotFault Outline
  | [] => .ok o
  | e :: rest =>
    match o.restoreEntity e with
    | .error fault => .error fault
    | .ok o => o.restoreEntities rest

/-- A mentioned number as the number of an entity of the right kind. -/
def member? (o : Outline) (fits : Nat → Bool) (id : Int) : Except SnapshotFault Nat :=
  if (o.find? id).isSome && fits id.toNat then .ok id.toNat else .error (.dangling id)

/-- Mentioned numbers as numbers of entities of the right kind. -/
def members? (o : Outline) (fits : Nat → Bool) : List Int → Except SnapshotFault (List Nat)
  | [] => .ok []
  | id :: rest =>
    match o.member? fits id with
    | .error fault => .error fault
    | .ok n =>
      match o.members? fits rest with
      | .error fault => .error fault
      | .ok ns => .ok (n :: ns)

/-- Restores the listed member lists of one entity. -/
def restoreLists (o : Outline) (id : Int) : Ledger (List Int) → Except SnapshotFault Outline
  | [] => .ok o
  | (name, ids) :: rest =>
    match ((o.find? id).map Entity.isScope).getD false, MemberList.ofName? name with
    | true, some list =>
      match o.members? (fun _ => true) ids with
      | .error fault => .error fault
      | .ok ns =>
        (o.modify id.toNat
          (Entity.mapBody fun b => { b with members := b.members.set list ns })).restoreLists
          id rest
    | _, _ => .error (.noList id name)

/-- Restores the member lists of all entities. -/
def restoreAllLists (o : Outline) : List EntitySnapshot → Except SnapshotFault Outline
  | [] => .ok o
  | e :: rest =>
    match o.restoreLists e.id e.lists with
    | .error fault => .error fault
    | .ok o => o.restoreAllLists rest

end Outline

namespace FileSnapshot

/-- The entities in the order of their numbers. -/
def inOrder (s : FileSnapshot) : List EntitySnapshot :=
  s.entities.mergeSort (fun a b => decide (a.id ≤ b.id))

/-- Whether entities in order are numbered from zero without gaps. -/
def isContiguous : Nat → List EntitySnapshot → Bool
  | _, [] => true
  | i, e :: rest => e.id == (i : Int) && isContiguous (i + 1) rest

/-- The outline that a snapshot describes. -/
def outline? (s : FileSnapshot) : Except SnapshotFault Outline := do
  let entities := s.inOrder
  if !isContiguous 0 entities then throw .gaps
  match entities with
  | [] => throw .noFile
  | root :: others =>
    if root.kind ≠ .file then throw .noFile
    let start := Outline.empty s.name root.span
    let start := start.modify 0 fun e => { e with doc := root.doc }
    let o ← (← start.restoreEntities others).restoreAllLists entities
    let home ←
      match o.member? o.isNamespace s.defaultNamespace with
      | .ok n => pure n
      | .error _ => throw .noHome
    let namespaces ← o.members? o.isNamespace s.namespaces
    let externals ← o.members? o.isExternal s.externals
    return { o with home := some home, namespaces := namespaces, externals := externals }

/-- The file that a snapshot describes; its include directives are queued and not yet linked. -/
def restore (s : FileSnapshot) : Except SnapshotFault SourceFile := do
  let o ← s.outline?
  let f : SourceFile :=
    { outline := o, contentHash := s.contentHash, mtime := s.mtime, size := s.size }
  let queued := s.inOrder.foldl (fun f e => f.enqueue e.id.toNat (e.payloadField "resolved")) f
  return queued.close

end FileSnapshot

end SymbolAtlas
