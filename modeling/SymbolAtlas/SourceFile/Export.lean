import SymbolAtlas.SourceFile
import SymbolAtlas.Snapshot

/-!
# Files as snapshots

Writing a file down replaces every reference to an entity by its number and every link to a file
by that file's name.  A member list is written only if it has members.
-/

namespace SymbolAtlas

namespace Entity

/-- What is written of an entity besides the common fields, given the names of linked files. -/
def payload (e : Entity) (nameOf : Nat → Option String) : Ledger Value :=
  match e.detail with
  | .scope (.functionScope isMethod) _ => [("is_method", .bool isMethod)]
  | .external i =>
    let resolved := match i.link with
      | .file n => Value.ofText? (nameOf n)
      | _ => .null
    [("target", i.target), ("once", .bool i.once), ("require", .bool i.require),
      ("resolved", resolved)]
  | _ => []

/-- The member lists of an entity that have members. -/
def writtenLists (e : Entity) : Ledger (List Int) :=
  (MemberList.all.map fun l => (l.name, (e.members l).map Int.ofNat)).filter
    (fun entry => entry.2 ≠ [])

/-- The plain form of an entity. -/
def snapshot (e : Entity) (id : Nat) (nameOf : Nat → Option String) : EntitySnapshot where
  id := id
  kind := e.kind
  name := e.name
  parent := e.parent.map Int.ofNat
  range := e.span.map fun s => (s.start.value, s.stop.value)
  doc := e.doc
  lists := e.writtenLists
  payload := e.payload nameOf

end Entity

namespace SourceFile

/-- The entities that a file still holds, in order.  An empty shell no longer holds itself. -/
def heldEntities (f : SourceFile) : List Entity :=
  if f.detached then f.outline.entities.toList.drop 1 else f.outline.entities.toList

/-- Writes entities down, numbered from a start. -/
def snapshotsFrom (nameOf : Nat → Option String) : Nat → List Entity → List EntitySnapshot
  | _, [] => []
  | i, e :: rest => e.snapshot i nameOf :: snapshotsFrom nameOf (i + 1) rest

/-- The plain form of a file, given the names of linked files. -/
def snapshot (f : SourceFile) (nameOf : Nat → Option String) : FileSnapshot where
  name := f.name
  contentHash := f.contentHash
  mtime := f.mtime
  size := f.size
  defaultNamespace := (f.outline.home.getD 0 : Nat)
  namespaces := f.outline.namespaces.map Int.ofNat
  externals := f.outline.externals.map Int.ofNat
  entities := snapshotsFrom nameOf 0 f.heldEntities

end SourceFile

end SymbolAtlas
