import SymbolAtlas.Symbol.Entity
import SymbolAtlas.Numbered

/-!
# Outlines

The outline of a file is the array of its entities.  The file itself is entity zero and every other
entity comes after the scope that owns it, so that following owners upwards always ends.  Besides
the entities an outline lists the namespaces and the include directives of the file.

A scope may also stand alone, outside of every file.  Its outline is unlinked: entities are still
shown in member lists, but they carry no number and know no owner.
-/

namespace SymbolAtlas

/-- The entities of one file, or of a scope that stands alone. -/
structure Outline where
  entities : Array Entity
  /-- The namespaces of the file, the default one first. -/
  namespaces : List Nat := []
  /-- The include directives of the file. -/
  externals : List Nat := []
  /-- The namespace that holds what is declared outside of all others. -/
  home : Option Nat := none
  /-- Whether entities carry numbers and know their owners. -/
  linked : Bool := true
  deriving Inhabited

namespace Outline

/-- The outline of a file that declares nothing. -/
def empty (name : String) (span : Option Span) : Outline where
  entities := #[{ detail := .scope .file {}, name := some name, span := span }]

/-- The number of entities, the file included. -/
def size (o : Outline) : Nat := o.entities.size

/-- The entity with a number. -/
def get? (o : Outline) (i : Nat) : Option Entity := o.entities[i]?

/-- The entity with a number that may be out of range on either side. -/
def find? (o : Outline) (i : Int) : Option Entity :=
  Numbered.lookup? o.entities i

/-- Changes one entity. -/
def modify (o : Outline) (i : Nat) (f : Entity → Entity) : Outline :=
  { o with entities := o.entities.modify i f }

/-- The kind of scope with a number, if it is one. -/
def scopeKind? (o : Outline) (i : Nat) : Option ScopeKind :=
  (o.get? i).bind Entity.scopeKind?

/-- Whether the numbered entity is a namespace. -/
def isNamespace (o : Outline) (i : Nat) : Bool :=
  o.scopeKind? i == some .namespaceScope

/-- Whether the numbered entity is a class. -/
def isClass (o : Outline) (i : Nat) : Bool :=
  o.scopeKind? i == some .classScope

/-- Whether the numbered entity is an include directive. -/
def isExternal (o : Outline) (i : Nat) : Bool :=
  ((o.get? i).bind Entity.inclusion?).isSome

/-- Whether the numbered scope takes no more members. -/
def isClosed (o : Outline) (i : Nat) : Bool :=
  match (o.get? i).bind Entity.body? with
  | some b => b.closed
  | none => true

/-- The owner of an entity; an owner always has the smaller number. -/
def parent? (o : Outline) (i : Nat) : Option Nat :=
  match (o.get? i).bind Entity.parent with
  | some p => if p < i then some p else none
  | none => none

theorem parent?_lt {o : Outline} {i p : Nat} (h : o.parent? i = some p) : p < i := by
  unfold parent? at h
  split at h
  · split at h
    · cases h
      assumption
    · cases h
  · cases h

/-- The scopes around an entity, innermost first. -/
def ancestors (o : Outline) (i : Nat) : List Nat :=
  match _h : o.parent? i with
  | some p => p :: o.ancestors p
  | none => []
termination_by i
decreasing_by exact parent?_lt _h

/-- The file around an entity, or the entity itself if it is a file. -/
def fileOf (o : Outline) (i : Nat) : Option Nat :=
  (i :: o.ancestors i).find? (fun j => o.scopeKind? j == some .file)

/-- The innermost namespace around an entity, or the entity itself if it is one; the default
namespace of the file if there is none. -/
def namespaceOf (o : Outline) (i : Nat) : Option Nat :=
  match (i :: o.ancestors i).find? o.isNamespace with
  | some n => some n
  | none => if (o.fileOf i).isSome then o.home else none

/-- How messages refer to an entity. -/
def label (o : Outline) (i : Nat) : String :=
  match o.get? i with
  | some e => e.label (if o.linked then some i else none)
  | none => ""

/-- The name of the file. -/
def fileName (o : Outline) : String :=
  ((o.get? 0).bind Entity.name).getD ""

/-- Adds an entity under an owner and gives its number. -/
def add (o : Outline) (owner : Nat) (e : Entity) : Outline × Nat :=
  let id := o.size
  if o.linked then
    let o := { o with entities := o.entities.push { e with parent := some owner } }
    (o.modify owner (Entity.mapBody fun b => { b with children := b.children ++ [id] }), id)
  else ({ o with entities := o.entities.push { e with parent := none } }, id)

/-- Shows a member in one of the lists of a scope, unless the scope is closed. -/
def show? (o : Outline) (scope : Nat) (list : MemberList) (id : Nat) : Option Outline :=
  if o.isClosed scope then none
  else some (o.modify scope (Entity.mapBody fun b => { b with members := b.members.push list id }))

/-- Lists a namespace of the file, unless the file is closed. -/
def showNamespace? (o : Outline) (id : Nat) : Option Outline :=
  if o.isClosed 0 then none else some { o with namespaces := o.namespaces ++ [id] }

/-- Lists an include directive of the file, unless the file is closed. -/
def showExternal? (o : Outline) (id : Nat) : Option Outline :=
  if o.isClosed 0 then none else some { o with externals := o.externals ++ [id] }

/-- Closes every scope. -/
def close (o : Outline) : Outline :=
  { o with entities := o.entities.map (Entity.mapBody fun b => { b with closed := true }) }

/-- An outline with a default namespace for what is declared outside of all others. -/
def withHome (o : Outline) : Outline :=
  let (o, id) := o.add 0 (Entity.newNamespace Qualified.globalName none none)
  { o with namespaces := o.namespaces ++ [id], home := some id }

/-- The entities cut loose from each other: no owners, no children, no members. -/
def scattered (o : Outline) : Outline where
  entities := o.entities.map fun e =>
    { (e.mapBody fun _ => { closed := true }) with parent := none }

end Outline

end SymbolAtlas
