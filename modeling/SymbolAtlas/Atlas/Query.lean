import SymbolAtlas.Atlas
import SymbolAtlas.Outline.Query

/-!
# Questions to an atlas

Queries go through the indexed files in order of entry.  A limit above zero cuts the whole answer
to that many entities.
-/

namespace SymbolAtlas

/-- An entity of a file, both by number. -/
structure SymbolRef where
  file : Nat
  entity : Nat
  deriving DecidableEq, Repr, Inhabited

/-- The namespaces of one name in all files, put together: each member list holds the members of
all of them. -/
structure MergedNamespace where
  name : String
  lists : MemberList → List SymbolRef

namespace Atlas

/-- The entities of a file with a tag and possibly a name. -/
def selectIn (a : Atlas) (tag : String) (name : Option String) (limit : Int) (n : Nat) :
    List SymbolRef :=
  match a.file? n with
  | some f => (f.outline.select 0 tag name limit).map fun i => { file := n, entity := i }
  | none => []

/-- Goes through files until the limit is reached. -/
def selectFrom (a : Atlas) (tag : String) (name : Option String) (limit : Int) :
    List SymbolRef → List Nat → List SymbolRef
  | found, [] => found
  | found, n :: rest =>
    let room := if 0 < limit then limit - found.length else 0
    let found := found ++ a.selectIn tag name room n
    if 0 < limit && limit ≤ found.length then found
    else a.selectFrom tag name limit found rest

/-- The entities with a tag and possibly a name; without a limit that of the settings counts. -/
def select (a : Atlas) (tag : String) (name : Option String) (limit : Option Int) :
    List SymbolRef :=
  a.selectFrom tag name (limit.getD a.settings.limits.queryDefault) [] a.registry.loaded

/-- The first entity with a tag and possibly a name. -/
def selectFirst (a : Atlas) (tag : String) (name : Option String) : Option SymbolRef :=
  a.registry.loaded.findSome? fun n => do
    let f ← a.file? n
    let i ← f.outline.selectFirst 0 tag name
    return { file := n, entity := i }

/-- The innermost scope of a file that holds an offset. -/
def scopeAt (a : Atlas) (name : String) (offset : Int) : Option SymbolRef := do
  let n ← a.get? name
  let f ← a.file? n
  return { file := n, entity := f.outline.scopeAt offset 0 }

/-- The members of an entity in one of its lists. -/
def membersOf (a : Atlas) (s : SymbolRef) (list : MemberList) : List SymbolRef :=
  match (a.file? s.file).bind fun f => f.outline.get? s.entity with
  | some e => (e.members list).map fun i => { file := s.file, entity := i }
  | none => []

/-- Whether merging keeps a list; variables and blocks stay with their own namespace. -/
def isMerged : MemberList → Bool
  | .vars => false
  | .blocks => false
  | _ => true

/-- The namespaces of a name in all files, put together. -/
def mergedNamespace? (a : Atlas) (name : String) : Option MergedNamespace :=
  let name := Qualified.canonical name
  match a.select Kind.namespaceDecl.tag (some name) (some 0) with
  | [] => none
  | found =>
    some
      { name := Qualified.canonical name
        lists := fun l => if isMerged l then found.flatMap (a.membersOf · l) else [] }

end Atlas

end SymbolAtlas
