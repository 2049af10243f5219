import SymbolAtlas.Schema.Check
import SymbolAtlas.Symbol.Kind

/-!
# Snapshots

A snapshot is the plain form in which files and whole indexes are kept and exchanged.  Entities
refer to each other by their number, include directives to other files by name.
-/

namespace SymbolAtlas

/-- The plain form of an entity. -/
structure EntitySnapshot where
  id : Int
  kind : Kind
  name : Option String := none
  parent : Option Int := none
  range : Option (Int × Int) := none
  doc : Option String := none
  lists : Ledger (List Int) := []
  payload : Ledger Value := []
  deriving Inhabited

/-- The plain form of a file. -/
structure FileSnapshot where
  name : String
  contentHash : Option String := none
  mtime : Option Double := none
  size : Option Int := none
  defaultNamespace : Int
  namespaces : List Int := []
  externals : List Int := []
  entities : List EntitySnapshot
  deriving Inhabited

/-- The plain form of an index. -/
structure AtlasSnapshot where
  directory : String
  version : Int
  files : Ledger FileSnapshot
  deriving Inhabited

/-- The version that is written into snapshots of an index. -/
def AtlasSnapshot.currentVersion : Int := 1

open Schema

/-- An entity kind by its tag. -/
def Schema.Check.kind : Check Kind
  | .str s =>
    match Kind.ofTag? s with
    | some k => .ok k
    | none => Checked.refuse (.unknownTag (Kind.all.map Kind.tag)) (.str s)
  | v => Checked.refuse (.unknownTag (Kind.all.map Kind.tag)) v

namespace EntitySnapshot

/-- Reads the fields of an entity. -/
def ofFields (fields : Ledger Value) : Checked EntitySnapshot :=
  Checked.ap (.ok EntitySnapshot.mk) (required fields "id" Check.int)
    |>.ap (required fields "kind" Check.kind)
    |>.ap (defaulting fields "name" none (Check.optional Check.text))
    |>.ap (defaulting fields "parent" none (Check.optional Check.int))
    |>.ap (defaulting fields "range" none (Check.optional Check.pair))
    |>.ap (defaulting fields "doc" none (Check.optional Check.text))
    |>.ap (defaulting fields "lists" [] (Check.table (Check.list Check.int)))
    |>.ap (defaulting fields "payload" [] Check.object)

/-- Reads an entity. -/
def check : Check EntitySnapshot :=
  Check.sectionNamed "EntitySnapshot" ofFields

/-- An entity as a plain value. -/
def toValue (e : EntitySnapshot) : Value :=
  .object
    [("id", .int e.id),
     ("kind", .str e.kind.tag),
     ("name", Value.ofText? e.name),
     ("parent", (e.parent.map Value.int).getD .null),
     ("range", (e.range.map fun r => Value.list [.int r.1, .int r.2]).getD .null),
     ("doc", Value.ofText? e.doc),
     ("lists", .object (e.lists.map fun entry => (entry.1, .list (entry.2.map Value.int)))),
     ("payload", .object e.payload)]

end EntitySnapshot

namespace FileSnapshot

/-- Reads the fields of a file. -/
def ofFields (fields : Ledger Value) : Checked FileSnapshot :=
  Checked.ap (.ok FileSnapshot.mk) (required fields "name" Check.text)
    |>.ap (defaulting fields "content_hash" none (Check.optional Check.text))
    |>.ap (defaulting fields "mtime" none (Check.optional Check.double))
    |>.ap (defaulting fields "size" none (Check.optional Check.int))
    |>.ap (required fields "default_namespace" Check.int)
    |>.ap (defaulting fields "namespaces" [] (Check.list Check.int))
    |>.ap (defaulting fields "externals" [] (Check.list Check.int))
    |>.ap (required fields "entities" (Check.list EntitySnapshot.check))

/-- Reads a file. -/
def check : Check FileSnapshot :=
  Check.sectionNamed "FileSnapshot" ofFields

/-- A file as a plain value. -/
def toValue (f : FileSnapshot) : Value :=
  .object
    [("name", .str f.name),
     ("content_hash", Value.ofText? f.contentHash),
     ("mtime", (f.mtime.map Value.float).getD .null),
     ("size", (f.size.map Value.int).getD .null),
     ("default_namespace", .int f.defaultNamespace),
     ("namespaces", .list (f.namespaces.map Value.int)),
     ("externals", .list (f.externals.map Value.int)),
     ("entities", .list (f.entities.map EntitySnapshot.toValue))]

end FileSnapshot

namespace AtlasSnapshot

/-- Reads the fields of an index. -/
def ofFields (fields : Ledger Value) : Checked AtlasSnapshot :=
  Checked.ap (.ok AtlasSnapshot.mk) (required fields "directory" Check.text)
    |>.ap (defaulting fields "version" currentVersion Check.int)
    |>.ap (defaulting fields "files" [] (Check.table FileSnapshot.check))

/-- Reads an index. -/
def check : Check AtlasSnapshot :=
  Check.sectionNamed "Snapshot" ofFields

/-- An index as a plain value. -/
def toValue (c : AtlasSnapshot) : Value :=
  .object
    [("directory", .str c.directory),
     ("version", .int c.version),
     ("files", .object (c.files.map fun entry => (entry.1, entry.2.toValue)))]

end AtlasSnapshot

end SymbolAtlas
