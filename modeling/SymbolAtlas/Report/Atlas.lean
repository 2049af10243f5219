import SymbolAtlas.Atlas.Query
import SymbolAtlas.Report.Outline

/-!
# Reports on atlases

What an atlas holds described by plain values, for whoever asks from outside.
-/

namespace SymbolAtlas

namespace Tally

/-- The numbers of a tally in order. -/
def toValue (t : Tally) : Value :=
  .list [.int t.total, .int t.loading, .int t.loaded, .int t.error, .int t.symbols, .int t.size]

end Tally

namespace SourceFile

/-- What is known of a file besides its entities. -/
def facts (f : SourceFile) : Ledger Value :=
  [("name", .str f.name), ("symbols", .int f.symbolCount),
    ("size", (f.size.map Value.int).getD .null),
    ("mtime", (f.mtime.map Value.float).getD .null),
    ("hash", Value.ofText? f.contentHash), ("detached", .bool f.detached)]

end SourceFile

namespace Atlas

/-- A reference to an entity: its file, its number, its kind and its name. -/
def reference (a : Atlas) (s : SymbolRef) : Value :=
  match a.file? s.file with
  | some f => f.outline.reference s.entity
  | none => .null

/-- References to several entities. -/
def references (a : Atlas) (ss : List SymbolRef) : Value :=
  .list (ss.map a.reference)

/-- A reference to an entity that may be missing. -/
def reference? (a : Atlas) (s : Option SymbolRef) : Value :=
  (s.map a.reference).getD .null

/-- A merged namespace; it belongs to no file and has no number. -/
def describeNamespace (a : Atlas) (m : MergedNamespace) : Value :=
  .object
    [("name", .str m.name), ("id", .null), ("is_global", .bool (m.name = Qualified.globalName)),
     ("lists", .object (MemberList.all.map fun l => (l.name, a.references (m.lists l))))]

/-- The names of failed loads, each with the name of its failure. -/
def failureReport (a : Atlas) : Value :=
  .list (a.registry.failures.map fun (name, failure) =>
    .list [.str name, .str failure.code.name])

end Atlas

end SymbolAtlas
