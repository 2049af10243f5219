import SymbolAtlas.Atlas
import SymbolAtlas.SourceFile.Export
import SymbolAtlas.SourceFile.Restore

/-!
# Atlases as snapshots

The snapshot of an atlas holds its directory and every indexed file.  Taking over a snapshot
replaces everything; nothing changes before the whole snapshot has been read.
-/

namespace SymbolAtlas

/-- Why a snapshot was not taken over as it is. -/
inductive AdoptionFault where
  /-- The value is no snapshot. -/
  | malformed (issues : List Schema.Issue)
  /-- A file of the snapshot is not consistent. -/
  | inconsistent (failure : Failure)
  /-- A link leads to something that is no name.  The files were replaced nevertheless. -/
  | badName (fault : SourceFile.BadName)
  deriving Inhabited

/-- Restores several files. -/
def restoreAll : Ledger FileSnapshot → Except Failure (Ledger SourceFile)
  | [] => .ok []
  | (name, s) :: rest =>
    match s.restore with
    | .error fault => .error (.badSnapshot fault.message (some s.name))
    | .ok f =>
      match restoreAll rest with
      | .error failure => .error failure
      | .ok files => .ok ((name, f) :: files)

namespace Atlas

/-- The plain form of the file with a number. -/
def fileSnapshot? (a : Atlas) (n : Nat) : Option FileSnapshot :=
  (a.file? n).map fun f => f.snapshot a.registry.nameOf

/-- The snapshot of the index. -/
def snapshot (a : Atlas) : AtlasSnapshot where
  directory := a.registry.directory.render
  version := AtlasSnapshot.currentVersion
  files := a.registry.loadedEntries.filterMap fun (name, n) =>
    (a.fileSnapshot? n).map fun s => (name, s)

/-- Takes over a snapshot that was read. -/
def takeOver (a : Atlas) (snapshot : AtlasSnapshot) : Atlas × Except AdoptionFault Unit :=
  match restoreAll snapshot.files with
  | .error failure => (a, .error (.inconsistent failure))
  | .ok files =>
    let a := a.onRegistry (·.replaceAll (Path.parse snapshot.directory) files)
    match a.relinkEach a.registry.loaded 0 with
    | (a, .error fault) => (a, .error (.badName fault))
    | (a, .ok missed) => (a.note (.cacheLoaded files.length missed), .ok ())

/-- Takes over a snapshot given as a value.  A value that counts as false takes everything out. -/
def adopt (a : Atlas) (data : Value) : Atlas × Except AdoptionFault Unit :=
  if data.truthy then
    match AtlasSnapshot.check data with
    | .error issues => (a, .error (.malformed issues))
    | .ok snapshot => a.takeOver snapshot
  else (a.clear, .ok ())

end Atlas

end SymbolAtlas
