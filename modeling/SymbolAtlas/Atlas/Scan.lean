import SymbolAtlas.Atlas.Load
import SymbolAtlas.Discovery

/-!
# Scans

A scan refreshes every source that discovery finds, one after the other, and then looks up all
include directives again, so that they see every file of the scan.  Failures are counted; a refresh
that comes to no result makes the scan raise, but not before the other names had their turn.
-/

namespace SymbolAtlas

/-- What a scan came to. -/
structure ScanReport where
  /-- The files that were parsed or kept, in order. -/
  files : List Nat := []
  parsed : Nat := 0
  kept : Nat := 0
  failures : Ledger Failure := []
  /-- What the first refresh raised that came to no result. -/
  crash : Option Crash := none
  deriving Inhabited

/-- Why a scan came to a stop. -/
inductive ScanFault where
  | discovery (fault : DiscoveryFault)
  /-- A refresh came to no result. -/
  | crashed (crash : Crash)
  | badName (fault : SourceFile.BadName)
  deriving DecidableEq, Repr, Inhabited

namespace ScanReport

/-- Adds what came of a name, given what was known of the name before. -/
def add (s : ScanReport) (name : String) (before : Option Entry) : Outcome → ScanReport
  | .file n =>
    if before = some (.loaded n) then { s with files := s.files ++ [n], kept := s.kept + 1 }
    else { s with files := s.files ++ [n], parsed := s.parsed + 1 }
  | .failed failure => { s with failures := s.failures.set name failure }
  | .crashed crash => { s with crash := s.crash.or (some crash) }
  | .waiting _ => s

end ScanReport

namespace Atlas

/-- The names of the sources that sub-paths lead to. -/
def discover (a : Atlas) (disk : Disk) (subPaths : Option (List String)) :
    Except DiscoveryFault (List String) :=
  Discovery.names disk a.registry.directory a.settings.index subPaths

/-- Refreshes names one after the other and announces each that comes to a result. -/
def refreshEach (w : World) (total : Nat) :
    Atlas → ScanReport → Nat → List String → Atlas × ScanReport
  | a, report, _, [] => (a, report)
  | a, report, done, name :: rest =>
    let before := a.registry.entries.get? name
    match a.refresh w { name := name } with
    | (a, .crashed crash) =>
      refreshEach w total a (report.add name before (.crashed crash)) done rest
    | (a, outcome) =>
      let a := a.tell { kind := .progress, name := name, progress := some (done + 1, total) }
      refreshEach w total a (report.add name before outcome) (done + 1) rest

/-- The end of a scan of `total` names: every include directive is looked up again, unless a refresh
came to no result. -/
def conclude (a : Atlas) (total : Nat) (report : ScanReport) :
    Atlas × Except ScanFault ScanReport :=
  match report.crash with
  | some crash => (a, .error (.crashed crash))
  | none =>
    match a.relinkEach a.registry.loaded 0 with
    | (a, .error fault) => (a, .error (.badName fault))
    | (a, .ok _) =>
      (a.note (.scanComplete total report.parsed report.kept report.failures.length), .ok report)

/-- Refreshes all sources that sub-paths lead to and looks up every include directive again. -/
def scan (a : Atlas) (w : World) (subPaths : Option (List String)) :
    Atlas × Except ScanFault ScanReport :=
  match a.discover w.disk subPaths with
  | .error fault => (a, .error (.discovery fault))
  | .ok names =>
    let (a, report) := refreshEach w names.length a {} 0 names
    a.conclude names.length report

end Atlas

end SymbolAtlas
