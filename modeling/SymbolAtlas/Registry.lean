import SymbolAtlas.Failure
import SymbolAtlas.Journal
import SymbolAtlas.SourceFile

/-!
# The registry of an index

The registry knows for every name whether its file is indexed or a load of it is under way, which
loads failed, and how much is indexed.  Files are numbered in the order in which they were made and
keep their number for good, also when they were taken out; a number therefore says which file is
meant even after another file has taken its name.

A load that replaces an indexed file keeps the old file in the count until it settles.  A load
belongs to the registry as long as its name is entered with the load's own number; one that was
superseded settles without a trace.
-/

namespace SymbolAtlas

/-- What a known name stands for. -/
inductive Entry where
  /-- The file with a number is indexed. -/
  | loaded (file : Nat)
  /-- The load with a number is under way. -/
  | loading (load : Nat)
  deriving DecidableEq, Repr, Inhabited

/-- How much a registry has seen and holds. -/
structure Tally where
  total : Int := 0
  loading : Int := 0
  loaded : Int := 0
  error : Int := 0
  symbols : Int := 0
  size : Int := 0
  deriving DecidableEq, Repr, Inhabited

namespace Tally

/-- The tally with a file more. -/
def count (t : Tally) (f : SourceFile) : Tally :=
  { t with
    loaded := t.loaded + 1
    symbols := t.symbols + f.symbolCount
    size := t.size + f.size.getD 0 }

/-- The tally with a file less. -/
def uncount (t : Tally) (f : SourceFile) : Tally :=
  { t with
    loaded := t.loaded - 1
    symbols := t.symbols - f.symbolCount
    size := t.size - f.size.getD 0 }

end Tally

/-- Why a load came to no result at all. -/
inductive Crash where
  /-- The path of the source holds a character that no path can hold. -/
  | nulInPath
  /-- Reading the source as text raised what no load is prepared for. -/
  | decoding (raised : Raised)
  /-- A failure could not be put into words. -/
  | wording (raised : Raised)
  deriving DecidableEq, Repr, Inhabited

/-- What a crash raises. -/
def Crash.raised : Crash → Raised
  | nulInPath => { kind := "ValueError", message := Path.nulMessage }
  | decoding raised => raised
  | wording raised => raised

/-- Where an index stands. -/
structure Site where
  directory : Path
  /-- The real path of an absolute path, as texts: where its links lead.  Every path has one, which
  is to say that no links lead in a circle. -/
  realpath : String → String := Path.resolvedText
  deriving Inhabited

/-- The place that an absolute path leads to. -/
def Site.placeOf (s : Site) (path : Path) : Path :=
  Path.parse (s.realpath path.render)

/-- What is known of names, files and loads. -/
structure Registry extends Site where
  /-- Every file that was ever made, by number. -/
  files : Array SourceFile := #[]
  entries : Ledger Entry := []
  /-- Files that a load under way will replace. -/
  replaced : Ledger Nat := []
  failures : Ledger Failure := []
  tally : Tally := {}
  /-- How many loads were ever started. -/
  loads : Nat := 0
  /-- The loads that came to no result. -/
  crashes : List (Nat × Crash) := []
  deriving Inhabited

namespace Registry

/-! ## Views -/

/-- The file that is indexed under a name. -/
def get? (r : Registry) (name : String) : Option Nat :=
  match r.entries.get? name with
  | some (.loaded n) => some n
  | _ => none

/-- The names under which files are indexed, with their files, in order of entry. -/
def loadedEntries (r : Registry) : List (String × Nat) :=
  r.entries.filterMap fun
    | (name, .loaded n) => some (name, n)
    | (_, .loading _) => none

/-- The indexed files in order of entry. -/
def loaded (r : Registry) : List Nat :=
  r.loadedEntries.map (·.2)

/-- The name of a file. -/
def nameOf (r : Registry) (n : Nat) : Option String :=
  r.files[n]?.map SourceFile.name

/-- Whether the load of a name is the one that the registry waits for. -/
def awaits (r : Registry) (name : String) (load : Nat) : Bool :=
  r.entries.get? name = some (.loading load)

/-- Why a load crashed, if it did. -/
def crash? (r : Registry) (load : Nat) : Option Crash :=
  (r.crashes.find? fun entry => entry.1 = load).map (·.2)

/-- The indexed file that a name or an absolute path denotes. -/
def resolve (r : Registry) (name : String) : Option Nat :=
  match r.get? name with
  | some n => some n
  | none =>
    let path := Path.parse name
    if path.isAbsolute && !path.hasNul then
      match r.directory.below? (r.placeOf path) with
      | some relative => r.get? relative.render
      | none => none
    else none

/-- Looks up a candidate of an include directive. -/
def resolveCandidate (r : Registry) : Value → Except SourceFile.BadName (Option Nat)
  | .str s => .ok (r.resolve s)
  | .list _ => .error (.notAKey "list")
  | .object _ => .error (.notAKey "dict")
  | .int _ => .error (.notAName "int")
  | .bool _ => .error (.notAName "bool")
  | .float _ => .error (.notAName "float")
  | .null => .error (.notAName "NoneType")

/-! ## Files -/

/-- Gives a file the next number. -/
def addFile (r : Registry) (f : SourceFile) : Registry × Nat :=
  ({ r with files := r.files.push f }, r.files.size)

/-- Changes a file. -/
def modifyFile (r : Registry) (n : Nat) (change : SourceFile → SourceFile) : Registry :=
  { r with files := r.files.modify n change }

/-- Takes a file out of the count and empties it. -/
def forget (r : Registry) (n : Nat) : Registry :=
  match r.files[n]? with
  | some f => { r.modifyFile n SourceFile.detach with tally := r.tally.uncount f }
  | none => r

/-- Forgets the file that a load of a name was to replace. -/
def forgetReplaced (r : Registry) (name : String) : Registry :=
  match r.replaced.get? name with
  | some n => { r with replaced := r.replaced.erase name }.forget n
  | none => r

/-- Looks up the include directives of a file again; gives the number of those that lead
nowhere. -/
def relink (r : Registry) (n : Nat) : Registry × Except SourceFile.BadName Nat :=
  match r.files[n]? with
  | some f =>
    let (f', missed) := f.relink r.resolveCandidate
    (r.modifyFile n fun _ => f', missed)
  | none => (r, .ok 0)

/-! ## Loads -/

/-- Starts a load of a name and gives its number.  A file that was indexed under the name is kept
in the count for now. -/
def start (r : Registry) (name : String) (previous : Option Nat) : Registry × Nat :=
  let r := match previous with
    | none => { r with tally := { r.tally with total := r.tally.total + 1 } }
    | some n => { r with replaced := r.replaced.set name n }
  ({ r with entries := r.entries.set name (.loading r.loads), loads := r.loads + 1 }, r.loads)

/-- A load begins its work. -/
def begin (r : Registry) : Registry :=
  { r with tally := { r.tally with loading := r.tally.loading + 1 } }

/-- A load has ended its work. -/
def endWork (r : Registry) : Registry :=
  { r with tally := { r.tally with loading := r.tally.loading - 1 } }

/-- A load ends with a failure, which is recorded unless the load was superseded. -/
def fail (r : Registry) (name : String) (load : Nat) (failure : Failure) : Registry :=
  if r.awaits name load then
    { r with
      entries := r.entries.erase name
      failures := r.failures.set name failure
      tally := { r.tally with error := r.tally.error + 1 } }.forgetReplaced name |>.endWork
  else r.endWork

/-- A load ends with a file, which is indexed unless the load was superseded; the file of a
superseded load is emptied. -/
def succeed (r : Registry) (name : String) (load : Nat) (f : SourceFile) : Registry × Nat :=
  let r := r.endWork
  if r.awaits name load then
    let (r, n) := r.addFile f
    let r := { r with
      entries := r.entries.set name (.loaded n)
      failures := r.failures.erase name }.forgetReplaced name
    ({ r with tally := r.tally.count f }, n)
  else r.addFile f.detach

/-- A load ends without a result; its name stays entered. -/
def abandon (r : Registry) (load : Nat) (crash : Crash) : Registry :=
  { r.endWork with crashes := (load, crash) :: r.crashes }

/-- A load that was just started is the one that is awaited. -/
theorem awaits_start (r : Registry) (name : String) (previous : Option Nat) :
    (r.start name previous).1.awaits name (r.start name previous).2 = true := by
  cases previous <;> simp [start, awaits]

@[simp] theorem entries_endWork (r : Registry) : r.endWork.entries = r.entries := rfl

@[simp] theorem awaits_endWork (r : Registry) (name : String) (load : Nat) :
    r.endWork.awaits name load = r.awaits name load := rfl

/-- The failure of a superseded load leaves no trace. -/
theorem fail_of_superseded {r : Registry} {name : String} {load : Nat} (failure : Failure)
    (h : r.awaits name load = false) : r.fail name load failure = r.endWork := by
  simp [fail, h]

/-- The file of a superseded load is emptied and not indexed. -/
theorem succeed_of_superseded {r : Registry} {name : String} {load : Nat} (f : SourceFile)
    (h : r.awaits name load = false) :
    r.succeed name load f = r.endWork.addFile f.detach := by
  simp [succeed, h]

/-! ## Maintenance -/

/-- Takes out what is known of a name. -/
def remove (r : Registry) (name : String) : Registry :=
  let entry := r.entries.get? name
  let r := { r with entries := r.entries.erase name, failures := r.failures.erase name }
  match entry with
  | some (.loaded n) => r.forget n
  | some (.loading _) => r.forgetReplaced name
  | none => r

/-- Gives an indexed file another name, unless something stands against it. -/
def rename (r : Registry) (old new : String) : Except RenameObstacle Registry :=
  match r.entries.get? old with
  | none => .error .notLoaded
  | some (.loading _) => .error .loading
  | some (.loaded n) =>
    if r.entries.contains new then .error .targetExists
    else
      .ok { r.modifyFile n (SourceFile.rename · new) with
        entries := (r.entries.erase old).set new (.loaded n) }

/-- Takes out everything; only the loads under way are still counted. -/
def clear (r : Registry) : Registry :=
  { (r.loaded ++ r.replaced.values).foldl
      (fun r n => r.modifyFile n SourceFile.detach) r with
    entries := []
    replaced := []
    failures := []
    tally := { loading := r.tally.loading } }

/-- Indexes a file under a name. -/
def enter (r : Registry) (name : String) (f : SourceFile) : Registry :=
  let f := f.rename name
  let (r, n) := r.addFile f
  { r with
    entries := r.entries.set name (.loaded n)
    tally := { r.tally.count f with total := r.tally.total + 1 } }

/-- Replaces everything by given files. -/
def replaceAll (r : Registry) (directory : Path) (files : Ledger SourceFile) : Registry :=
  files.foldl (fun r entry => r.enter entry.1 entry.2) { r.clear with directory := directory }

end Registry

end SymbolAtlas
