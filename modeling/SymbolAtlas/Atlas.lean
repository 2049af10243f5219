import SymbolAtlas.Feed
import SymbolAtlas.Registry
import SymbolAtlas.Settings

/-!
# Atlases

An atlas is the symbol index of a directory: a registry of its files, a feed that tells subscribers
what happens, and a journal.
-/

namespace SymbolAtlas

/-- What an event tells. -/
inductive EventKind where
  /-- The reading of a file has started. -/
  | read
  /-- A file has not changed. -/
  | cache
  /-- A file was parsed. -/
  | parse
  /-- A file could not be read or parsed. -/
  | error
  /-- One more file of a scan is done. -/
  | progress
  deriving DecidableEq, Repr, Inhabited

/-- The written name of a kind. -/
def EventKind.name : EventKind → String
  | read => "read"
  | cache => "cache"
  | parse => "parse"
  | error => "error"
  | progress => "progress"

/-- Something that happened to a name. -/
structure Event where
  kind : EventKind
  name : String
  file : Option Nat := none
  failure : Option Failure := none
  /-- How many files of a scan are done, and of how many. -/
  progress : Option (Nat × Nat) := none
  deriving Inhabited

/-- The symbol index of a directory. -/
structure Atlas where
  settings : Settings
  registry : Registry
  feed : Feed Event
  journal : List Note := []
  /-- The names of the sources that were handed to the parser, in order. -/
  parses : List String := []
  deriving Inhabited

namespace Atlas

/-- An index of a directory that knows no file yet. -/
def empty (directory : Path) (settings : Settings)
    (realpath : String → String := Path.resolvedText) : Atlas where
  settings := settings
  registry := { directory := Path.parse (realpath directory.render), realpath := realpath }
  feed := { defaultCapacity := settings.limits.eventQueueSize }

/-- Notes something down. -/
def note (a : Atlas) (n : Note) : Atlas :=
  { a with journal := a.journal ++ [n] }

/-- Notes several things down. -/
def noteAll (a : Atlas) (ns : List Note) : Atlas :=
  { a with journal := a.journal ++ ns }

/-- Tells the subscribers of an event; each of them that has no room is noted down. -/
def tell (a : Atlas) (e : Event) : Atlas :=
  { a with feed := a.feed.publish e }.noteAll
    (List.replicate a.feed.dropCount (.eventDropped e.kind.name e.name))

/-- Changes the registry. -/
def onRegistry (a : Atlas) (change : Registry → Registry) : Atlas :=
  { a with registry := change a.registry }

/-- The file that is indexed under a name. -/
def get? (a : Atlas) (name : String) : Option Nat :=
  a.registry.get? name

/-- The file with a number. -/
def file? (a : Atlas) (n : Nat) : Option SourceFile :=
  a.registry.files[n]?

/-! ## Relinking -/

/-- The note on include directives that lead nowhere. -/
def missedNotes (name : String) (missed : Nat) : List Note :=
  if missed = 0 then [] else [.externalUnresolved name missed]

/-- Looks up the include directives of a file again; gives the number of those that lead
nowhere. -/
def relink (a : Atlas) (n : Nat) : Atlas × Except SourceFile.BadName Nat :=
  match a.registry.relink n with
  | (r, .ok missed) =>
    ({ a with registry := r }.noteAll (missedNotes ((r.nameOf n).getD "") missed), .ok missed)
  | (r, .error e) => ({ a with registry := r }, .error e)

/-- Looks up the include directives of several files again, one file after the other; gives the
number of those that lead nowhere. -/
def relinkEach (a : Atlas) : List Nat → Nat → Atlas × Except SourceFile.BadName Nat
  | [], missed => (a, .ok missed)
  | n :: rest, missed =>
    match a.relink n with
    | (a, .ok more) => a.relinkEach rest (missed + more)
    | (a, .error e) => (a, .error e)

/-! ## Maintenance -/

/-- Takes out what is known of a name. -/
def remove (a : Atlas) (name : String) : Atlas :=
  a.onRegistry (·.remove name)

/-- Gives an indexed file another name; what stands against it is noted down. -/
def rename (a : Atlas) (old new : String) : Atlas :=
  match a.registry.rename old new with
  | .ok r => { a with registry := r }
  | .error obstacle => a.note (.renameSkipped old new obstacle)

/-- Takes out everything. -/
def clear (a : Atlas) : Atlas :=
  a.onRegistry Registry.clear

end Atlas

end SymbolAtlas
