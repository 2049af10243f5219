import SymbolAtlas.Outline.Population
import SymbolAtlas.Failure

/-!
# Journal

What an index notes down while it works, with a level, a name and fields for each note.
-/

namespace SymbolAtlas

/-- How important a note is. -/
inductive NoteLevel where
  | debug
  | info
  | warning
  deriving DecidableEq, Repr, Inhabited

/-- The written name of a level. -/
def NoteLevel.name : NoteLevel → String
  | debug => "debug"
  | info => "info"
  | warning => "warning"

/-- Why a file was not renamed. -/
inductive RenameObstacle where
  | loading
  | notLoaded
  | targetExists
  deriving DecidableEq, Repr, Inhabited

/-- The written name of an obstacle. -/
def RenameObstacle.name : RenameObstacle → String
  | loading => "loading"
  | notLoaded => "not_loaded"
  | targetExists => "target_exists"

/-- Something worth noting. -/
inductive Note where
  /-- A subscriber's queue was full. -/
  | eventDropped (kind name : String)
  /-- Some include directives of a file lead nowhere. -/
  | externalUnresolved (file : String) (count : Nat)
  /-- A file has not changed since it was indexed. -/
  | cacheHit (name : String)
  /-- A file was parsed and indexed. -/
  | fileParsed (name : String) (symbols : Nat)
  /-- A source with errors was accepted. -/
  | errorTolerated (name : String) (offset : Int)
  /-- An index was taken from a snapshot. -/
  | cacheLoaded (files unresolved : Nat)
  /-- A scan came to its end. -/
  | scanComplete (files parsed cacheHits errors : Nat)
  /-- A file could not be read or parsed. -/
  | parseFailed (name : String) (failure : Failure)
  /-- A node was refused. -/
  | nodeSkipped (refusal : Refusal)
  /-- A file kept its name. -/
  | renameSkipped (name newName : String) (obstacle : RenameObstacle)
  deriving Inhabited

namespace Note

/-- The level of a note. -/
def level : Note → NoteLevel
  | eventDropped .. => .debug
  | externalUnresolved .. => .debug
  | cacheHit .. => .debug
  | fileParsed .. => .debug
  | errorTolerated .. => .debug
  | cacheLoaded .. => .info
  | scanComplete .. => .info
  | parseFailed .. => .warning
  | nodeSkipped .. => .warning
  | renameSkipped .. => .warning

/-- The name of a note. -/
def event : Note → String
  | eventDropped .. => "event_dropped"
  | externalUnresolved .. => "external_unresolved"
  | cacheHit .. => "file_cache_hit"
  | fileParsed .. => "file_parsed"
  | errorTolerated .. => "syntax_error_tolerated"
  | cacheLoaded .. => "cache_loaded"
  | scanComplete .. => "scan_complete"
  | parseFailed .. => "file_parse_failed"
  | nodeSkipped .. => "malformed_node_skipped"
  | renameSkipped .. => "rename_skipped"

/-- The fields of a note. -/
def fields : Note → Ledger Value
  | eventDropped kind name => [("kind", .str kind), ("name", .str name)]
  | externalUnresolved file count => [("file", .str file), ("count", .int count)]
  | cacheHit name => [("name", .str name)]
  | fileParsed name symbols => [("name", .str name), ("symbols", .int symbols)]
  | errorTolerated name offset => [("name", .str name), ("offset", .int offset)]
  | cacheLoaded files unresolved => [("files", .int files), ("unresolved", .int unresolved)]
  | scanComplete files parsed cacheHits errors =>
    [("files", .int files), ("parsed", .int parsed), ("cache_hits", .int cacheHits),
      ("errors", .int errors)]
  | parseFailed name failure =>
    [("name", .str name), ("error", .str failure.code.name), ("reason", .str failure.message)]
  | nodeSkipped refusal =>
    [("kind", .str refusal.heading.tag), ("range", refusal.heading.range),
      ("error", .str refusal.fault.message)]
  | renameSkipped name newName obstacle =>
    [("name", .str name), ("new_name", .str newName), ("reason", .str obstacle.name)]

/-- A note as a plain value: level, name and fields. -/
def toValue (n : Note) : Value :=
  .list [.str n.level.name, .str n.event, .object n.fields]

end Note

end SymbolAtlas
