import SymbolAtlas.Encoding
import SymbolAtlas.Schema.Shape
import SymbolAtlas.Text.Path

/-!
# Settings

What can be configured, with its defaults and the rules that values have to meet.  Each section is
a record, which is written as a value, and has a shape, which says how such a value may be given.
-/

namespace SymbolAtlas

open Schema

/-- The levels that can be configured for logging. -/
inductive LogLevel where
  | debug
  | info
  | warning
  | error
  | critical
  deriving DecidableEq, Repr, Inhabited

namespace LogLevel

/-- The written name of a level. -/
def name : LogLevel → String
  | debug => "DEBUG"
  | info => "INFO"
  | warning => "WARNING"
  | error => "ERROR"
  | critical => "CRITICAL"

/-- Every level. -/
def all : List LogLevel := [debug, info, warning, error, critical]

/-- The level with a name. -/
def ofName? (name : String) : Option LogLevel := all.find? fun l => l.name = name

end LogLevel

/-- How log lines are written. -/
inductive LogFormat where
  | json
  | console
  deriving DecidableEq, Repr, Inhabited

namespace LogFormat

/-- The written name of a format. -/
def name : LogFormat → String
  | json => "json"
  | console => "console"

/-- Every format. -/
def all : List LogFormat := [json, console]

/-- The format with a name. -/
def ofName? (name : String) : Option LogFormat := all.find? fun f => f.name = name

end LogFormat

/-- One place that log lines go to. -/
structure LogOutput where
  format : LogFormat := .console
  /-- One of the standard streams or an absolute path. -/
  destination : String := "stderr"
  /-- The level of the output; that of the whole section if there is none. -/
  level : Option LogLevel := none
  deriving DecidableEq, Repr, Inhabited

/-- Where log lines go. -/
structure LoggingSettings where
  level : LogLevel := .info
  outputs : List LogOutput := [{}]
  deriving DecidableEq, Repr, Inhabited

/-- How sources are found, read and compared. -/
structure IndexSettings where
  extensions : List String := ["*.php", "*.php3", "*.php5", "*.phtml", "*.inc"]
  excludeDirs : List String := [".git", ".svn", ".hg", "node_modules"]
  encoding : String := "utf-8"
  cacheByFileHash : Bool := false
  maxFileSizeMb : Int := 10
  maxConcurrentParses : Int := 8
  deriving DecidableEq, Repr, Inhabited

/-- Limits of queries and queues. -/
structure LimitSettings where
  queryDefault : Int := 100
  eventQueueSize : Int := 1000
  deriving DecidableEq, Repr, Inhabited

/-- All settings. -/
structure Settings where
  logging : LoggingSettings := {}
  index : IndexSettings := {}
  limits : LimitSettings := {}
  deriving DecidableEq, Repr, Inhabited

/-! ## Rules -/

/-- The home directories of users; the empty name stands for whoever runs the program. -/
abbrev Homes := String → Option String

/-- The machine that settings are read on: who has a home there, and which codecs are installed. -/
structure Host where
  homes : Homes
  codecs : Codecs
  deriving Inhabited

/-- Why a destination is not accepted. -/
inductive DestinationFault where
  | relative
  /-- The path starts in the home directory of somebody unknown. -/
  | homeless
  /-- The path starts in the home directory of a user whose name no user can have. -/
  | nulInUser
  deriving DecidableEq, Repr, Inhabited

/-- The path with a leading home directory written out. -/
def expandHome (homes : Homes) (path : Path) : Except DestinationFault Path :=
  match path.root, path.parts with
  | "", first :: rest =>
    match first.toList with
    | '~' :: user =>
      if user.contains '\x00' then .error .nulInUser
      else
        match homes (String.ofList user) with
        | some home => .ok ((Path.parse home).join { root := "", parts := rest })
        | none => .error .homeless
    | _ => .ok path
  | _, _ => .ok path

/-- A destination in canonical form: a standard stream or an absolute path. -/
def canonicalDestination (homes : Homes) (text : String) : Except DestinationFault String :=
  if text = "stderr" || text = "stdout" then .ok text
  else
    match expandHome homes (Path.parse text) with
    | .error fault => .error fault
    | .ok path => if path.isAbsolute then .ok path.render else .error .relative

/-- What looking for the home directory of somebody unknown raises. -/
def Raised.homeless : Raised where
  kind := "RuntimeError"
  message := "Could not determine home directory."

/-- A destination has to be one of the standard streams or an absolute path. -/
def LogOutput.destinationRule (homes : Homes) (text : String) : Ruling :=
  match canonicalDestination homes text with
  | .ok path => .accepted (.str path)
  | .error .relative => .refused ("File destination must be absolute path: " ++ text)
  | .error .homeless => .raised .homeless
  | .error .nulInUser => .refused Path.nulMessage

/-- An encoding has to be known. -/
def IndexSettings.encodingRule (codecs : Codecs) (name : String) : Ruling :=
  match codecs.lookup name with
  | .ok _ => .accepted (.str name)
  | .error .unknown => .refused ("Unknown encoding: " ++ name)
  | .error (.refused text) => .refused text

/-- A number breaks a rule.  One that cannot be written out breaks it with what that raises. -/
def Schema.Ruling.gotNumber (text : String) (n : Int) : Ruling :=
  match (Value.int n).written with
  | .ok digits => .refused (text ++ digits)
  | .error r => .refused r.message

/-- At least one parse has to be allowed at a time. -/
def IndexSettings.concurrencyRule (n : Int) : Ruling :=
  if n < 1 then .gotNumber "max_concurrent_parses must be >= 1, got " n else .accepted (.int n)

/-- The greatest limit that queries can have by default. -/
def LimitSettings.queryMaximum : Int := 10000

/-- The default limit of queries has a maximum. -/
def LimitSettings.queryRule (n : Int) : Ruling :=
  if queryMaximum < n then
    .gotNumber ("query_default must be <= " ++ toString queryMaximum ++ ", got ") n
  else .accepted (.int n)

/-! ## Settings as values -/

namespace Value

/-- A list of texts as a value. -/
def ofTexts (texts : List String) : Value := .list (texts.map Value.str)

/-- The texts of a list of texts. -/
def texts? (v : Value) : Option (List String) := v.items?.bind fun items => items.mapM text?

/-- The number of an integer value. -/
def int? : Value → Option Int
  | .int i => some i
  | _ => none

/-- The truth value of a value that is one. -/
def bool? : Value → Option Bool
  | .bool b => some b
  | _ => none

end Value

namespace LogOutput

/-- An output as a value. -/
def toValue (o : LogOutput) : Value :=
  .object
    [("format", .str o.format.name), ("destination", .str o.destination),
     ("level", Value.ofText? (o.level.map LogLevel.name))]

/-- The output that a value stands for. -/
def ofValue? (v : Value) : Option LogOutput := do
  let format ← (v.field "format").text?.bind LogFormat.ofName?
  let destination ← (v.field "destination").text?
  let level ←
    match v.field "level" with
    | .null => some none
    | level => (level.text?.bind LogLevel.ofName?).map some
  return { format, destination, level }

end LogOutput

namespace LoggingSettings

/-- The section on logging as a value. -/
def toValue (s : LoggingSettings) : Value :=
  .object [("level", .str s.level.name), ("outputs", .list (s.outputs.map LogOutput.toValue))]

/-- The section on logging that a value stands for. -/
def ofValue? (v : Value) : Option LoggingSettings := do
  let level ← (v.field "level").text?.bind LogLevel.ofName?
  let outputs ← (v.field "outputs").items?.bind fun items => items.mapM LogOutput.ofValue?
  return { level, outputs }

end LoggingSettings

namespace IndexSettings

/-- The section on the index as a value. -/
def toValue (s : IndexSettings) : Value :=
  .object
    [("extensions", Value.ofTexts s.extensions), ("exclude_dirs", Value.ofTexts s.excludeDirs),
     ("encoding", .str s.encoding), ("cache_by_file_hash", .bool s.cacheByFileHash),
     ("max_file_size_mb", .int s.maxFileSizeMb),
     ("max_concurrent_parses", .int s.maxConcurrentParses)]

/-- The section on the index that a value stands for. -/
def ofValue? (v : Value) : Option IndexSettings := do
  let extensions ← (v.field "extensions").texts?
  let excludeDirs ← (v.field "exclude_dirs").texts?
  let encoding ← (v.field "encoding").text?
  let cacheByFileHash ← (v.field "cache_by_file_hash").bool?
  let maxFileSizeMb ← (v.field "max_file_size_mb").int?
  let maxConcurrentParses ← (v.field "max_concurrent_parses").int?
  return { extensions, excludeDirs, encoding, cacheByFileHash, maxFileSizeMb, maxConcurrentParses }

end IndexSettings

namespace LimitSettings

/-- The section on limits as a value. -/
def toValue (s : LimitSettings) : Value :=
  .object
    [("query_default", .int s.queryDefault), ("event_queue_size", .int s.eventQueueSize)]

/-- The section on limits that a value stands for. -/
def ofValue? (v : Value) : Option LimitSettings := do
  let queryDefault ← (v.field "query_default").int?
  let eventQueueSize ← (v.field "event_queue_size").int?
  return { queryDefault, eventQueueSize }

end LimitSettings

namespace Settings

/-- All settings as a value. -/
def toValue (s : Settings) : Value :=
  .object
    [("logging", s.logging.toValue), ("index", s.index.toValue), ("limits", s.limits.toValue)]

/-- The settings that a value stands for. -/
def ofValue? (v : Value) : Option Settings := do
  let logging ← LoggingSettings.ofValue? (v.field "logging")
  let index ← IndexSettings.ofValue? (v.field "index")
  let limits ← LimitSettings.ofValue? (v.field "limits")
  return { logging, index, limits }

end Settings

/-! ## Shapes -/

/-- The names of the levels as a shape. -/
def LogLevel.shape : Shape := .atom (.literal (all.map name))

/-- The names of the formats as a shape. -/
def LogFormat.shape : Shape := .atom (.literal (all.map name))

/-- The fields of an output. -/
def LogOutput.fields (host : Host) : List (Slot Shape) :=
  let base : LogOutput := {}
  [⟨"format", LogFormat.shape, .str base.format.name⟩,
   ⟨"destination", .ruled (.atom .text) (Ruling.onText (destinationRule host.homes)),
     .str base.destination⟩,
   ⟨"level", .optional LogLevel.shape, Value.ofText? (base.level.map LogLevel.name)⟩]

/-- The shape of an output. -/
def LogOutput.shape (host : Host) : Shape := .model "LogOutputConfig" false (fields host)

/-- The shape of the section on logging. -/
def LoggingSettings.shape (host : Host) : Shape :=
  let base : LoggingSettings := {}
  .model "LoggingConfig" false
    [⟨"level", LogLevel.shape, .str base.level.name⟩,
     ⟨"outputs", .list (LogOutput.shape host), .list (base.outputs.map LogOutput.toValue)⟩]

/-- The shape of the section on the index. -/
def IndexSettings.shape (host : Host) : Shape :=
  let base : IndexSettings := {}
  .model "IndexConfig" false
    [⟨"extensions", .list (.atom .text), Value.ofTexts base.extensions⟩,
     ⟨"exclude_dirs", .list (.atom .text), Value.ofTexts base.excludeDirs⟩,
     ⟨"encoding", .ruled (.atom .text) (Ruling.onText (encodingRule host.codecs)),
       .str base.encoding⟩,
     ⟨"cache_by_file_hash", .atom .bool, .bool base.cacheByFileHash⟩,
     ⟨"max_file_size_mb", .atom .int, .int base.maxFileSizeMb⟩,
     ⟨"max_concurrent_parses", .ruled (.atom .int) (Ruling.onInt concurrencyRule),
       .int base.maxConcurrentParses⟩]

/-- The shape of the section on limits. -/
def LimitSettings.shape : Shape :=
  let base : LimitSettings := {}
  .model "LimitsConfig" false
    [⟨"query_default", .ruled (.atom .int) (Ruling.onInt queryRule), .int base.queryDefault⟩,
     ⟨"event_queue_size", .atom .int, .int base.eventQueueSize⟩]

namespace Settings

/-- The three sections. -/
def sections (host : Host) : List (Slot Shape) :=
  [⟨"logging", LoggingSettings.shape host, LoggingSettings.toValue {}⟩,
   ⟨"index", IndexSettings.shape host, IndexSettings.toValue {}⟩,
   ⟨"limits", LimitSettings.shape, LimitSettings.toValue {}⟩]

/-- The shape of settings; what is not known is passed over. -/
def shape (host : Host) : Shape := .model "SymIndexConfig" false (sections host)

/-- The shape of layers that were laid over each other; there has to be nothing unknown. -/
def layeredShape (host : Host) : Shape := .model "SymIndexSettings" true (sections host)

end Settings

end SymbolAtlas
