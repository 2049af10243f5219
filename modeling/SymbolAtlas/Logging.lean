import SymbolAtlas.Journal.Context
import SymbolAtlas.Settings
import SymbolAtlas.Value.Display

/-!
# Logging

From settings follow a threshold for everything that is logged and one sink for each output, with
a threshold of its own.  A record passes to every sink whose threshold it reaches, in the format of
that sink.  Records of one noisy component have to be warnings at least.
-/

namespace SymbolAtlas

namespace LogLevel

/-- The number of a level; a higher number is more urgent. -/
def number : LogLevel → Nat
  | debug => 10
  | info => 20
  | warning => 30
  | error => 40
  | critical => 50

/-- The written name of a level in log lines. -/
def label : LogLevel → String
  | debug => "debug"
  | info => "info"
  | warning => "warning"
  | error => "error"
  | critical => "critical"

end LogLevel

/-! ## Thresholds -/

/-- A letter in upper case, as far as the names of levels need it: the dotless i and the long s
are forms of ordinary letters. -/
def upperLetter (c : Char) : Char :=
  if c = 'ı' then 'I' else if c = 'ſ' then 'S' else c.toUpper

/-- The number that a name stands for, in any case. -/
def thresholdOf? (name : String) : Option Nat :=
  match String.ofList (name.toList.map upperLetter) with
  | "CRITICAL" | "FATAL" => some 50
  | "ERROR" => some 40
  | "WARNING" | "WARN" => some 30
  | "INFO" => some 20
  | "DEBUG" => some 10
  | "NOTSET" => some 0
  | _ => none

/-- The name of a level is read as its number. -/
@[simp] theorem thresholdOf?_name (l : LogLevel) : thresholdOf? l.name = some l.number := by
  cases l <;> rfl

/-- The first name of two that is not empty. -/
def firstName (preferred : Option String) (fallback : String) : String :=
  match preferred with
  | some "" => fallback
  | some name => name
  | none => fallback

/-- A place for log lines with the threshold that records have to reach. -/
structure LogSink where
  destination : String
  format : LogFormat
  threshold : Nat
  deriving DecidableEq, Repr, Inhabited

/-- Whether the sink is one of the standard streams. -/
def LogSink.isStream (s : LogSink) : Bool :=
  s.destination = "stderr" || s.destination = "stdout"

/-- How records are passed on. -/
structure LogRoute where
  threshold : Nat
  sinks : List LogSink
  deriving DecidableEq, Repr, Inhabited

/-- The threshold of a component that says too much. -/
def quietThreshold : Nat := LogLevel.warning.number

/-- Whether a component, or one that it is part of, says too much. -/
def isNoisy (component : String) : Bool :=
  component = "asyncio" || "asyncio.".toList.isPrefixOf component.toList

namespace LogRoute

/-- The route that settings describe.  A level given by name replaces that of the settings but not
that of a single output, and a name that is no level stands for the level of information. -/
def ofSettings (s : LoggingSettings) (level : Option String) : LogRoute :=
  let general := firstName level s.level.name
  let threshold := (thresholdOf? general).getD LogLevel.info.number
  { threshold := threshold
    sinks := s.outputs.map fun o =>
      { destination := o.destination
        format := o.format
        threshold := (thresholdOf? ((o.level.map LogLevel.name).getD general)).getD threshold } }

/-- The threshold for the records of a component. -/
def thresholdFor (r : LogRoute) (component : Option String) : Nat :=
  match component with
  | some name => if isNoisy name then quietThreshold else r.threshold
  | none => r.threshold

end LogRoute

/-! ## Records and lines -/

/-- Something to log: the component that reports it unless it is the index itself, how urgent it
is, what happened and the facts. -/
structure LogRecord where
  component : Option String := none
  level : LogLevel
  event : String
  fields : Ledger Value := []
  deriving Inhabited

/-- A log line, by format. -/
inductive LogLine where
  | json (fields : Ledger Value)
  | console (text : String)
  deriving Inhabited

/-- Adds what a context binds, as far as the record says nothing itself. -/
def addContext (fields bound : Ledger Value) : Ledger Value :=
  fields ++ bound.filter fun entry => !fields.contains entry.1

/-- A value on a console line: a text without blanks, quotes or equals signs is bare. -/
def consoleValue : Value → String
  | .str s =>
    if s.toList.any (fun c => [' ', '\t', '=', '\r', '\n', '"', '\''].contains c) then
      Text.quoted s
    else s
  | v => v.literal

/-- A text without the blanks at its end. -/
def trimEnd (s : String) : String :=
  String.ofList (s.toList.reverse.dropWhile (· = ' ')).reverse

namespace LogRecord

/-- The fields that are neither the event, the level nor the time. -/
def facts (r : LogRecord) (bound : Ledger Value) : Ledger Value :=
  (addContext r.fields bound).filter fun entry =>
    !(["event", "level", "timestamp"].contains entry.1)

/-- All fields of a record at a time. -/
def allFields (r : LogRecord) (bound : Ledger Value) (time : String) : Ledger Value :=
  r.facts bound ++
    [("event", .str r.event), ("level", .str r.level.label), ("timestamp", .str time)]

/-- A record on a console: time, level, event and the facts sorted by name. -/
def consoleText (r : LogRecord) (bound : Ledger Value) (time : String) : String :=
  let sorted := (r.facts bound).mergeSort fun a b => !(b.1 < a.1)
  let parts := [time, "[" ++ r.level.label ++ "]", r.event] ++
    sorted.map fun entry => entry.1 ++ "=" ++ consoleValue entry.2
  trimEnd (" ".intercalate (parts.filter (· ≠ "")))

/-- The line of a record in a format. -/
def line (r : LogRecord) (bound : Ledger Value) (time : String) : LogFormat → LogLine
  | .json => .json (r.allFields bound time)
  | .console => .console (r.consoleText bound time)

end LogRecord

namespace LogRoute

/-- Whether a record reaches a sink. -/
def reaches (r : LogRoute) (record : LogRecord) (sink : LogSink) : Bool :=
  r.thresholdFor record.component ≤ record.level.number && sink.threshold ≤ record.level.number

/-- The lines that a record leads to, each with its destination. -/
def deliver (r : LogRoute) (context : Context) (time : String) (record : LogRecord) :
    List (String × LogLine) :=
  (r.sinks.filter (r.reaches record)).map fun sink =>
    (sink.destination, record.line context.bound time sink.format)

/-- The lines that records lead to at a destination. -/
def linesAt (r : LogRoute) (context : Context) (time : String) (records : List LogRecord)
    (destination : String) : List LogLine :=
  ((records.flatMap (r.deliver context time)).filter fun entry => entry.1 = destination).map (·.2)

end LogRoute

end SymbolAtlas
