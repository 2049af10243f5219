import SymbolAtlas.Settings.Sources
import SymbolAtlas.Value.Json
import SymbolAtlas.Yaml.Reader

/-!
# A library to work with

The variables that concern settings start with a word of their own; the parts of their names are
set off by double underscores.  What a section is given in JSON lies under what its single
variables hold.  Documents are written in UTF-8, as JSON or in plain YAML.
-/

namespace SymbolAtlas.Settings

open Schema

/-! ## The environment -/

section Environment

variable (json : String → Option Value)

/-- The fields of a section that hold lists. -/
def listFields (sectionName : String) : List String :=
  match sectionName with
  | "logging" => ["outputs"]
  | "index" => ["extensions", "exclude_dirs"]
  | _ => []

/-- What the name of every variable starts with, in lower case. -/
def variableStart : List Char := "symindex__".toList

/-- Splits a text at double underscores. -/
def splitDoubled : List Char → List (List Char)
  | '_' :: '_' :: rest => [] :: splitDoubled rest
  | c :: rest =>
    match splitDoubled rest with
    | [] => [[c]]
    | part :: more => (c :: part) :: more
  | [] => [[]]

/-- A name in lower case. -/
def inLowerCase (name : String) : String :=
  String.ofList (name.toList.map Char.toLower)

/-- The parts of a variable's name, given in lower case, after its start; none if it starts
otherwise. -/
def variableParts? (name : String) : Option (List String) :=
  if variableStart.isPrefixOf name.toList then
    some ((splitDoubled (name.toList.drop variableStart.length)).map String.ofList)
  else none

/-- The variables by names in lower case.  Of names that differ in nothing else the last one
counts, in the place of the first. -/
def lowered (environment : List (String × String)) : Ledger String :=
  environment.foldl (fun known entry => known.set (inLowerCase entry.1) entry.2) []

/-- The variables of an environment that concern settings: the parts of their names and their
texts. -/
def settingVariables (environment : List (String × String)) : List (List String × String) :=
  (lowered environment).filterMap fun (name, text) =>
    (variableParts? name).map fun parts => (parts, text)

/-- Enters a value below a path of names.  A name that already holds something else than an object
blocks the way. -/
def enter (fields : Ledger Value) : List String → Value → Ledger Value
  | [], _ => fields
  | [key], v => fields.set key v
  | key :: rest, v =>
    match fields.get? key with
    | none => fields.set key (.object (enter [] rest v))
    | some (.object inner) => fields.set key (.object (enter inner rest v))
    | some _ => fields

/-- What a variable raises that has to be JSON and is not. -/
def badVariable (sectionName : String) : Raised where
  kind := "SettingsError"
  message :=
    "error parsing value for field \"" ++ sectionName ++ "\" from source \"EnvSettingsSource\""

/-- The value of a variable below a section: lists are written in JSON, all else is text. -/
def variableValue? (sectionName : String) (path : List String) (text : String) : Option Value :=
  match path with
  | [key] =>
    if (listFields sectionName).contains key && text ≠ "" then json text
    else some (.str text)
  | _ => some (.str text)

/-- The fields that single variables set in a section. -/
def sectionVariables (sectionName : String) :
    List (List String × String) → Ledger Value → Except Raised (Ledger Value)
  | [], acc => .ok acc
  | (parts, text) :: rest, acc =>
    match parts with
    | first :: path =>
      if first = sectionName && !path.isEmpty then
        match variableValue? json sectionName path text with
        | some v => sectionVariables sectionName rest (enter acc path v)
        | none => .error (badVariable sectionName)
      else sectionVariables sectionName rest acc
    | [] => sectionVariables sectionName rest acc

/-- What the environment sets for a section: the JSON of the whole section with the single
variables laid over it.  JSON that is no object stands alone, and `null` sets nothing. -/
def sectionFromEnvironment (vars : List (List String × String)) (sectionName : String) :
    Except Raised (Option Value) :=
  match (vars.reverse.find? fun entry => entry.1 = [sectionName]) with
  | none =>
    match sectionVariables json sectionName vars [] with
    | .error r => .error r
    | .ok [] => .ok none
    | .ok fields => .ok (some (.object fields))
  | some (_, text) =>
    match json text with
    | none => .error (badVariable sectionName)
    | some .null => .ok none
    | some (.object whole) =>
      match sectionVariables json sectionName vars [] with
      | .error r => .error r
      | .ok fields => .ok (some (.object (Value.overlay whole fields)))
    | some other => .ok (some other)

/-- What the environment sets for a list of sections. -/
def fromEnvironment (vars : List (List String × String)) :
    List String → Except Raised (Ledger Value)
  | [] => .ok []
  | name :: rest =>
    match sectionFromEnvironment json vars name, fromEnvironment vars rest with
    | .error r, _ => .error r
    | _, .error r => .error r
    | .ok none, .ok fields => .ok fields
    | .ok (some v), .ok fields => .ok ((name, v) :: fields)

end Environment

/-! ## Documents -/

/-- What a document with a value comes to. -/
def Reading.ofValue : Value → Reading
  | .object fields => .mapping fields
  | v => .other v.truthy

/-- Reads a document. -/
def readDocument (bytes : List UInt8) : Reading :=
  match Encoding.decode .utf8 bytes with
  | .error fault => .raised { kind := "UnicodeDecodeError", message := fault.message }
  | .ok text =>
    match (Json.read? text).or (Yaml.read? text) with
    | some v => .ofValue v
    | none => .malformed "no document"

/-! ## The library -/

/-- Direct arguments are fields unless they start with an underscore. -/
def passedFields (direct : Ledger Value) : Ledger Value :=
  direct.filter fun entry => entry.1.toList.head? ≠ some '_'

/-- A library to work with, on some machine. -/
def Library.common (host : Host) : Library where
  toHost := host
  document := readDocument
  passed direct := .ok (passedFields direct)
  environment environment := fromEnvironment Json.read? (settingVariables environment) sectionNames
  json := Json.read?
  merge layers := layers.foldl (fun above below => Value.overlay below above) []
  validate := Shape.read

end SymbolAtlas.Settings
