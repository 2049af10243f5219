import SymbolAtlas.Settings
import SymbolAtlas.Value.Equality
import SymbolAtlas.Value.Overlay

/-!
# Where settings come from

Settings are layered: what is passed directly lies over the environment, the environment over the
document of the repository, and that over the global document.  The layers are laid over each
other field by field, the result is read once, and what is written of it is read once more.

How documents are read, what an environment sets, how layers are laid over each other and what
becomes of values under a shape is up to a library.
-/

namespace SymbolAtlas.Settings

open Schema

/-- What the content of a configuration document comes to. -/
inductive Reading where
  | mapping (fields : Ledger Value)
  /-- Something else, which counts as true or as false. -/
  | other (truthy : Bool)
  /-- No document at all; the text says why. -/
  | malformed (reason : String)
  | raised (raised : Raised)
  deriving DecidableEq, Inhabited

/-- What loading settings leaves to others, on some machine. -/
structure Library extends Host where
  /-- Reads the content of a configuration document. -/
  document : List UInt8 → Reading
  /-- The fields that direct arguments set.  Names that start with an underscore steer the library
  and set no field. -/
  passed : Ledger Value → Except Raised (Ledger Value)
  /-- The fields that the variables of an environment set. -/
  environment : List (String × String) → Except Raised (Ledger Value)
  /-- Reads the JSON that variables hold. -/
  json : String → Option Value
  /-- Lays layers over each other; the first one is on top. -/
  merge : List (Ledger Value) → Ledger Value
  validate : Validator

/-- A configuration document: none, or what a file holds. -/
inductive Document where
  | absent
  | content (bytes : List UInt8)
  deriving Inhabited

/-- Why settings could not be loaded. -/
inductive LoadFault where
  | failed (failure : Failure)
  | raised (raised : Raised)
  /-- What is written of the settings that were read is not accepted. -/
  | rejected (issues : List Issue)
  deriving Inhabited

/-- What settings are made from. -/
structure Sources where
  globalPath : String
  globalDocument : Document
  repositoryPath : String
  repositoryDocument : Document
  environment : List (String × String)
  direct : Ledger Value
  deriving Inhabited

/-- The sections, in order. -/
def sectionNames : List String := ["logging", "index", "limits"]

section Loading

variable (lib : Library)

/-- The fields that a document sets.  A document that counts as false sets none. -/
def Document.fields (path : String) : Document → Except LoadFault (Ledger Value)
  | absent => .ok []
  | content bytes =>
    match lib.document bytes with
    | .mapping fields => .ok fields
    | .other true => .error (.failed (.badDocument path "top level must be a mapping"))
    | .other false => .ok []
    | .malformed reason => .error (.failed (.badDocument path reason))
    | .raised r => .error (.raised r)

/-- The fields of both documents, those of the repository over the global ones. -/
def Sources.documents (s : Sources) : Except LoadFault (Ledger Value) := do
  let lower ← s.globalDocument.fields lib s.globalPath
  let upper ← s.repositoryDocument.fields lib s.repositoryPath
  return Value.overlay lower upper

/-- The layers laid over each other. -/
def Sources.layered (s : Sources) : Except LoadFault (Ledger Value) := do
  let documents ← s.documents lib
  let direct ← (lib.passed s.direct).mapError .raised
  let environment ← (lib.environment s.environment).mapError .raised
  return lib.merge [direct, environment, documents]

/-- What an issue amounts to: a failure, unless the value cannot be written out. -/
def faultOf (issue : Issue) : LoadFault :=
  match issue.input.written with
  | .ok _ =>
    .failed (.badSetting (".".intercalate (issue.place.map Step.display)) issue.input
      issue.cause.message)
  | .error r => .raised r

/-- Reads the settings that the layers hold; the first issue counts. -/
def readLayers (s : Sources) : Except LoadFault Value := do
  let fields ← s.layered lib
  match lib.validate (layeredShape lib.toHost) (.object fields) with
  | .valid v => return v
  | .invalid issues => throw (faultOf (issues.headD default))
  | .raised r => throw (.raised r)

/-- Reads what is written of settings. -/
def readBack (v : Value) : Except LoadFault Value :=
  match lib.validate (shape lib.toHost) v with
  | .valid w => .ok w
  | .invalid issues => .error (.rejected issues)
  | .raised r => .error (.raised r)

/-- Loads settings from their sources, as a value.  They are read from the layers and, once they
are written, read back. -/
def load (s : Sources) : Except LoadFault Value := do
  let settings ← readLayers lib s
  readBack lib settings

end Loading

end SymbolAtlas.Settings
