import SymbolAtlas.Value.Display

/-!
# Failures

The failures that an index reports, each with a code, a wording and the facts behind it.  What is
raised besides them has no code.
-/

namespace SymbolAtlas

/-- An exception that is none of the failures of an index: its kind and its text. -/
structure Raised where
  kind : String
  message : String
  deriving DecidableEq, Repr, Inhabited

/-- What writing a number raises that has too many digits. -/
def Raised.tooManyDigits : Raised where
  kind := "ValueError"
  message := "Exceeds the limit (4300 digits) for integer string conversion; " ++
    "use sys.set_int_max_str_digits() to increase the limit"

/-- A value written out. -/
def Value.written (v : Value) : Except Raised String :=
  if v.isWritable then .ok v.display else .error .tooManyDigits

/-- The code of a failure.  Codes from 2000 concern configuration, those from 3000 the index. -/
inductive FailureCode where
  | configParseError
  | configInvalidValue
  | indexReadFailed
  | indexParseFailed
  | indexCacheInvalid
  | indexFileTooLarge
  deriving DecidableEq, Repr, Inhabited

namespace FailureCode

/-- The number of a code. -/
def number : FailureCode → Nat
  | configParseError => 2001
  | configInvalidValue => 2002
  | indexReadFailed => 3001
  | indexParseFailed => 3002
  | indexCacheInvalid => 3003
  | indexFileTooLarge => 3004

/-- The name of a code. -/
def name : FailureCode → String
  | configParseError => "CONFIG_PARSE_ERROR"
  | configInvalidValue => "CONFIG_INVALID_VALUE"
  | indexReadFailed => "INDEX_READ_FAILED"
  | indexParseFailed => "INDEX_PARSE_FAILED"
  | indexCacheInvalid => "INDEX_CACHE_INVALID"
  | indexFileTooLarge => "INDEX_FILE_TOO_LARGE"

/-- Every code. -/
def all : List FailureCode :=
  [configParseError, configInvalidValue, indexReadFailed, indexParseFailed, indexCacheInvalid,
    indexFileTooLarge]

/-- The code with a number. -/
def ofNumber? (n : Int) : Option FailureCode :=
  all.find? (fun c => (c.number : Int) = n)

/-- A code's number denotes that code. -/
@[simp] theorem ofNumber?_number (c : FailureCode) : ofNumber? c.number = some c := by
  cases c <;> decide

end FailureCode

/-- What went wrong. -/
inductive Failure where
  /-- A configuration document cannot be read. -/
  | badDocument (path reason : String)
  /-- A setting has a value that it cannot have. -/
  | badSetting (field : String) (value : Value) (reason : String)
  /-- A source file cannot be read; trying again may help. -/
  | readFailed (name reason : String)
  /-- A source file cannot be parsed. -/
  | parseFailed (name reason : String)
  /-- A source file is larger than the limit. -/
  | tooLarge (name : String) (size limit : Int)
  /-- A snapshot is malformed or not consistent. -/
  | badSnapshot (reason : String) (name : Option String)
  /-- A failure stated in full. -/
  | stated (code : FailureCode) (message : String) (retryable : Bool) (details : Ledger Value)
  deriving Inhabited

namespace Failure

/-- The code of a failure. -/
def code : Failure → FailureCode
  | badDocument .. => .configParseError
  | badSetting .. => .configInvalidValue
  | readFailed .. => .indexReadFailed
  | parseFailed .. => .indexParseFailed
  | tooLarge .. => .indexFileTooLarge
  | badSnapshot .. => .indexCacheInvalid
  | stated code .. => code

/-- The wording of a failure. -/
def message : Failure → String
  | badDocument path reason => "Failed to parse config at " ++ path ++ ": " ++ reason
  | badSetting field _ reason => "Invalid value for '" ++ field ++ "': " ++ reason
  | readFailed name reason => "Cannot read " ++ name ++ ": " ++ reason
  | parseFailed name reason => "Cannot parse " ++ name ++ ": " ++ reason
  | tooLarge name size limit =>
    name ++ " is " ++ toString size ++ " bytes, limit is " ++ toString limit
  | badSnapshot reason _ => "Invalid cache snapshot: " ++ reason
  | stated _ message _ _ => message

/-- Whether trying again may help. -/
def retryable : Failure → Bool
  | readFailed .. => true
  | stated _ _ retryable _ => retryable
  | _ => false

/-- The facts behind a failure. -/
def details : Failure → Ledger Value
  | badDocument path reason => [("path", .str path), ("reason", .str reason)]
  | badSetting field value reason =>
    [("field", .str field), ("value", .str value.display), ("reason", .str reason)]
  | readFailed name reason => [("name", .str name), ("reason", .str reason)]
  | parseFailed name reason => [("name", .str name), ("reason", .str reason)]
  | tooLarge name size limit =>
    [("name", .str name), ("size", .int size), ("limit", .int limit)]
  | badSnapshot reason name =>
    ("reason", .str reason) :: (name.toList.map fun n => ("name", Value.str n))
  | stated _ _ _ details => details

/-- A failure as a plain value. -/
def toValue (f : Failure) : Value :=
  .object
    [("code", .int f.code.number),
     ("error", .str f.code.name),
     ("message", .str f.message),
     ("retryable", .bool f.retryable),
     ("details", .object f.details)]

/-- A failure on one line: its code, the code's name and the wording. -/
def headline (f : Failure) : String :=
  "[" ++ toString f.code.number ++ "] " ++ f.code.name ++ ": " ++ f.message

end Failure

end SymbolAtlas
