import SymbolAtlas.Value
import SymbolAtlas.Number.Shortest

/-!
# JSON text

The reader keeps the order of the fields of an object and tells integers, of any size, from
numbers with a fraction or an exponent.  If a field is written twice the later value stands, in
the place of the first.  Every step of the reader consumes at least one character, so the number
of characters bounds its recursion.
-/

namespace SymbolAtlas.Json

/-- The blanks that may stand between tokens. -/
def isBlank (c : Char) : Bool :=
  c = ' ' || c = '\t' || c = '\n' || c = '\r'

/-- The text after leading blanks. -/
def skipBlanks (s : List Char) : List Char :=
  s.dropWhile isBlank

/-- The value of a hexadecimal digit. -/
def hexValue? (c : Char) : Option Nat :=
  if '0' ≤ c && c ≤ '9' then some (c.toNat - '0'.toNat)
  else if 'a' ≤ c && c ≤ 'f' then some (c.toNat - 'a'.toNat + 10)
  else if 'A' ≤ c && c ≤ 'F' then some (c.toNat - 'A'.toNat + 10)
  else none

/-- The code unit written as four hexadecimal digits. -/
def codeUnit? (a b c d : Char) : Option Nat := do
  return (((← hexValue? a) * 16 + (← hexValue? b)) * 16 + (← hexValue? c)) * 16 + (← hexValue? d)

/-- The character after a backslash that stands for one character. -/
def simpleEscape? (c : Char) : Option Char :=
  match c with
  | '"' => some '"'
  | '\\' => some '\\'
  | '/' => some '/'
  | 'b' => some '\x08'
  | 'f' => some '\x0c'
  | 'n' => some '\n'
  | 'r' => some '\r'
  | 't' => some '\t'
  | _ => none

/-- The rest of a string after its opening quote: its characters and what follows it. -/
def readString : List Char → List Char → Option (String × List Char)
  | '"' :: rest, acc => some (String.ofList acc.reverse, rest)
  | '\\' :: 'u' :: a :: b :: c :: d :: '\\' :: 'u' :: e :: f :: g :: h :: rest, acc =>
    match codeUnit? a b c d, codeUnit? e f g h with
    | some hi, some lo =>
      if 0xD800 ≤ hi && hi < 0xDC00 && 0xDC00 ≤ lo && lo < 0xE000 then
        readString rest (Char.ofNat (0x10000 + (hi - 0xD800) * 0x400 + (lo - 0xDC00)) :: acc)
      else readString ('\\' :: 'u' :: e :: f :: g :: h :: rest) (Char.ofNat hi :: acc)
    | _, _ => none
  | '\\' :: 'u' :: a :: b :: c :: d :: rest, acc =>
    match codeUnit? a b c d with
    | some unit => readString rest (Char.ofNat unit :: acc)
    | none => none
  | '\\' :: c :: rest, acc =>
    match simpleEscape? c with
    | some e => readString rest (e :: acc)
    | none => none
  | c :: rest, acc => if c.toNat < 0x20 then none else readString rest (c :: acc)
  | [], _ => none
termination_by s => s.length

/-- The natural number that a list of decimal digits denotes. -/
def natOfDigits (ds : List Char) : Nat :=
  ds.foldl (fun n d => n * 10 + (d.toNat - '0'.toNat)) 0

/-- Splits leading decimal digits off. -/
def spanDigits (s : List Char) : List Char × List Char :=
  s.span Char.isDigit

/-- The exponent at the end of a number, if one is written. -/
def readExponent (s : List Char) : Option Int × List Char :=
  match s with
  | mark :: rest =>
    if mark = 'e' || mark = 'E' then
      let (negative, digits) :=
        match rest with
        | '-' :: r => (true, r)
        | '+' :: r => (false, r)
        | r => (false, r)
      match spanDigits digits with
      | ([], _) => (none, s)
      | (ds, after) =>
        let n : Int := natOfDigits ds
        (some (if negative then -n else n), after)
    else (none, s)
  | [] => (none, s)

/-- A number at the start of the text. -/
def readNumber (s : List Char) : Option (Value × List Char) :=
  let (negative, body) :=
    match s with
    | '-' :: rest => (true, rest)
    | rest => (false, rest)
  let whole :=
    match body with
    | '0' :: rest => (['0'], rest)
    | rest => spanDigits rest
  match whole with
  | ([], _) => none
  | (ds, rest) =>
    let (fraction, rest) :=
      match rest with
      | '.' :: after =>
        match spanDigits after with
        | ([], _) => ([], rest)
        | (fs, more) => (fs, more)
      | other => ([], other)
    let (exponent, rest) := readExponent rest
    if fraction.isEmpty && exponent.isNone then
      let n : Int := natOfDigits ds
      some (.int (if negative then -n else n), rest)
    else
      let power : Int := exponent.getD 0 - (fraction.length : Int)
      some (.float (Double.ofDecimal negative (natOfDigits (ds ++ fraction)) power), rest)

mutual

/-- A value at the start of the text, leading blanks skipped. -/
def readValue : Nat → List Char → Option (Value × List Char)
  | 0, _ => none
  | fuel + 1, s =>
    match skipBlanks s with
    | '\x7b' :: rest =>
      match skipBlanks rest with
      | '\x7d' :: after => some (.object [], after)
      | body => readFields fuel body []
    | '[' :: rest =>
      match skipBlanks rest with
      | ']' :: after => some (.list [], after)
      | body => readItems fuel body []
    | '"' :: rest => (readString rest []).map fun (text, after) => (.str text, after)
    | 'n' :: 'u' :: 'l' :: 'l' :: after => some (.null, after)
    | 't' :: 'r' :: 'u' :: 'e' :: after => some (.bool true, after)
    | 'f' :: 'a' :: 'l' :: 's' :: 'e' :: after => some (.bool false, after)
    | other => readNumber other

/-- The items of a list, from its next item to its closing bracket. -/
def readItems : Nat → List Char → List Value → Option (Value × List Char)
  | 0, _, _ => none
  | fuel + 1, s, acc =>
    match readValue fuel s with
    | none => none
    | some (v, rest) =>
      match skipBlanks rest with
      | ',' :: more => readItems fuel more (v :: acc)
      | ']' :: after => some (.list (v :: acc).reverse, after)
      | _ => none

/-- The fields of an object, from its next name to its closing brace. -/
def readFields : Nat → List Char → Ledger Value → Option (Value × List Char)
  | 0, _, _ => none
  | fuel + 1, s, acc =>
    match skipBlanks s with
    | '"' :: rest =>
      match readString rest [] with
      | none => none
      | some (key, rest) =>
        match skipBlanks rest with
        | ':' :: rest =>
          match readValue fuel rest with
          | none => none
          | some (v, rest) =>
            match skipBlanks rest with
            | ',' :: more => readFields fuel more (acc.set key v)
            | '\x7d' :: after => some (.object (acc.set key v), after)
            | _ => none
        | _ => none
    | _ => none

end

/-- The value that a whole text denotes; blanks may stand around it and nothing else. -/
def read? (text : String) : Option Value :=
  let chars := text.toList
  match readValue (chars.length + 1) chars with
  | some (v, rest) => if (skipBlanks rest).isEmpty then some v else none
  | none => none

/-- One character inside a written string. -/
def escape (c : Char) : String :=
  match c with
  | '"' => "\\\""
  | '\\' => "\\\\"
  | '\n' => "\\n"
  | '\r' => "\\r"
  | '\t' => "\\t"
  | c =>
    if c.toNat < 0x20 then
      let digits := Nat.toDigits 16 c.toNat
      "\\u" ++ String.ofList (List.replicate (4 - digits.length) '0' ++ digits)
    else String.singleton c

/-- A string in quotes. -/
def writeString (s : String) : String :=
  s.toList.foldl (fun acc c => acc ++ escape c) "\"" ++ "\""

mutual

/-- The text of a value, without blanks, appended to what has been written before. -/
def writeOnto (out : String) : Value → String
  | .null => out ++ "null"
  | .bool b => out ++ (if b then "true" else "false")
  | .int i => out ++ toString i
  | .float x => out ++ x.text
  | .str s => out ++ writeString s
  | .list [] => out ++ "[]"
  | .list (v :: rest) => writeItems (writeOnto (out ++ "[") v) rest ++ "]"
  | .object [] => out ++ "\x7b\x7d"
  | .object ((k, v) :: rest) =>
    writeFields (writeOnto (out ++ "\x7b" ++ writeString k ++ ":") v) rest ++ "\x7d"
termination_by structural v => v

/-- Further items of a list, each after a comma. -/
def writeItems (out : String) : List Value → String
  | [] => out
  | v :: rest => writeItems (writeOnto (out ++ ",") v) rest
termination_by structural vs => vs

/-- Further fields of an object, each after a comma. -/
def writeFields (out : String) : List (String × Value) → String
  | [] => out
  | (k, v) :: rest => writeFields (writeOnto (out ++ "," ++ writeString k ++ ":") v) rest
termination_by structural fs => fs

end

/-- The text of a value, without blanks. -/
def write (v : Value) : String :=
  writeOnto "" v

end SymbolAtlas.Json
