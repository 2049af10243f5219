import SymbolAtlas.Value
import SymbolAtlas.Number.Reading

/-!
# Plain scalars

What a word without quotes stands for in a YAML document: nothing, a truth value, a number, or
itself.  Words that stand for anything else are not read.
-/

namespace SymbolAtlas.Yaml

/-- The words for nothing. -/
def nullWords : List String := ["", "~", "null", "Null", "NULL"]

/-- The words for true. -/
def trueWords : List String :=
  ["true", "True", "TRUE", "yes", "Yes", "YES", "on", "On", "ON"]

/-- The words for false. -/
def falseWords : List String :=
  ["false", "False", "FALSE", "no", "No", "NO", "off", "Off", "OFF"]

/-- The natural number that digits of a base denote, underscores passed over. -/
def natInBase? (base : Nat) (ds : List Char) : Option Nat :=
  let digits := ds.filter (· ≠ '_')
  let value (c : Char) : Nat :=
    if c.isDigit then c.toNat - '0'.toNat
    else if 'a' ≤ c && c ≤ 'f' then c.toNat - 'a'.toNat + 10
    else if 'A' ≤ c && c ≤ 'F' then c.toNat - 'A'.toNat + 10
    else base
  if digits.isEmpty || digits.any (fun c => base ≤ value c) then none
  else some (digits.foldl (fun n c => n * base + value c) 0)

/-- The number that groups of decimal digits denote in base sixty; a group after the first has at
most two digits. -/
def natInSixties? (groups : List (List Char)) : Option Nat := do
  let first ← natInBase? 10 (groups.headD [])
  groups.tail.foldlM (fun n group => do
    let m ← natInBase? 10 group
    if 2 < group.length || 60 ≤ m then none else some (n * 60 + m)) first

/-- The integer that a word denotes. -/
def intWord? (s : List Char) : Option Int :=
  let (negative, body) := Number.splitSign s
  let magnitude : Option Nat :=
    match body with
    | ['0'] => some 0
    | '0' :: 'b' :: ds => natInBase? 2 ds
    | '0' :: 'x' :: ds => natInBase? 16 ds
    | '0' :: ds => natInBase? 8 ds
    | d :: _ => if d.isDigit then natInSixties? (body.splitOn ':') else none
    | [] => none
  magnitude.map fun n => if negative then -(n : Int) else n

/-- Whether an exponent, if there is one, has a sign. -/
def hasSignedExponent (s : List Char) : Bool :=
  match s.dropWhile fun c => c ≠ 'e' && c ≠ 'E' with
  | [] => true
  | _ :: mark :: _ => mark = '+' || mark = '-'
  | _ => false

/-- The floating point number that a word denotes; it has to have a point. -/
def floatWord? (s : List Char) : Option Double :=
  let (negative, body) := Number.splitSign s
  let signed := body.length < s.length
  match String.ofList body with
  | ".inf" | ".Inf" | ".INF" => some (.infinite negative)
  | ".nan" | ".NaN" | ".NAN" => if signed then none else some .undefined
  | _ =>
    let starts := body.head?.any Char.isDigit || (body.head? = some '.' && !signed)
    if starts && body.contains '.' && hasSignedExponent body then
      Number.decimal? negative (body.filter (· ≠ '_'))
    else none

/-- The characters with which no plain word starts. -/
def indicators : List Char := [',', ']', '\x7d', '&', '*', '!', '|', '>', '%', '@', '\x60']

/-- Whether a word looks like a date: four digits, a hyphen, and a digit. -/
def looksLikeDate (s : List Char) : Bool :=
  (s.take 4).all Char.isDigit && s[4]? = some '-' && s[5]?.any Char.isDigit

/-- What a plain word stands for. -/
def valueOf (word : String) : Value :=
  if nullWords.contains word then .null
  else if trueWords.contains word then .bool true
  else if falseWords.contains word then .bool false
  else
    match intWord? word.toList with
    | some i => .int i
    | none =>
      match floatWord? word.toList with
      | some x => .float x
      | none => .str word

/-- Reads a plain word.  What starts like a reference, a tag or a text in block style is not read,
nor is what looks like a date. -/
def resolve? (word : String) : Option Value :=
  if word.toList.head?.any indicators.contains || looksLikeDate word.toList then none
  else some (valueOf word)

end SymbolAtlas.Yaml
