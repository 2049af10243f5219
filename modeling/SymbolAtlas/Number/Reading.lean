import SymbolAtlas.Number.Double
import SymbolAtlas.Text.Blank

/-!
# Numbers written as text

A number given as a string may have white space around it, a sign, and single underscores between
its characters.  An integer may end in a point and zeros.
-/

namespace SymbolAtlas.Number

/-- The natural number that a non-empty list of decimal digits denotes. -/
def natOfDigits? (ds : List Char) : Option Nat :=
  if ds.isEmpty || !ds.all Char.isDigit then none
  else some (ds.foldl (fun n d => n * 10 + (d.toNat - '0'.toNat)) 0)

/-- Whether two underscores stand side by side. -/
def doubledUnderscore : List Char → Bool
  | '_' :: '_' :: _ => true
  | _ :: rest => doubledUnderscore rest
  | [] => false

/-- The characters without underscores, each of which has to stand alone and inside. -/
def dropUnderscores? (s : List Char) : Option (List Char) :=
  if s.head? = some '_' || s.getLast? = some '_' || doubledUnderscore s then none
  else some (s.filter (· ≠ '_'))

/-- Splits a sign off; the flag tells a minus. -/
def splitSign (s : List Char) : Bool × List Char :=
  match s with
  | '-' :: rest => (true, rest)
  | '+' :: rest => (false, rest)
  | rest => (false, rest)

/-- The integer that a text denotes. -/
def int? (text : String) : Option Int := do
  let (negative, body) := splitSign (Text.trimBlanks text.toList)
  let (whole, rest) := body.span (· ≠ '.')
  if !(rest.drop 1).all (· = '0') then none
  let digits ← dropUnderscores? whole
  let n ← natOfDigits? digits
  return if negative then -(n : Int) else n

/-- The decimal that starts with digits, a point or both; whatever follows is its exponent. -/
def decimal? (negative : Bool) (s : List Char) : Option Double := do
  let (whole, rest) := s.span Char.isDigit
  let (fraction, rest) :=
    match rest with
    | '.' :: more => more.span Char.isDigit
    | other => ([], other)
  let digits ← natOfDigits? (whole ++ fraction)
  let exponent : Int ←
    match rest with
    | [] => some 0
    | mark :: more =>
      if mark = 'e' || mark = 'E' then
        let (down, ds) := splitSign more
        (natOfDigits? ds).map fun n => if down then -(n : Int) else n
      else none
  return Double.ofDecimal negative digits (exponent - fraction.length)

/-- The floating point number that a text denotes. -/
def double? (text : String) : Option Double := do
  let body ← dropUnderscores? (Text.trimBlanks text.toList)
  let (negative, rest) := splitSign body
  let word := String.ofList (rest.map Char.toLower)
  if word = "inf" || word = "infinity" then return .infinite negative
  if word = "nan" then return .undefined
  decimal? negative rest

end SymbolAtlas.Number
