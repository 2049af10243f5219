import SymbolAtlas.Number.Double

/-!
# Shortest decimals

The text of a floating point number uses the fewest digits that read back as the same number; of
several decimals of that length it is the nearest one.  A grid of decimals with a given number of
digits has a point in the rounding interval exactly if one of the two neighbours of the number on
that grid lies in it, so only those two are tried.
-/

namespace SymbolAtlas

namespace Double

/-- A decimal `0.d₁d₂… · 10^point`, with its digits as one natural number. -/
structure Decimal where
  digits : Nat
  point : Int
  deriving DecidableEq, Repr, Inhabited

/-- The number of decimal digits, at least one. -/
def digitCount (n : Nat) : Nat :=
  (Nat.toDigits 10 n).length

/-- `num / den · 10^shift` as a pair of natural numbers. -/
def shiftDecimal (num den : Nat) (shift : Int) : Nat × Nat :=
  if 0 ≤ shift then (num * Nat.pow 10 shift.toNat, den) else (num, den * Nat.pow 10 (-shift).toNat)

/-- The number of zeros after the point of a positive quotient below one. -/
def leadingZeros (num den : Nat) : Nat → Nat → Nat
  | 0, zeros => zeros
  | fuel + 1, zeros =>
    if den ≤ num * Nat.pow 10 (zeros + 1) then zeros else leadingZeros num den fuel (zeros + 1)

/-- The least `k` with `num / den < 10^k`. -/
def pointOf (num den : Nat) : Int :=
  let whole := num / den
  if whole = 0 then -(leadingZeros num den 400 0 : Int) else digitCount whole

/-- The rounding interval of a positive finite number, in units of `2^(exponent - 2)`. -/
structure Interval where
  low : Nat
  high : Nat
  closed : Bool

/-- The decimals that read back as `mantissa · 2^exponent` lie in this interval.  Below a power of
two the next smaller number is only half as far away. -/
def interval (mantissa : Nat) (exponent : Int) : Interval where
  low := 4 * mantissa - (if mantissa = Nat.pow 2 52 ∧ minExponent < exponent then 1 else 2)
  high := 4 * mantissa + 2
  closed := mantissa % 2 = 0

/-- Whether `num / den` lies in the interval. -/
def Interval.holds (i : Interval) (num den : Nat) : Bool :=
  if i.closed then i.low * den ≤ num && num ≤ i.high * den
  else i.low * den < num && num < i.high * den

/-- The best decimal with the given number of digits, if one reads back. -/
def onGrid (i : Interval) (num den : Nat) (exponent point : Int) (digits : Nat) : Option Nat :=
  let shift : Int := digits - point
  let (n, d) := shiftDecimal num den shift
  let below := n / d
  let reads (candidate : Nat) : Bool :=
    -- the candidate in units of `2^(exponent - 2)`
    let (cn, cd) := shiftDecimal candidate 1 (-shift)
    let (un, ud) := scaled cn cd (exponent - 2)
    i.holds un ud
  match reads below, reads (below + 1) with
  | false, false => none
  | true, false => some below
  | false, true => some (below + 1)
  | true, true =>
    let twice := 2 * (n % d)
    if twice < d then some below
    else if d < twice then some (below + 1)
    else if below % 2 = 0 then some below else some (below + 1)

/-- The first number of digits for which a decimal reads back. -/
def firstGrid (i : Interval) (num den : Nat) (exponent point : Int) : Nat → Nat → Decimal
  | 0, digits => ⟨((onGrid i num den exponent point digits).getD 0), point⟩
  | fuel + 1, digits =>
    match onGrid i num den exponent point digits with
    | some d => if d = Nat.pow 10 digits then ⟨1, point + 1⟩ else ⟨d, point⟩
    | none => firstGrid i num den exponent point fuel (digits + 1)

/-- The shortest decimal that reads back as `mantissa · 2^exponent`, for a positive mantissa. -/
def shortest (mantissa : Nat) (exponent : Int) : Decimal :=
  let (num, den) := scaled mantissa 1 (-exponent)
  firstGrid (interval mantissa exponent) num den exponent (pointOf num den) 17 1

/-- Digits without the zeros at their end. -/
def significant (n : Nat) : List Char :=
  ((Nat.toDigits 10 n).reverse.dropWhile (· = '0')).reverse

/-- A number is written positionally when its scientific exponent is at least this. -/
def leastPositional : Int := -4

/-- A number is written positionally when its scientific exponent is below this. -/
def positionalLimit : Int := 16

/-- The digits laid out: positionally with at least one digit after the point, or in scientific
notation with a signed exponent of at least two digits. -/
def layout (digits : List Char) (point : Int) : List Char :=
  let exponent := point - 1
  if leastPositional ≤ exponent ∧ exponent < positionalLimit then
    if point ≤ 0 then
      '0' :: '.' :: (List.replicate (-point).toNat '0' ++ digits)
    else
      let whole := digits.take point.toNat
      let fraction := digits.drop point.toNat
      let padding := List.replicate (point.toNat - digits.length) '0'
      whole ++ padding ++ ('.' :: (if fraction.isEmpty then ['0'] else fraction))
  else
    let power := Nat.toDigits 10 exponent.natAbs
    let power := if power.length < 2 then '0' :: power else power
    let mark := if exponent < 0 then '-' else '+'
    match digits with
    | [] => []
    | [d] => d :: 'e' :: mark :: power
    | d :: rest => d :: '.' :: (rest ++ 'e' :: mark :: power)

/-- The text of a number: fewest digits that read back, always recognisable as a fraction. -/
def text : Double → String
  | .undefined => "nan"
  | .infinite negative => if negative then "-inf" else "inf"
  | .finite negative m e =>
    let body :=
      if m = 0 then ['0', '.', '0']
      else
        let d := shortest m e
        layout (significant d.digits) d.point
    String.ofList (if negative then '-' :: body else body)

end Double

end SymbolAtlas
