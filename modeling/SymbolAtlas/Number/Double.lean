/-!
# Binary floating point numbers of 64 bits

A finite number is a sign, a mantissa below `2^53` and a power of two not below `2^-1074`.  The
representation is exact, so that reading a decimal, comparing two time stamps and finding the
shortest decimal are arithmetic on natural numbers.
-/

namespace SymbolAtlas

/-- A 64 bit floating point number: `±mantissa · 2^exponent`, an infinity, or no number at all. -/
inductive Double where
  | finite (negative : Bool) (mantissa : Nat) (exponent : Int)
  | infinite (negative : Bool)
  | undefined
  deriving DecidableEq, Repr, Inhabited

namespace Double

/-- The least exponent of a finite number. -/
def minExponent : Int := -1074

/-- The greatest exponent of a finite number. -/
def maxExponent : Int := 971

/-- The quotient rounded to the nearest integer, a half to the even neighbour. -/
def roundQuotient (num den : Nat) : Nat :=
  let q := num / den
  let r := num % den
  if 2 * r < den then q
  else if den < 2 * r then q + 1
  else if q % 2 = 0 then q else q + 1

/-- `num / (den · 2^e)` as a pair of natural numbers. -/
def scaled (num den : Nat) (e : Int) : Nat × Nat :=
  if 0 ≤ e then (num, den * Nat.pow 2 e.toNat) else (num * Nat.pow 2 (-e).toNat, den)

/-- The exponent at which `num / den` has 53 binary digits before the point, or the least one. -/
def exponentOf (num den : Nat) : Int :=
  let guess : Int := (Nat.log2 num : Int) - (Nat.log2 den : Int) - 52
  let (n, d) := scaled num den guess
  let fitted := if n < d * Nat.pow 2 52 then guess - 1 else guess
  max minExponent fitted

/-- The number nearest to `±num / den`; of two nearest ones the one with the even mantissa. -/
def ofRatio (negative : Bool) (num den : Nat) : Double :=
  if num = 0 then .finite negative 0 minExponent
  else
    let e := exponentOf num den
    let (n, d) := scaled num den e
    let m := roundQuotient n d
    let (m, e) := if m = Nat.pow 2 53 then (Nat.pow 2 52, e + 1) else (m, e)
    if maxExponent < e then .infinite negative else .finite negative m e

/-- The number nearest to an integer. -/
def ofInt (i : Int) : Double :=
  ofRatio (decide (i < 0)) i.natAbs 1

/-- The number nearest to `±digits · 10^power`. -/
def ofDecimal (negative : Bool) (digits : Nat) (power : Int) : Double :=
  if 0 ≤ power then ofRatio negative (digits * Nat.pow 10 power.toNat) 1
  else ofRatio negative digits (Nat.pow 10 (-power).toNat)

/-- Numeric equality: the two zeros are equal, and an undefined number equals nothing. -/
def same : Double → Double → Bool
  | .undefined, _ => false
  | _, .undefined => false
  | .finite _ 0 _, .finite _ 0 _ => true
  | a, b => a == b

/-- Whether the number is a zero. -/
def isZero : Double → Bool
  | .finite _ 0 _ => true
  | _ => false

/-- The integer that the number denotes, if it denotes one. -/
def toInt? : Double → Option Int
  | .finite negative m e =>
    let sign (n : Nat) : Int := if negative then -(n : Int) else n
    if 0 ≤ e then some (sign (m * Nat.pow 2 e.toNat))
    else
      let unit := Nat.pow 2 (-e).toNat
      if m % unit = 0 then some (sign (m / unit)) else none
  | _ => none

end Double

end SymbolAtlas
