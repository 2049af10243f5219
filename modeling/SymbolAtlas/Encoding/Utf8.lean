/-!
# UTF-8

A well formed sequence of bytes denotes characters.  In a malformed one the longest beginning of a
character that cannot be continued is a flaw of one to three bytes; reading can stop there or put
a replacement character in its place.
-/

namespace SymbolAtlas.Utf8

/-- Why bytes do not denote a character. -/
inductive Flaw where
  | badStart
  | badContinuation
  | truncated
  deriving DecidableEq, Repr, Inhabited

/-- The wording of a flaw. -/
def Flaw.message : Flaw → String
  | badStart => "invalid start byte"
  | badContinuation => "invalid continuation byte"
  | truncated => "unexpected end of data"

/-- A character or a flaw, and how many bytes it takes beyond the first. -/
structure Step where
  outcome : Except Flaw Char
  extra : Nat

/-- Whether a byte continues a character. -/
def isTail (b : UInt8) : Bool := 0x80 ≤ b && b ≤ 0xBF

/-- Whether a byte may come second, after the given first byte. -/
def isSecond (first b : UInt8) : Bool :=
  isTail b &&
    if first = 0xE0 then 0xA0 ≤ b
    else if first = 0xED then b < 0xA0
    else if first = 0xF0 then 0x90 ≤ b
    else if first = 0xF4 then b < 0x90
    else true

/-- How many bytes have to follow a first byte; none if it cannot be one. -/
def tailLength? (first : UInt8) : Option Nat :=
  if first < 0x80 then some 0
  else if 0xC2 ≤ first && first ≤ 0xDF then some 1
  else if 0xE0 ≤ first && first ≤ 0xEF then some 2
  else if 0xF0 ≤ first && first ≤ 0xF4 then some 3
  else none

/-- How many of the wanted bytes continue a character properly. -/
def goodTail (first : UInt8) (wanted : Nat) (rest : List UInt8) : Nat :=
  match wanted, rest with
  | n + 1, b :: more => if isSecond first b then 1 + ((more.take n).takeWhile isTail).length else 0
  | _, _ => 0

/-- The code point that a first byte and its continuation denote. -/
def codePoint (first : UInt8) (tail : List UInt8) : Nat :=
  let lead := match tail.length with
    | 0 => first.toNat
    | 1 => first.toNat % 0x20
    | 2 => first.toNat % 0x10
    | _ => first.toNat % 0x08
  tail.foldl (fun n b => n * 0x40 + b.toNat % 0x40) lead

/-- Reads one character or flaw at the start of the bytes. -/
def step (first : UInt8) (rest : List UInt8) : Step :=
  match tailLength? first with
  | none => ⟨.error .badStart, 0⟩
  | some wanted =>
    let good := goodTail first wanted rest
    if good = wanted then ⟨.ok (Char.ofNat (codePoint first (rest.take wanted))), wanted⟩
    else if good = rest.length then ⟨.error .truncated, good⟩
    else ⟨.error .badContinuation, good⟩

/-- Where a flaw lies and what it is. -/
structure Fault where
  start : Nat
  length : Nat
  flaw : Flaw
  deriving DecidableEq, Repr, Inhabited

/-- The characters up to the first flaw. -/
def strict (position : Nat) (bytes : List UInt8) (done : List Char) : Except Fault (List Char) :=
  match bytes with
  | [] => .ok done.reverse
  | b :: rest =>
    let s := step b rest
    match s.outcome with
    | .ok c => strict (position + s.extra + 1) (rest.drop s.extra) (c :: done)
    | .error flaw => .error ⟨position, s.extra + 1, flaw⟩
termination_by bytes.length
decreasing_by
  simp only [List.length_drop, List.length_cons]
  omega

/-- The characters with a replacement character for every flaw. -/
def lossy (bytes : List UInt8) (done : List Char) : List Char :=
  match bytes with
  | [] => done.reverse
  | b :: rest =>
    let s := step b rest
    match s.outcome with
    | .ok c => lossy (rest.drop s.extra) (c :: done)
    | .error _ => lossy (rest.drop s.extra) ('\ufffd' :: done)
termination_by bytes.length
decreasing_by
  all_goals
    simp only [List.length_drop, List.length_cons]
    omega

/-- The text that bytes denote, flaws replaced. -/
def lossyText (bytes : List UInt8) : String :=
  String.ofList (lossy bytes [])

end SymbolAtlas.Utf8
