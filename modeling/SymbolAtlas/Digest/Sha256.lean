import SymbolAtlas.Text.Quoted

/-!
# SHA-256

The digest that tells whether a source has changed.  A message is padded to whole blocks of
sixteen words; every block is mixed into a chaining value of eight words in sixty-four rounds.  The
message schedule is a sliding window of sixteen words: each round uses up the first one and adds
one at the end.
-/

namespace SymbolAtlas.Sha256

/-- The chaining value. -/
structure Chain where
  a : UInt32
  b : UInt32
  c : UInt32
  d : UInt32
  e : UInt32
  f : UInt32
  g : UInt32
  h : UInt32
  deriving DecidableEq, Repr, Inhabited

/-- The chaining value before the first block. -/
def start : Chain :=
  { a := 0x6a09e667, b := 0xbb67ae85, c := 0x3c6ef372, d := 0xa54ff53a
    e := 0x510e527f, f := 0x9b05688c, g := 0x1f83d9ab, h := 0x5be0cd19 }

/-- The constants of the rounds. -/
def constants : List UInt32 :=
  [0x428a2f98, 0x71374491, 0xb5c0fbcf, 0xe9b5dba5, 0x3956c25b, 0x59f111f1, 0x923f82a4, 0xab1c5ed5,
   0xd807aa98, 0x12835b01, 0x243185be, 0x550c7dc3, 0x72be5d74, 0x80deb1fe, 0x9bdc06a7, 0xc19bf174,
   0xe49b69c1, 0xefbe4786, 0x0fc19dc6, 0x240ca1cc, 0x2de92c6f, 0x4a7484aa, 0x5cb0a9dc, 0x76f988da,
   0x983e5152, 0xa831c66d, 0xb00327c8, 0xbf597fc7, 0xc6e00bf3, 0xd5a79147, 0x06ca6351, 0x14292967,
   0x27b70a85, 0x2e1b2138, 0x4d2c6dfc, 0x53380d13, 0x650a7354, 0x766a0abb, 0x81c2c92e, 0x92722c85,
   0xa2bfe8a1, 0xa81a664b, 0xc24b8b70, 0xc76c51a3, 0xd192e819, 0xd6990624, 0xf40e3585, 0x106aa070,
   0x19a4c116, 0x1e376c08, 0x2748774c, 0x34b0bcb5, 0x391c0cb3, 0x4ed8aa4a, 0x5b9cca4f, 0x682e6ff3,
   0x748f82ee, 0x78a5636f, 0x84c87814, 0x8cc70208, 0x90befffa, 0xa4506ceb, 0xbef9a3f7, 0xc67178f2]

/-- Rotates a word to the right. -/
def rotate (x : UInt32) (n : UInt32) : UInt32 :=
  (x >>> n) ||| (x <<< (32 - n))

/-- The word that the schedule adds after a window. -/
def nextWord (window : List UInt32) : UInt32 :=
  let x := window.getD 14 0
  let y := window.getD 1 0
  let early := rotate y 7 ^^^ rotate y 18 ^^^ (y >>> 3)
  let late := rotate x 17 ^^^ rotate x 19 ^^^ (x >>> 10)
  late + window.getD 9 0 + early + window.getD 0 0

/-- One round with a word of the schedule and a constant. -/
def mix (s : Chain) (word constant : UInt32) : Chain :=
  let sum1 := rotate s.e 6 ^^^ rotate s.e 11 ^^^ rotate s.e 25
  let choice := (s.e &&& s.f) ^^^ (~~~s.e &&& s.g)
  let t1 := s.h + sum1 + choice + constant + word
  let sum0 := rotate s.a 2 ^^^ rotate s.a 13 ^^^ rotate s.a 22
  let majority := (s.a &&& s.b) ^^^ (s.a &&& s.c) ^^^ (s.b &&& s.c)
  { a := t1 + (sum0 + majority), b := s.a, c := s.b, d := s.c
    e := s.d + t1, f := s.e, g := s.f, h := s.g }

/-- All rounds over a block, one for each constant. -/
def rounds : List UInt32 → List UInt32 → Chain → Chain
  | [], _, s => s
  | k :: rest, window, s =>
    rounds rest (window.drop 1 ++ [nextWord window]) (mix s (window.getD 0 0) k)

/-- Mixes a block into a chaining value. -/
def absorb (s : Chain) (block : List UInt32) : Chain :=
  let t := rounds constants block s
  { a := s.a + t.a, b := s.b + t.b, c := s.c + t.c, d := s.d + t.d
    e := s.e + t.e, f := s.f + t.f, g := s.g + t.g, h := s.h + t.h }

/-- The big-endian words of a list of bytes; bytes that fill no word are left out. -/
def words : List UInt8 → List UInt32
  | a :: b :: c :: d :: rest =>
    ((a.toUInt32 <<< 24) ||| (b.toUInt32 <<< 16) ||| (c.toUInt32 <<< 8) ||| d.toUInt32) ::
      words rest
  | _ => []

/-- A number in the given count of big-endian bytes. -/
def bigEndian : Nat → Nat → List UInt8
  | 0, _ => []
  | count + 1, n => UInt8.ofNat (n / Nat.pow 256 count) :: bigEndian count n

/-- How many zero bytes stand between the mark and the length. -/
def zeroCount (length : Nat) : Nat :=
  (119 - length % 64) % 64

/-- A message with a mark, zeros and its length in bits after it. -/
def padded (message : List UInt8) : List UInt8 :=
  message ++ 0x80 :: (List.replicate (zeroCount message.length) 0 ++
    bigEndian 8 (8 * message.length))

@[simp] theorem length_bigEndian (count n : Nat) : (bigEndian count n).length = count := by
  induction count with
  | zero => rfl
  | succ count ih => simp [bigEndian, ih]

/-- A padded message fills whole blocks. -/
theorem length_padded_mod (message : List UInt8) : (padded message).length % 64 = 0 := by
  simp only [padded, zeroCount, List.length_append, List.length_cons, List.length_replicate,
    length_bigEndian]
  omega

/-- Mixes words into a chaining value, sixteen at a time. -/
def absorbAll (s : Chain) (ws : List UInt32) : Chain :=
  match ws with
  | [] => s
  | w :: rest => absorbAll (absorb s (w :: rest.take 15)) (rest.drop 15)
termination_by ws.length
decreasing_by
  simp only [List.length_cons, List.length_drop]
  omega

/-- The digest of a message in hexadecimal digits. -/
def hex (message : List UInt8) : String :=
  let s := absorbAll start (words (padded message))
  String.ofList ([s.a, s.b, s.c, s.d, s.e, s.f, s.g, s.h].flatMap fun w => Text.hexDigits 8 w.toNat)

end SymbolAtlas.Sha256
