import SymbolAtlas.Encoding.Utf8
import SymbolAtlas.Failure

/-!
# Encodings

How the bytes of a source file denote text is up to the codecs that are installed (`Codecs`): an
index only asks whether a name is known, and has bytes read under a name.

The common codecs are here.  An encoding is known under several names, which are compared without
regard to case and to what separates their parts.  Bytes that denote no text are reported with
their position.
-/

namespace SymbolAtlas

/-- Why a name is not taken for that of an encoding. -/
inductive LookupFault where
  | unknown
  /-- The name cannot be looked up; the text says why. -/
  | refused (text : String)
  deriving DecidableEq, Repr, Inhabited

/-- Why bytes could not be read as text. -/
inductive TextFault where
  /-- They denote no text, or the name stands for no way to read text. -/
  | refused (message : String)
  /-- Something was raised that is no such refusal. -/
  | raised (raised : Raised)
  deriving DecidableEq, Repr, Inhabited

/-- The codecs that are installed. -/
structure Codecs where
  /-- Looks up the name of an encoding. -/
  lookup : String → Except LookupFault Unit
  /-- Reads bytes as text in the encoding of a name. -/
  decode : String → List UInt8 → Except TextFault String

/-! ## The common codecs -/

/-- A way to read bytes as text. -/
inductive Encoding where
  | utf8
  /-- UTF-8 after an optional mark at the start. -/
  | utf8Marked
  /-- UTF-16 whose byte order a mark at the start tells; little endian without one. -/
  | utf16
  | utf16Little
  | utf16Big
  | ascii
  | latin1
  | windows1252
  deriving DecidableEq, Repr, Inhabited

/-- What is known under the name of an encoding. -/
inductive Codec where
  | text (encoding : Encoding)
  /-- A known name that stands for no way to read text. -/
  | other
  /-- A known name under which nothing can be read. -/
  | void
  deriving DecidableEq, Repr, Inhabited

namespace Codec

/-- Joins the alphanumeric runs of a name by underscores, in lower case. -/
def normalName (name : String) : String :=
  let step (acc : List Char × Bool) (c : Char) : List Char × Bool :=
    if c.isAlphanum || c = '.' then
      let separated := if acc.2 && !acc.1.isEmpty then '_' :: acc.1 else acc.1
      (c.toLower :: separated, false)
    else if 0x80 ≤ c.toNat then (acc.1, false)
    else (acc.1, true)
  String.ofList (name.toList.foldl step ([], false)).1.reverse

/-- The known names. -/
def named : List (List String × Codec) :=
  [(["utf_8", "utf8", "utf", "u8", "cp65001", "utf8_ucs2", "utf8_ucs4"], .text .utf8),
   (["utf_8_sig"], .text .utf8Marked),
   (["utf_16", "utf16", "u16"], .text .utf16),
   (["utf_16_le", "utf_16le", "unicodelittleunmarked"], .text .utf16Little),
   (["utf_16_be", "utf_16be", "unicodebigunmarked"], .text .utf16Big),
   (["ascii", "us_ascii", "us", "646", "iso646_us", "ansi_x3.4_1968", "cp367", "ibm367"],
     .text .ascii),
   (["latin_1", "latin1", "latin", "l1", "iso_8859_1", "iso8859_1", "iso8859", "8859", "cp819",
     "ibm819", "iso_ir_100"], .text .latin1),
   (["cp1252", "windows_1252", "1252"], .text .windows1252),
   (["hex", "hex_codec"], .other),
   (["undefined"], .void)]

/-- What is known under a name. -/
def ofName? (name : String) : Option Codec :=
  (named.find? fun entry => entry.1.contains (normalName name)).map (·.2)

end Codec

/-- Bytes that denote no text: the encoding's name, the bytes and their place, and why. -/
structure DecodeFault where
  encoding : String
  /-- The first of the bytes. -/
  byte : UInt8
  start : Nat
  length : Nat
  reason : String
  deriving DecidableEq, Repr, Inhabited

/-- The wording of a fault: one byte is shown, several are only placed. -/
def DecodeFault.message (f : DecodeFault) : String :=
  let subject :=
    if f.length = 1 then
      let digits := Nat.toDigits 16 f.byte.toNat
      "byte 0x" ++ String.ofList (List.replicate (2 - digits.length) '0' ++ digits) ++
        " in position " ++ toString f.start
    else
      "bytes in position " ++ toString f.start ++ "-" ++ toString (f.start + f.length - 1)
  "'" ++ f.encoding ++ "' codec can't decode " ++ subject ++ ": " ++ f.reason

namespace Encoding

/-- Text in UTF-8. -/
def decodeUtf8 (bytes : List UInt8) : Except DecodeFault (List Char) :=
  match Utf8.strict 0 bytes [] with
  | .ok chars => .ok chars
  | .error f => .error ⟨"utf-8", (bytes[f.start]?).getD 0, f.start, f.length, f.flaw.message⟩

/-- Text in UTF-16 from a position on. -/
def decodeUtf16 (big : Bool) (position : Nat) (bytes : List UInt8) (done : List Char) :
    Except DecodeFault (List Char) :=
  let name := if big then "utf-16-be" else "utf-16-le"
  let unit (a b : UInt8) : Nat := if big then a.toNat * 256 + b.toNat else b.toNat * 256 + a.toNat
  match bytes with
  | [] => .ok done.reverse
  | [a] => .error ⟨name, a, position, 1, "truncated data"⟩
  | a :: b :: rest =>
    let first := unit a b
    if first < 0xD800 || 0xE000 ≤ first then
      decodeUtf16 big (position + 2) rest (Char.ofNat first :: done)
    else if 0xDC00 ≤ first then .error ⟨name, a, position, 2, "illegal encoding"⟩
    else
      match rest with
      | c :: d :: more =>
        let second := unit c d
        if 0xDC00 ≤ second && second < 0xE000 then
          let code := 0x10000 + (first - 0xD800) * 0x400 + (second - 0xDC00)
          decodeUtf16 big (position + 4) more (Char.ofNat code :: done)
        else .error ⟨name, a, position, 2, "illegal UTF-16 surrogate"⟩
      | short => .error ⟨name, a, position, 2 + short.length, "unexpected end of data"⟩
termination_by bytes.length

/-- Text in an encoding that gives every byte a character of its own. -/
def decodeBytes (name reason : String) (charOf : UInt8 → Option Char) (position : Nat) :
    List UInt8 → List Char → Except DecodeFault (List Char)
  | [], done => .ok done.reverse
  | b :: rest, done =>
    match charOf b with
    | some c => decodeBytes name reason charOf (position + 1) rest (c :: done)
    | none => .error ⟨name, b, position, 1, reason⟩

/-- The characters of the bytes from 0x80 to 0x9F in Windows-1252; zero marks undefined ones. -/
def windows1252Upper : List Nat :=
  [0x20AC, 0, 0x201A, 0x0192, 0x201E, 0x2026, 0x2020, 0x2021, 0x02C6, 0x2030, 0x0160, 0x2039,
   0x0152, 0, 0x017D, 0, 0, 0x2018, 0x2019, 0x201C, 0x201D, 0x2022, 0x2013, 0x2014, 0x02DC,
   0x2122, 0x0161, 0x203A, 0x0153, 0, 0x017E, 0x0178]

/-- The character of a byte in Windows-1252. -/
def windows1252Char? (b : UInt8) : Option Char :=
  if b < 0x80 || 0xA0 ≤ b then some (Char.ofNat b.toNat)
  else
    match windows1252Upper[b.toNat - 0x80]? with
    | some n => if n = 0 then none else some (Char.ofNat n)
    | none => none

/-- Reads bytes as text. -/
def decode (e : Encoding) (bytes : List UInt8) : Except DecodeFault String :=
  let chars : Except DecodeFault (List Char) :=
    match e with
    | utf8 => decodeUtf8 bytes
    | utf8Marked =>
      match bytes with
      | 0xEF :: 0xBB :: 0xBF :: rest => decodeUtf8 rest
      | _ => decodeUtf8 bytes
    | utf16 =>
      match bytes with
      | 0xFF :: 0xFE :: rest => decodeUtf16 false 2 rest []
      | 0xFE :: 0xFF :: rest => decodeUtf16 true 2 rest []
      | _ => decodeUtf16 false 0 bytes []
    | utf16Little => decodeUtf16 false 0 bytes []
    | utf16Big => decodeUtf16 true 0 bytes []
    | ascii =>
      decodeBytes "ascii" "ordinal not in range(128)"
        (fun b => if b < 0x80 then some (Char.ofNat b.toNat) else none) 0 bytes []
    | latin1 => decodeBytes "latin-1" "" (fun b => some (Char.ofNat b.toNat)) 0 bytes []
    | windows1252 =>
      decodeBytes "charmap" "character maps to <undefined>" windows1252Char? 0 bytes []
  chars.map String.ofList

end Encoding

/-- The text for a name with a character that no name can hold. -/
def Codec.nulMessage : String := "embedded null character"

/-- What reading raises under a name under which nothing can be read. -/
def Codec.undefined (name : String) : Raised where
  kind := "UnicodeError"
  message := "decoding with '" ++ name ++ "' codec failed (UnicodeError: undefined encoding)"

/-- The common codecs.  Nothing is read as nothing in every encoding. -/
def Codecs.common : Codecs where
  lookup name :=
    if name.toList.contains '\x00' then .error (.refused Codec.nulMessage)
    else if (Codec.ofName? name).isSome then .ok ()
    else .error .unknown
  decode name content :=
    if name.toList.contains '\x00' then
      .error (.raised { kind := "ValueError", message := Codec.nulMessage })
    else if content.isEmpty then .ok ""
    else
      match Codec.ofName? name with
      | none => .error (.refused ("unknown encoding: " ++ name))
      | some .other =>
        .error (.refused ("'" ++ name ++
          "' is not a text encoding; use codecs.decode() to handle arbitrary codecs"))
      | some .void => .error (.raised (Codec.undefined name))
      | some (.text e) =>
        match e.decode content with
        | .ok text => .ok text
        | .error fault => .error (.refused fault.message)

instance : Inhabited Codecs := ⟨.common⟩

end SymbolAtlas
