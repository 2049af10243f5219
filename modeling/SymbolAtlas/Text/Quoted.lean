import SymbolAtlas.Text.Printable

/-!
# Quoted text

Text inside a message is quoted with apostrophes, or with double quotes if it holds an apostrophe
and no double quote.  The backslash, the chosen quote and the three common blanks are escaped by a
letter, other characters that cannot be shown by their code point.
-/

namespace SymbolAtlas.Text

/-- A number in the given count of lower case hexadecimal digits. -/
def hexDigits (width n : Nat) : List Char :=
  let digits := Nat.toDigits 16 n
  List.replicate (width - digits.length) '0' ++ digits

/-- The quote used around a text. -/
def quoteMark (s : List Char) : Char :=
  if s.contains '\'' && !s.contains '"' then '"' else '\''

/-- One character inside quoted text. -/
def escapeChar (mark c : Char) : List Char :=
  if c = mark || c = '\\' then ['\\', c]
  else if c = '\n' then ['\\', 'n']
  else if c = '\t' then ['\\', 't']
  else if c = '\r' then ['\\', 'r']
  else if isPrintable c then [c]
  else if c.toNat < 0x100 then '\\' :: 'x' :: hexDigits 2 c.toNat
  else if c.toNat < 0x10000 then '\\' :: 'u' :: hexDigits 4 c.toNat
  else '\\' :: 'U' :: hexDigits 8 c.toNat

/-- A text in quotes. -/
def quoted (s : String) : String :=
  let chars := s.toList
  let mark := quoteMark chars
  String.ofList (mark :: (chars.flatMap (escapeChar mark) ++ [mark]))

end SymbolAtlas.Text
