import SymbolAtlas.Yaml.Scalar
import SymbolAtlas.Value.Json

/-!
# YAML documents

A reader for the everyday part of YAML: block mappings and sequences, flow collections, plain and
quoted scalars, and comments.  A document outside of this part is not read.  Every step of the
reader consumes a character or descends into a smaller part, so a multiple of the length of the text
bounds its recursion.
-/

namespace SymbolAtlas.Yaml

/-- Whether a character ends a line or separates words. -/
def isGap (c : Char) : Bool := c = ' ' || c = '\t' || c = '\n' || c = '\r'

/-- Whether a character separates words within a line. -/
def isSpace (c : Char) : Bool := c = ' ' || c = '\t'

/-- The rest of the text after the current line. -/
def nextLine (s : List Char) : List Char :=
  (s.dropWhile (· ≠ '\n')).drop 1

/-- The current line. -/
def thisLine (s : List Char) : List Char :=
  (s.takeWhile (· ≠ '\n')).filter (· ≠ '\r')

/-- Whether nothing but blanks and a comment is left on a line. -/
def isSpent (line : List Char) : Bool :=
  match line.dropWhile isSpace with
  | [] => true
  | c :: _ => c = '#'

/-- Skips lines without content; the text starts at the beginning of a line. -/
def skipSpent : Nat → List Char → List Char
  | 0, s => s
  | fuel + 1, s =>
    match s with
    | [] => []
    | _ => if isSpent (thisLine s) then skipSpent fuel (nextLine s) else s

/-- The number of blanks that a line starts with. -/
def indentOf (s : List Char) : Nat := (s.takeWhile (· = ' ')).length

/-- Skips blanks, line ends and comments inside a flow collection. -/
def skipGaps : Nat → List Char → List Char
  | 0, s => s
  | fuel + 1, s =>
    match s.dropWhile isGap with
    | '#' :: rest => skipGaps fuel (nextLine rest)
    | other => other

/-! ## Quoted scalars -/

/-- The rest of a text in apostrophes, in which a doubled apostrophe stands for one. -/
def readSingle : List Char → List Char → Option (String × List Char)
  | '\'' :: '\'' :: rest, acc => readSingle rest ('\'' :: acc)
  | '\'' :: rest, acc => some (String.ofList acc.reverse, rest)
  | c :: rest, acc => readSingle rest ((if c = '\n' then ' ' else c) :: acc)
  | [], _ => none

/-- The character that an escape letter stands for. -/
def escaped? (c : Char) : Option Char :=
  match c with
  | '0' => some '\x00'
  | 'a' => some '\x07'
  | 'b' => some '\x08'
  | 't' => some '\t'
  | 'n' => some '\n'
  | 'v' => some '\x0b'
  | 'f' => some '\x0c'
  | 'r' => some '\r'
  | 'e' => some '\x1b'
  | ' ' => some ' '
  | '"' => some '"'
  | '/' => some '/'
  | '\\' => some '\\'
  | _ => none

/-- The rest of a text in double quotes. -/
def readDouble : List Char → List Char → Option (String × List Char)
  | '"' :: rest, acc => some (String.ofList acc.reverse, rest)
  | '\\' :: 'x' :: a :: b :: rest, acc =>
    match natInBase? 16 [a, b] with
    | some n => readDouble rest (Char.ofNat n :: acc)
    | none => none
  | '\\' :: 'u' :: a :: b :: c :: d :: rest, acc =>
    match natInBase? 16 [a, b, c, d] with
    | some n => readDouble rest (Char.ofNat n :: acc)
    | none => none
  | '\\' :: c :: rest, acc =>
    match escaped? c with
    | some e => readDouble rest (e :: acc)
    | none => none
  | c :: rest, acc => readDouble rest ((if c = '\n' then ' ' else c) :: acc)
  | [], _ => none

/-! ## Flow collections -/

/-- Whether a plain word inside a flow collection ends before these characters. -/
def endsFlowWord (s : List Char) : Bool :=
  match s with
  | [] => true
  | ',' :: _ | '[' :: _ | ']' :: _ | '\x7b' :: _ | '\x7d' :: _ | '\n' :: _ => true
  | ':' :: c :: _ => isGap c || c = ',' || c = ']' || c = '\x7d'
  | [':'] => true
  | c :: '#' :: _ => isSpace c
  | _ => false

/-- A plain word inside a flow collection. -/
def readFlowWord : List Char → List Char → String × List Char
  | [], acc => (String.ofList (acc.dropWhile isSpace).reverse, [])
  | c :: rest, acc =>
    if endsFlowWord (c :: rest) then (String.ofList (acc.dropWhile isSpace).reverse, c :: rest)
    else readFlowWord rest (c :: acc)

mutual

/-- A value in flow style. -/
def readFlow : Nat → List Char → Option (Value × List Char)
  | 0, _ => none
  | fuel + 1, s =>
    match skipGaps (s.length + 1) s with
    | '[' :: rest => readFlowItems fuel rest []
    | '\x7b' :: rest => readFlowFields fuel rest []
    | '"' :: rest => (readDouble rest []).map fun (t, after) => (.str t, after)
    | '\'' :: rest => (readSingle rest []).map fun (t, after) => (.str t, after)
    | [] => none
    | c :: rest =>
      if c = ']' || c = '\x7d' || c = ',' then none
      else
        let (word, after) := readFlowWord (c :: rest) []
        (resolve? word).map fun v => (v, after)

/-- The items of a list in flow style. -/
def readFlowItems : Nat → List Char → List Value → Option (Value × List Char)
  | 0, _, _ => none
  | fuel + 1, s, acc =>
    match skipGaps (s.length + 1) s with
    | ']' :: after => some (.list acc.reverse, after)
    | body =>
      match readFlow fuel body with
      | none => none
      | some (v, rest) =>
        match skipGaps (rest.length + 1) rest with
        | ',' :: more => readFlowItems fuel more (v :: acc)
        | ']' :: after => some (.list (v :: acc).reverse, after)
        | _ => none

/-- The fields of an object in flow style; a name without a value stands for nothing. -/
def readFlowFields : Nat → List Char → Ledger Value → Option (Value × List Char)
  | 0, _, _ => none
  | fuel + 1, s, acc =>
    match skipGaps (s.length + 1) s with
    | '\x7d' :: after => some (.object acc, after)
    | body =>
      match readFlow fuel body with
      | none => none
      | some (key, rest) =>
        let name := match key with
          | .str t => t
          | other => Json.write other
        let value : Option (Value × List Char) :=
          match skipGaps (rest.length + 1) rest with
          | ':' :: more =>
            match skipGaps (more.length + 1) more with
            | ',' :: _ => some (.null, more)
            | '\x7d' :: _ => some (.null, more)
            | _ => readFlow fuel more
          | _ => some (.null, rest)
        match value with
        | none => none
        | some (v, rest) =>
          match skipGaps (rest.length + 1) rest with
          | ',' :: more => readFlowFields fuel more (acc.set name v)
          | '\x7d' :: after => some (.object (acc.set name v), after)
          | _ => none

end

/-! ## Block collections -/

/-- The plain word on the rest of a line, without a comment after it. -/
def plainLine (line : List Char) : List Char :=
  let rec go : List Char → List Char → List Char
    | [], acc => acc
    | c :: rest, acc =>
      if isSpace c && rest.head? = some '#' then acc else go rest (c :: acc)
  ((go line []).dropWhile isSpace).reverse

/-- Splits a line at the colon that ends the name of a field. -/
def splitField? : List Char → List Char → Option (List Char × List Char)
  | [], _ => none
  | [':'], acc => some (acc.reverse, [])
  | ':' :: c :: rest, acc =>
    if isSpace c then some (acc.reverse, c :: rest) else splitField? (c :: rest) (':' :: acc)
  | c :: rest, acc =>
    if isSpace c && rest.head? = some '#' then none else splitField? rest (c :: acc)

/-- The name of a field at the start of a line, and what follows its colon. -/
def fieldName? (line : List Char) : Option (String × List Char) :=
  match line with
  | '"' :: rest =>
    match readDouble rest [] with
    | some (key, after) =>
      match after.dropWhile isSpace with
      | ':' :: more => some (key, more)
      | _ => none
    | none => none
  | '\'' :: rest =>
    match readSingle rest [] with
    | some (key, after) =>
      match after.dropWhile isSpace with
      | ':' :: more => some (key, more)
      | _ => none
    | none => none
  | '[' :: _ | '\x7b' :: _ => none
  | _ =>
    (splitField? line []).map fun (key, rest) =>
      (String.ofList (key.reverse.dropWhile isSpace).reverse, rest)

/-- Whether a line is an item of a sequence. -/
def isItem (line : List Char) : Bool :=
  match line with
  | ['-'] => true
  | '-' :: c :: _ => isSpace c
  | _ => false

/-- A scalar or flow collection that starts within a line, and the lines after it. -/
def readInline (s : List Char) : Option (Value × List Char) :=
  let starts := s.dropWhile isSpace
  let flow : Option (Value × List Char) :=
    match readFlow (2 * starts.length + 2) starts with
    | some (v, rest) => if isSpent (thisLine rest) then some (v, nextLine rest) else none
    | none => none
  match starts with
  | '[' :: _ | '\x7b' :: _ | '"' :: _ | '\'' :: _ => flow
  | _ =>
    let line := thisLine starts
    if (splitField? line []).isSome then none
    else (resolve? (String.ofList (plainLine line))).map fun v => (v, nextLine starts)

mutual

/-- The value that starts on the next line with content, if that is indented far enough. -/
def readBlock : Nat → Nat → List Char → Option (Value × List Char)
  | 0, _, _ => none
  | fuel + 1, least, s =>
    match skipSpent (s.length + 1) s with
    | [] => some (.null, [])
    | text =>
      let indent := indentOf text
      if indent < least then some (.null, text)
      else
        let line := (thisLine text).drop indent
        if isItem line then readItems fuel indent text []
        else if (fieldName? line).isSome then readFields fuel indent text []
        else readInline text

/-- The items of a sequence at an indentation. -/
def readItems : Nat → Nat → List Char → List Value → Option (Value × List Char)
  | 0, _, _, _ => none
  | fuel + 1, indent, s, acc =>
    let text := skipSpent (s.length + 1) s
    if text ≠ [] && indentOf text = indent && isItem ((thisLine text).drop indent) then
      -- the item is what stands there once the dash is a blank
      match readBlock fuel (indent + 1)
          (List.replicate (indent + 1) ' ' ++ text.drop (indent + 1)) with
      | none => none
      | some (v, rest) => readItems fuel indent rest (v :: acc)
    else if text ≠ [] && indent < indentOf text then none
    else some (.list acc.reverse, text)

/-- The fields of a mapping at an indentation. -/
def readFields : Nat → Nat → List Char → Ledger Value → Option (Value × List Char)
  | 0, _, _, _ => none
  | fuel + 1, indent, s, acc =>
    let text := skipSpent (s.length + 1) s
    if text ≠ [] && indentOf text = indent then
      match fieldName? ((thisLine text).drop indent) with
      | none => if isItem ((thisLine text).drop indent) then some (.object acc, text) else none
      | some (key, rest) =>
        let value : Option (Value × List Char) :=
          if isSpent rest then
            let below := skipSpent (text.length + 1) (nextLine text)
            if below ≠ [] && indentOf below = indent && isItem ((thisLine below).drop indent) then
              readItems fuel indent below []
            else readBlock fuel (indent + 1) below
          else
            -- what follows the colon may go on over the next lines
            let used := (thisLine text).length - rest.length
            readInline (text.drop used)
        match value with
        | none => none
        | some (v, rest) => readFields fuel indent rest (acc.set key v)
    else if text ≠ [] && indent < indentOf text then none
    else some (.object acc, text)

end

/-- The text of a document without the mark at its start, which stands on a line of its own. -/
def withoutMark (s : List Char) : List Char :=
  match skipSpent (s.length + 1) s with
  | '-' :: '-' :: '-' :: rest => if isSpent (thisLine rest) then nextLine rest else s
  | _ => s

/-- The value that a document denotes; an empty document denotes nothing. -/
def read? (text : String) : Option Value :=
  let chars := withoutMark text.toList
  match readBlock (4 * chars.length + 8) 0 chars with
  | some (v, rest) => if (skipSpent (rest.length + 1) rest).isEmpty then some v else none
  | none => none

end SymbolAtlas.Yaml
