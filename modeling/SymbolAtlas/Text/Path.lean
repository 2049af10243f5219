/-!
# Paths

A path is a root and a list of parts.  Reading a path drops empty parts and single dots and keeps
double dots; exactly two leading slashes are a root of their own.  `normal` also cancels double
dots against the part before them, as far as that is possible without looking at a disk.
-/

namespace SymbolAtlas

/-- A path: its root, which is empty for a relative path, and its parts. -/
structure Path where
  root : String
  parts : List String
  deriving DecidableEq, Repr, Inhabited

namespace Path

/-- The texts between slashes. -/
def splitSlashes : List Char → List (List Char)
  | [] => [[]]
  | c :: rest =>
    if c = '/' then [] :: splitSlashes rest
    else
      match splitSlashes rest with
      | [] => [[c]]
      | part :: more => (c :: part) :: more

/-- The parts of a text that name something: neither empty nor a single dot. -/
def namedParts (s : List Char) : List String :=
  ((splitSlashes s).map String.ofList).filter (fun part => part ≠ "" ∧ part ≠ ".")

/-- The root that a text starts with. -/
def rootOf (s : List Char) : String :=
  match s with
  | '/' :: '/' :: '/' :: _ => "/"
  | '/' :: '/' :: _ => "//"
  | '/' :: _ => "/"
  | _ => ""

/-- Reads a path. -/
def parse (text : String) : Path :=
  let chars := text.toList
  { root := rootOf chars, parts := namedParts chars }

/-- Whether the path starts at a root. -/
def isAbsolute (p : Path) : Bool := p.root ≠ ""

/-- The text of a path; a path that names nothing is a single dot. -/
def render (p : Path) : String :=
  if p.root = "" ∧ p.parts = [] then "." else p.root ++ "/".intercalate p.parts

/-- Whether the path holds the character that no path can hold. -/
def hasNul (p : Path) : Bool :=
  p.render.toList.contains '\x00'

/-- The wording of a path that holds that character. -/
def nulMessage : String := "embedded null byte"

/-- A path seen from another one: an absolute path stays as it is. -/
def join (base p : Path) : Path :=
  if p.isAbsolute then p else { base with parts := base.parts ++ p.parts }

/-- The path with further parts. -/
def extend (p : Path) (parts : List String) : Path :=
  { p with parts := p.parts ++ parts }

@[simp] theorem extend_nil (p : Path) : p.extend [] = p := by
  simp [extend]

@[simp] theorem extend_extend (p : Path) (xs ys : List String) :
    (p.extend xs).extend ys = p.extend (xs ++ ys) := by
  simp [extend]

/-- The path from a base to a path below it. -/
def below? (base p : Path) : Option Path :=
  if base.root = p.root ∧ base.parts.isPrefixOf p.parts then
    some { root := "", parts := p.parts.drop base.parts.length }
  else none

/-- The last part, empty if there is none. -/
def fileName (p : Path) : String := p.parts.getLast?.getD ""

/-- Cancels a part against a double dot after it; at a root double dots lead nowhere. -/
def cancel (rooted : Bool) (done : List String) (part : String) : List String :=
  if part ≠ ".." then done ++ [part]
  else
    match done.getLast? with
    | some last => if last = ".." then done ++ [part] else done.dropLast
    | none => if rooted then [] else [part]

/-- The path without double dots that can be cancelled. -/
def normal (p : Path) : Path :=
  { p with parts := p.parts.foldl (cancel p.isAbsolute) [] }

/-- The place that an absolute path leads to in a tree without links. -/
def resolved (p : Path) : Path :=
  { p.normal with root := "/" }

/-! ## Paths as texts -/

/-- The text with backslashes read as slashes. -/
def slashed (text : String) : String :=
  String.ofList (text.toList.map fun c => if c = '\\' then '/' else c)

/-- What stands before the last slash, without slashes at its end unless it is nothing else. -/
def directoryOf (text : String) : String :=
  let head := text.toList.reverse.dropWhile (· ≠ '/')
  if head.all (· = '/') then String.ofList head.reverse
  else String.ofList (head.dropWhile (· = '/')).reverse

/-- A text put after a directory; an absolute one replaces it. -/
def joinTexts (base text : String) : String :=
  if text.toList.head? = some '/' then text
  else if base = "" ∨ base.toList.getLast? = some '/' then base ++ text
  else base ++ "/" ++ text

/-- The text of the normal path that a text denotes. -/
def normalText (text : String) : String :=
  (parse text).normal.render

/-- The text of the place that the text of an absolute path leads to in a tree without links. -/
def resolvedText (text : String) : String :=
  (parse text).resolved.render

end Path

end SymbolAtlas
