/-!
# Name patterns

A pattern is matched against a whole file name: `*` stands for any text, `?` for any character and
brackets for one character of a set.  Every other character stands for itself, also a bracket that
is never closed.
-/

namespace SymbolAtlas

/-- A part of a set of characters: the characters from one to another. -/
structure CharRange where
  first : Char
  last : Char
  deriving DecidableEq, Repr, Inhabited

/-- Whether a range holds a character. -/
def CharRange.holds (r : CharRange) (c : Char) : Bool :=
  r.first ≤ c && c ≤ r.last

/-- Whether a range holds no character at all. -/
def CharRange.isEmpty (r : CharRange) : Bool :=
  r.last < r.first

/-- A range of one character. -/
def CharRange.only (c : Char) : CharRange := ⟨c, c⟩

/-- A part of a pattern. -/
inductive GlobPart where
  /-- Any text, also none. -/
  | anyText
  /-- Any single character. -/
  | anyChar
  | char (c : Char)
  /-- A character that one of the ranges holds, or none of them in a complement. -/
  | set (complement : Bool) (ranges : List CharRange)
  deriving DecidableEq, Repr, Inhabited

/-- Whether a part matches a single character. -/
def GlobPart.admits : GlobPart → Char → Bool
  | anyText, _ => true
  | anyChar, _ => true
  | char c, x => c = x
  | set complement ranges, x => (ranges.any (fun r => r.holds x)) != complement

/-- A pattern for names. -/
abbrev Glob := List GlobPart

namespace Glob

/-! ## Reading -/

/-- The ranges that the text of a set denotes: a hyphen between two characters makes a range. -/
def rangesOf : List Char → List CharRange
  | a :: '-' :: b :: rest => ⟨a, b⟩ :: rangesOf rest
  | a :: rest => CharRange.only a :: rangesOf rest
  | [] => []

/-- The set that a text between brackets denotes.  An exclamation mark in front makes the
complement, and it stands in front as well if only empty ranges precede it. -/
def setOf (text : List Char) : GlobPart :=
  match text with
  | '!' :: rest => .set true (rangesOf rest)
  | _ =>
    let ranges := rangesOf text
    match ranges.head?.map CharRange.isEmpty, ranges.dropWhile CharRange.isEmpty with
    | some true, r :: rest =>
      if r = CharRange.only '!' then .set true rest
      else if r.first = '!' then .set true (CharRange.only '-' :: CharRange.only r.last :: rest)
      else .set false ranges
    | _, _ => .set false ranges

/-- Puts a text before the first of two texts. -/
def extend (front : List Char) (r : List Char × List Char) : List Char × List Char :=
  (front ++ r.1, r.2)

/-- The text up to the next closing bracket, and what follows that. -/
def closing? : List Char → Option (List Char × List Char)
  | [] => none
  | c :: rest => if c = ']' then some ([], rest) else (closing? rest).map (extend [c])

/-- The text of a set and what follows it, after the opening bracket.  A closing bracket that comes
first belongs to the set. -/
def bracketed? : List Char → Option (List Char × List Char)
  | '!' :: ']' :: rest => (closing? rest).map (extend ['!', ']'])
  | '!' :: rest => (closing? rest).map (extend ['!'])
  | ']' :: rest => (closing? rest).map (extend [']'])
  | rest => closing? rest

theorem length_closing? {cs text after : List Char} (h : closing? cs = some (text, after)) :
    after.length < cs.length := by
  induction cs generalizing text with
  | nil => simp [closing?] at h
  | cons c rest ih =>
    rw [closing?] at h
    split at h
    · simp_all
    · obtain ⟨r, hr, hpair⟩ := Option.map_eq_some_iff.1 h
      simp only [extend, Prod.mk.injEq] at hpair
      have hr' : closing? rest = some (r.1, after) := by rw [hr, ← hpair.2]
      have := ih hr'
      simp only [List.length_cons]
      omega

theorem length_bracketed? {cs text after : List Char} (h : bracketed? cs = some (text, after)) :
    after.length < cs.length := by
  have step {front rest : List Char}
      (h : (closing? rest).map (extend front) = some (text, after)) :
      after.length < rest.length := by
    obtain ⟨r, hr, hpair⟩ := Option.map_eq_some_iff.1 h
    simp only [extend, Prod.mk.injEq] at hpair
    have hr' : closing? rest = some (r.1, after) := by rw [hr, ← hpair.2]
    exact length_closing? hr'
  rw [bracketed?.eq_def] at h
  split at h
  · have := step h
    simp only [List.length_cons]
    omega
  · have := step h
    simp only [List.length_cons]
    omega
  · have := step h
    simp only [List.length_cons]
    omega
  · exact length_closing? h

/-- Reads a pattern. -/
def parse (cs : List Char) : Glob :=
  match cs with
  | [] => []
  | '*' :: rest => .anyText :: parse rest
  | '?' :: rest => .anyChar :: parse rest
  | '[' :: rest =>
    match _h : bracketed? rest with
    | some (text, after) => setOf text :: parse after
    | none => .char '[' :: parse rest
  | c :: rest => .char c :: parse rest
termination_by cs.length
decreasing_by
  · simp
  · simp
  · have := length_bracketed? _h
    simp only [List.length_cons]
    omega
  · simp
  · simp

/-! ## Matching -/

/-- The ends of a text, from the whole text down to nothing. -/
def ends : List Char → List (List Char)
  | [] => [[]]
  | c :: rest => (c :: rest) :: ends rest

/-- Whether a pattern matches a whole text. -/
def isMatch : Glob → List Char → Bool
  | [], cs => cs.isEmpty
  | .anyText :: rest, cs => (ends cs).any (isMatch rest)
  | part :: rest, cs =>
    match cs with
    | [] => false
    | c :: more => part.admits c && isMatch rest more

end Glob

/-- Whether a name matches one of several patterns. -/
def matchesAny (patterns : List String) (name : String) : Bool :=
  patterns.any fun p => (Glob.parse p.toList).isMatch name.toList

end SymbolAtlas
