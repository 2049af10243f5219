import SymbolAtlas.Failure
import SymbolAtlas.Schema.Check

/-!
# Shapes

A shape says what a value should look like: which fields an object has and what these hold when
they are absent, and which further rules of the domain a part has to meet.  Shapes are data.  What
becomes of a value under a shape is up to a validator, and `Validator.Lawful` is all that is relied
on: it says how whole values are put together from their parts, and leaves open which numbers and
truth values are recognised in words.

`Shape.read` is a validator to work with; it reads plain values as `Check` does.
-/

namespace SymbolAtlas.Schema

/-- What becomes of a value: it is brought into the form of its shape, or issues stand against it,
or something was raised on the way. -/
inductive Validated (α : Type) where
  | valid (a : α)
  | invalid (issues : List Issue)
  | raised (raised : Raised)
  deriving Inhabited

/-- What a rule of the domain makes of a value. -/
inductive Ruling where
  | accepted (v : Value)
  /-- The rule is broken; the text says how. -/
  | refused (text : String)
  | raised (raised : Raised)
  deriving Inhabited

/-- Plain values. -/
inductive Atom where
  | int
  | bool
  | text
  /-- One of a few words. -/
  | literal (words : List String)
  deriving DecidableEq, Repr, Inhabited

/-- A field of an object, for parts of a given kind. -/
structure Slot (σ : Type) where
  key : String
  shape : σ
  /-- What the field holds if it is absent. -/
  fallback : Value

/-- What a value should look like. -/
inductive Shape where
  | atom (atom : Atom)
  /-- Nothing, or a value of the inner shape. -/
  | optional (inner : Shape)
  | list (inner : Shape)
  /-- A value of the inner shape that meets a rule. -/
  | ruled (inner : Shape) (rule : Value → Ruling)
  /-- An object.  The word names it; a closed one has no fields but those that are known. -/
  | model (word : String) (closed : Bool) (fields : List (Slot Shape))

/-- What becomes of values under shapes. -/
abbrev Validator := Shape → Value → Validated Value

/-- A value has the form of a plain one. -/
def Atom.Holds : Atom → Value → Prop
  | int, v => ∃ i, v = .int i
  | bool, v => ∃ b, v = .bool b
  | text, v => ∃ s, v = .str s
  | literal words, v => ∃ s ∈ words, v = .str s

namespace Ruling

/-- A rule for texts as one for values. -/
def onText (rule : String → Ruling) : Value → Ruling
  | .str s => rule s
  | v => .accepted v

/-- A rule for integers as one for values. -/
def onInt (rule : Int → Ruling) : Value → Ruling
  | .int i => rule i
  | v => .accepted v

end Ruling

/-! ## Putting parts together -/

namespace Validated

variable {α β : Type}

/-- Applies a function to a value that was brought into form. -/
def map (f : α → β) : Validated α → Validated β
  | valid a => .valid (f a)
  | invalid issues => .invalid issues
  | raised r => .raised r

/-- Moves the issues of a part one step further out. -/
def under (step : Step) : Validated α → Validated α
  | invalid issues => .invalid (issues.map (Issue.under step))
  | other => other

/-- Parts in order, with the issues of all.  What one of them raises ends the matter. -/
def gather : List (Validated α) → Validated (List α)
  | [] => .valid []
  | raised r :: _ => .raised r
  | valid a :: rest => (gather rest).map (a :: ·)
  | invalid issues :: rest =>
    match gather rest with
    | valid _ => .invalid issues
    | invalid more => .invalid (issues ++ more)
    | raised r => .raised r

/-- Has a rule decide on a value that was brought into form; the input is what it was before. -/
def ruledBy (rule : Value → Ruling) (input : Value) : Validated Value → Validated Value
  | valid v =>
    match rule v with
    | .accepted w => .valid w
    | .refused text => .invalid [{ cause := .ruleBroken text, input := input }]
    | .raised r => .raised r
  | other => other

/-- Adds issues that come after all others. -/
def closing (extras : List Issue) : Validated α → Validated α
  | valid a => if extras.isEmpty then .valid a else .invalid extras
  | invalid issues => .invalid (issues ++ extras)
  | raised r => .raised r

/-- The items of a list. -/
def items (inner : Value → Validated Value) (items : List Value) : Validated (List Value) :=
  gather (items.mapIdx fun i v => (inner v).under (.index i))

/-- A field with its name: what is given for it, or else what it falls back on. -/
def field (validate : Validator) (given : Ledger Value) (f : Slot Shape) :
    Validated (String × Value) :=
  match given.get? f.key with
  | some v => ((validate f.shape v).under (.key f.key)).map fun w => (f.key, w)
  | none => .valid (f.key, f.fallback)

end Validated

/-- The issues of fields that are not among the known ones. -/
def extraIssues (known : List String) (given : Ledger Value) : List Issue :=
  (given.filter fun entry => !known.contains entry.1).map fun entry =>
    { place := [.key entry.1], cause := .extraField, input := entry.2 }

/-- The issues of fields that an object should not have. -/
def Shape.extras (closed : Bool) (fields : List (Slot Shape)) (given : Ledger Value) :
    List Issue :=
  if closed then extraIssues (fields.map Slot.key) given else []

/-- What a validator is relied on for. -/
structure Validator.Lawful (validate : Validator) : Prop where
  /-- Nothing is refused without an issue. -/
  explains : ∀ shape v, validate shape v ≠ .invalid []
  /-- A value that has the form of a plain one stays as it is. -/
  atom_of_holds : ∀ a v, a.Holds v → validate (.atom a) v = .valid v
  /-- What is read as a plain value has its form. -/
  holds_of_atom : ∀ a v w, validate (.atom a) v = .valid w → a.Holds w
  /-- Texts are not made of anything else. -/
  eq_of_text : ∀ v w, validate (.atom .text) v = .valid w → v = w
  /-- Plain values raise nothing. -/
  atom_calm : ∀ a v r, validate (.atom a) v ≠ .raised r
  optional_null : ∀ inner, validate (.optional inner) .null = .valid .null
  optional_other : ∀ inner v, v ≠ .null → validate (.optional inner) v = validate inner v
  list_items : ∀ inner items, validate (.list inner) (.list items) =
    (Validated.items (validate inner) items).map .list
  list_other : ∀ inner v, (∀ items, v ≠ .list items) →
    ∃ issues, validate (.list inner) v = .invalid issues
  ruled : ∀ inner rule v, validate (.ruled inner rule) v = (validate inner v).ruledBy rule v
  model_object : ∀ word closed fields given, validate (.model word closed fields) (.object given) =
    ((Validated.gather (fields.map (Validated.field validate given))).closing
      (Shape.extras closed fields given)).map .object
  model_other : ∀ word closed fields v, (∀ given, v ≠ .object given) →
    ∃ issues, validate (.model word closed fields) v = .invalid issues

/-! ## Reading -/

namespace Validated

variable {α β : Type}

/-- The outcome of a check as a value. -/
def ofChecked (write : α → Value) : Checked α → Validated Value
  | .ok a => .valid (write a)
  | .error issues => .invalid issues

end Validated

/-- Reads a plain value. -/
def Atom.read : Atom → Value → Validated Value
  | int, v => .ofChecked .int (Check.int v)
  | bool, v => .ofChecked .bool (Check.bool v)
  | text, v => .ofChecked .str (Check.text v)
  | literal words, v => .ofChecked .str (Check.literal words v)

mutual

/-- Reads a value. -/
def Shape.read : Shape → Value → Validated Value
  | .atom a, v => a.read v
  | .optional inner, v =>
    match v with
    | .null => .valid .null
    | v => inner.read v
  | .list inner, v =>
    match v with
    | .list items => (Validated.items inner.read items).map .list
    | v => .invalid [{ cause := .listType, input := v }]
  | .ruled inner rule, v => (inner.read v).ruledBy rule v
  | .model word closed fields, v =>
    match v with
    | .object given =>
      ((Validated.gather (Shape.readFields given fields)).closing
        (Shape.extras closed fields given)).map .object
    | v => .invalid [{ cause := .modelType word, input := v }]
termination_by structural shape => shape

/-- Reads every field, with its name. -/
def Shape.readFields (given : Ledger Value) :
    List (Slot Shape) → List (Validated (String × Value))
  | [] => []
  | ⟨key, shape, fallback⟩ :: rest =>
    (match given.get? key with
      | some v => ((shape.read v).under (.key key)).map fun w => (key, w)
      | none => .valid (key, fallback)) :: Shape.readFields given rest
termination_by structural fields => fields

end

end SymbolAtlas.Schema
