import SymbolAtlas.Schema.Issue
import SymbolAtlas.Number.Reading

/-!
# Checks

A check reads a plain value as something typed.  It is lenient: numbers may be written as strings,
truth values as words.  Checks of independent parts all run, and their issues are collected in the
order of the parts.
-/

namespace SymbolAtlas.Schema

/-- A typed value, or the issues that stand against it. -/
abbrev Checked (α : Type) := Except (List Issue) α

namespace Checked

variable {α β : Type}

/-- Refuses a value. -/
def refuse (cause : Cause) (input : Value) : Checked α :=
  .error [{ cause := cause, input := input }]

/-- Applies a checked function to a checked value, with the issues of both. -/
def ap (f : Checked (α → β)) (x : Checked α) : Checked β :=
  match f, x with
  | .ok f, .ok a => .ok (f a)
  | .ok _, .error xs => .error xs
  | .error fs, .ok _ => .error fs
  | .error fs, .error xs => .error (fs ++ xs)

/-- Moves the issues of a part one step further out. -/
def under (step : Step) : Checked α → Checked α
  | .ok a => .ok a
  | .error issues => .error (issues.map (Issue.under step))

/-- Checks every entry, with the issues of all. -/
def all (check : α → Checked β) : List α → Checked (List β)
  | [] => .ok []
  | a :: rest => (Checked.ap (.ok List.cons) (check a)).ap (all check rest)

end Checked

/-- Reads a plain value as something typed. -/
abbrev Check (α : Type) := Value → Checked α

namespace Check

variable {α : Type}

/-- An integer: also a truth value, a whole floating point number or a text that denotes one. -/
def int : Check Int
  | .int i => .ok i
  | .bool b => .ok (if b then 1 else 0)
  | .float x =>
    match x, x.toInt? with
    | _, some i => .ok i
    | .finite .., none => Checked.refuse .intFromFloat (.float x)
    | _, none => Checked.refuse .notFinite (.float x)
  | .str s =>
    match Number.int? s with
    | some i => .ok i
    | none => Checked.refuse .intParsing (.str s)
  | v => Checked.refuse .intType v

/-- A floating point number: also an integer, a truth value or a text that denotes one. -/
def double : Check Double
  | .float x => .ok x
  | .int i =>
    match Double.ofInt i with
    | .infinite _ => Checked.refuse .floatType (.int i)
    | x => .ok x
  | .bool b => .ok (Double.ofInt (if b then 1 else 0))
  | .str s =>
    match Number.double? s with
    | some x => .ok x
    | none => Checked.refuse .floatParsing (.str s)
  | v => Checked.refuse .floatType v

/-- The truth value that a word denotes, in any case. -/
def boolWord? (s : String) : Option Bool :=
  let word := String.ofList (s.toList.map Char.toLower)
  if ["0", "off", "f", "false", "n", "no"].contains word then some false
  else if ["1", "on", "t", "true", "y", "yes"].contains word then some true
  else none

/-- The truth value that a whole number denotes. -/
def boolNumber (i : Int) (input : Value) : Checked Bool :=
  if i = 0 then .ok false
  else if i = 1 then .ok true
  else Checked.refuse .boolParsing input

/-- A truth value: also zero, one or a word for either. -/
def bool : Check Bool
  | .bool b => .ok b
  | .int i => boolNumber i (.int i)
  | .float x =>
    match x.toInt? with
    | some i => boolNumber i (.float x)
    | none => Checked.refuse .boolType (.float x)
  | .str s =>
    match boolWord? s with
    | some b => .ok b
    | none => Checked.refuse .boolParsing (.str s)
  | v => Checked.refuse .boolType v

/-- A text. -/
def text : Check String
  | .str s => .ok s
  | v => Checked.refuse .stringType v

/-- One of a few words. -/
def literal (known : List String) : Check String
  | .str s => if known.contains s then .ok s else Checked.refuse (.notLiteral known) (.str s)
  | v => Checked.refuse (.notLiteral known) v

/-- Nothing, or what the inner check reads. -/
def optional (inner : Check α) : Check (Option α)
  | .null => .ok none
  | v =>
    match inner v with
    | .ok a => .ok (some a)
    | .error issues => .error issues

/-- Checks items from a position on. -/
def itemsFrom (inner : Check α) : Nat → List Value → Checked (List α)
  | _, [] => .ok []
  | i, v :: rest =>
    (Checked.ap (.ok List.cons) ((inner v).under (.index i))).ap (itemsFrom inner (i + 1) rest)

/-- A list. -/
def list (inner : Check α) : Check (List α)
  | .list items => itemsFrom inner 0 items
  | v => Checked.refuse .listType v

/-- Checks the values of named fields. -/
def entries (inner : Check α) (fields : Ledger Value) : Checked (Ledger α) :=
  Checked.all (fun entry =>
    Checked.ap (.ok (fun a => (entry.1, a))) ((inner entry.2).under (.key entry.1))) fields

/-- An object whose fields all pass the same check. -/
def table (inner : Check α) : Check (Ledger α)
  | .object fields => entries inner fields
  | v => Checked.refuse .dictType v

/-- Any object, as it is. -/
def object : Check (Ledger Value)
  | .object fields => .ok fields
  | v => Checked.refuse .dictType v

/-- A pair of integers. -/
def pair : Check (Int × Int)
  | .list [a, b] =>
    (Checked.ap (.ok Prod.mk) ((int a).under (.index 0))).ap ((int b).under (.index 1))
  | .list [a] =>
    (Checked.ap (.ok Prod.mk) ((int a).under (.index 0))).ap
      (Checked.under (.index 1) (Checked.refuse .missing (.list [a])))
  | .list [] =>
    (Checked.ap (.ok Prod.mk)
      (Checked.under (.index 0) (Checked.refuse .missing (.list [])))).ap
      (Checked.under (.index 1) (Checked.refuse .missing (.list [])))
  | .list items => Checked.refuse (.tooLong 2 items.length) (.list items)
  | v => Checked.refuse .tupleType v

/-- A section: an object whose fields the inner check reads. -/
def sectionNamed (word : String) (inner : Ledger Value → Checked α) : Check α
  | .object fields => inner fields
  | v => Checked.refuse (.modelType word) v

end Check

variable {α : Type}

/-- A field that has to be there. -/
def required (fields : Ledger Value) (key : String) (check : Check α) : Checked α :=
  Checked.under (.key key)
    (match fields.get? key with
    | some v => check v
    | none => Checked.refuse .missing (.object fields))

/-- A field with a value to fall back on. -/
def defaulting (fields : Ledger Value) (key : String) (fallback : α) (check : Check α) :
    Checked α :=
  match fields.get? key with
  | some v => (check v).under (.key key)
  | none => .ok fallback

end SymbolAtlas.Schema
