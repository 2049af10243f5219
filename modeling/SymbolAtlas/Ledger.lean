/-!
# Ledgers

A ledger is a table of named values that remembers the order in which its names were first entered.
Overwriting a name keeps its place, erasing it and entering it again moves it to the end.  The
lemmas below say what each operation does to a look-up, which is the view that the rest of the
library reasons with.
-/

namespace SymbolAtlas

/-- A table of named values in the order of their first entry. -/
abbrev Ledger (α : Type) := List (String × α)

namespace Ledger

variable {α β : Type}

/-- The value entered under a name. -/
def get? : Ledger α → String → Option α
  | [], _ => none
  | (k, v) :: rest, key => if k = key then some v else get? rest key

/-- Whether a name has been entered. -/
def contains (table : Ledger α) (key : String) : Bool :=
  (table.get? key).isSome

/-- Enters a value: in place if the name is known, at the end otherwise. -/
def set : Ledger α → String → α → Ledger α
  | [], key, value => [(key, value)]
  | (k, v) :: rest, key, value =>
    if k = key then (k, value) :: rest else (k, v) :: set rest key value

/-- Strikes out every entry of a name. -/
def erase (table : Ledger α) (key : String) : Ledger α :=
  table.filter (fun entry => entry.1 ≠ key)

/-- The names in order of entry. -/
def keys (table : Ledger α) : List String :=
  table.map (·.1)

/-- The values in order of entry. -/
def values (table : Ledger α) : List α :=
  table.map (·.2)

/-- Applies a function to every value. -/
def mapValues (f : α → β) (table : Ledger α) : Ledger β :=
  table.map (fun entry => (entry.1, f entry.2))

@[simp] theorem get?_nil (key : String) : get? ([] : Ledger α) key = none := rfl

theorem get?_cons (k : String) (v : α) (rest : Ledger α) (key : String) :
    get? ((k, v) :: rest) key = if k = key then some v else get? rest key := rfl

/-- Reading back what was just entered. -/
@[simp] theorem get?_set_self (table : Ledger α) (key : String) (value : α) :
    (table.set key value).get? key = some value := by
  induction table with
  | nil => simp [set, get?]
  | cons entry rest ih =>
    obtain ⟨k, v⟩ := entry
    by_cases h : k = key <;> simp [set, get?, h, ih]

/-- Entering one name leaves the others alone. -/
theorem get?_set_of_ne (table : Ledger α) {key other : String} (value : α) (h : other ≠ key) :
    (table.set key value).get? other = table.get? other := by
  induction table with
  | nil => simp [set, get?, h.symm]
  | cons entry rest ih =>
    obtain ⟨k, v⟩ := entry
    by_cases hk : k = key
    · subst hk
      simp [set, get?, h.symm]
    · simp [set, hk, get?_cons, ih]

/-- An erased name is gone. -/
@[simp] theorem get?_erase_self (table : Ledger α) (key : String) :
    (table.erase key).get? key = none := by
  induction table with
  | nil => rfl
  | cons entry rest ih =>
    obtain ⟨k, v⟩ := entry
    by_cases h : k = key
    · simpa [erase, h] using ih
    · have : (erase ((k, v) :: rest) key) = (k, v) :: erase rest key := by simp [erase, h]
      rw [this, get?_cons, if_neg h, ih]

/-- Erasing one name leaves the others alone. -/
theorem get?_erase_of_ne (table : Ledger α) {key other : String} (h : other ≠ key) :
    (table.erase key).get? other = table.get? other := by
  induction table with
  | nil => rfl
  | cons entry rest ih =>
    obtain ⟨k, v⟩ := entry
    by_cases hk : k = key
    · subst hk
      have : (erase ((k, v) :: rest) k) = erase rest k := by simp [erase]
      rw [this, ih, get?_cons, if_neg h.symm]
    · have : (erase ((k, v) :: rest) key) = (k, v) :: erase rest key := by simp [erase, hk]
      rw [this, get?_cons, get?_cons, ih]

end Ledger

end SymbolAtlas
