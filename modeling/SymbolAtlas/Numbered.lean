/-!
# Numbered stores

An array as a store that hands out the position of what it keeps.  A number may lie outside of the
store; counting from the end is a way of its own to read one.
-/

namespace SymbolAtlas.Numbered

variable {α : Type}

/-- What is kept under a number, which may be out of range on either side. -/
def lookup? (store : Array α) (i : Int) : Option α :=
  if 0 ≤ i then store[i.toNat]? else none

/-- What is kept at a position; negative positions count from the end. -/
def atPosition? (store : Array α) (i : Int) : Option α :=
  lookup? store (if i < 0 then i + store.size else i)

/-- Keeps one more thing and gives its number. -/
def add (store : Array α) (a : α) : Array α × Nat :=
  (store.push a, store.size)

/-- What was just added is found under its number. -/
theorem lookup?_add (store : Array α) (a : α) :
    lookup? (add store a).1 (add store a).2 = some a := by
  simp [lookup?, add]

/-- Adding changes nothing that was kept before. -/
theorem lookup?_add_of_lt (store : Array α) (a : α) {i : Nat} (h : i < store.size) :
    lookup? (add store a).1 i = lookup? store i := by
  simp [lookup?, add, Array.getElem?_push, Nat.ne_of_lt h]

end SymbolAtlas.Numbered
