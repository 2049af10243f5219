import SymbolAtlas.Value

/-!
# Equal values

Values are compared part by part, so that equality of values can be decided.
-/

namespace SymbolAtlas.Value

mutual

/-- Whether two values are the same. -/
def same : Value → Value → Bool
  | .null, .null => true
  | .bool b, .bool c => b = c
  | .int i, .int j => i = j
  | .float x, .float y => x = y
  | .str s, .str t => s = t
  | .list vs, .list ws => sameItems vs ws
  | .object vs, .object ws => sameFields vs ws
  | _, _ => false
termination_by structural v => v

/-- Whether two lists hold the same values. -/
def sameItems : List Value → List Value → Bool
  | [], [] => true
  | v :: vs, w :: ws => v.same w && sameItems vs ws
  | _, _ => false
termination_by structural vs => vs

/-- Whether two objects have the same fields in the same order. -/
def sameFields : List (String × Value) → List (String × Value) → Bool
  | [], [] => true
  | (k, v) :: vs, (l, w) :: ws => k = l && v.same w && sameFields vs ws
  | _, _ => false
termination_by structural vs => vs

end

mutual

theorem same_iff : (v w : Value) → (v.same w = true ↔ v = w)
  | .list vs, w => by cases w <;> simp [same, sameItems_iff vs]
  | .object vs, w => by cases w <;> simp [same, sameFields_iff vs]
  | .null, w | .bool _, w | .int _, w | .float _, w | .str _, w => by cases w <;> simp [same]
termination_by structural v => v

theorem sameItems_iff : (vs ws : List Value) → (sameItems vs ws = true ↔ vs = ws)
  | [], ws => by cases ws <;> simp [sameItems]
  | v :: vs, ws => by cases ws <;> simp [sameItems, same_iff v, sameItems_iff vs]
termination_by structural vs => vs

theorem sameFields_iff : (vs ws : List (String × Value)) → (sameFields vs ws = true ↔ vs = ws)
  | [], ws => by cases ws <;> simp [sameFields]
  | (k, v) :: vs, ws => by
    cases ws <;> simp [sameFields, same_iff v, sameFields_iff vs, Prod.ext_iff, and_assoc]
termination_by structural vs => vs

end

instance : DecidableEq Value := fun v w => decidable_of_iff _ (same_iff v w)

end SymbolAtlas.Value
