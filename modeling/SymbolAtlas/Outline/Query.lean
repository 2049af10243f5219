import SymbolAtlas.Outline

/-!
# Questions to an outline

Queries walk the ownership tree depth first in the order of declaration.  A limit above zero cuts
the answer to that many entities, any other limit leaves it whole.
-/

namespace SymbolAtlas

namespace Outline

/-- The entities that a scope owns and that exist, in order of declaration. -/
def children (o : Outline) (i : Nat) : List Nat :=
  match o.get? i with
  | some e => e.children.filter (· < o.size)
  | none => []

/-- The entities below a scope, depth first in the order of declaration.  What is owned always has
the greater number. -/
def descendants (o : Outline) (i : Nat) : List Nat :=
  (o.children i).flatMap fun c =>
    if _h : i < c ∧ c < o.size then c :: o.descendants c else []
termination_by o.size - i
decreasing_by omega

/-! ## Walks -/

theorem lt_size_of_mem_children {o : Outline} {i c : Nat} (h : c ∈ o.children i) : c < o.size := by
  unfold children at h
  split at h
  · exact of_decide_eq_true (List.mem_filter.1 h).2
  · cases h

/-- The owned entities that a walk steps into. -/
def below (o : Outline) (i : Nat) : List Nat := (o.children i).filter (i < ·)

theorem descendants_eq_below (o : Outline) (i : Nat) :
    o.descendants i = (o.below i).flatMap fun c => c :: o.descendants c := by
  have hguard : ∀ cs : List Nat, (∀ c ∈ cs, c < o.size) →
      (cs.flatMap fun c => if _h : i < c ∧ c < o.size then c :: o.descendants c else []) =
        (cs.filter fun c => i < c).flatMap fun c => c :: o.descendants c := by
    intro cs hcs
    induction cs with
    | nil => rfl
    | cons c rest ih =>
      rw [List.flatMap_cons, ih fun d hd => hcs d (.tail _ hd)]
      by_cases hi : i < c
      · rw [dif_pos ⟨hi, hcs c (.head _)⟩, List.filter_cons, if_pos (decide_eq_true hi)]
        rfl
      · rw [dif_neg fun h => hi h.1, List.filter_cons, if_neg (by simpa using hi)]
        rfl
  rw [descendants]
  exact hguard _ fun c => lt_size_of_mem_children

/-- What a walk comes to from the entities it has stacked. -/
def ahead (o : Outline) (stack : List Nat) : List Nat :=
  stack.flatMap fun i => i :: o.descendants i

theorem ahead_below (o : Outline) (i : Nat) (stack : List Nat) :
    o.ahead (o.below i ++ stack) = o.descendants i ++ o.ahead stack := by
  rw [ahead, List.flatMap_append, ← descendants_eq_below]
  rfl

/-- A walk takes an entity off the stack and puts what it owns there. -/
theorem ahead_cons (o : Outline) (i : Nat) (stack : List Nat) :
    o.ahead (i :: stack) = i :: o.ahead (o.below i ++ stack) := by
  rw [ahead_below]
  rfl

/-- Walks on from a stack of entities and collects the wanted ones, until a positive limit is
reached. -/
def collect (o : Outline) (wanted : Nat → Bool) (limit : Int) (found : List Nat) :
    List Nat → List Nat
  | [] => found
  | i :: stack =>
    if wanted i then
      if 0 < limit && limit ≤ (found ++ [i]).length then found ++ [i]
      else o.collect wanted limit (found ++ [i]) (o.below i ++ stack)
    else o.collect wanted limit found (o.below i ++ stack)
termination_by stack => (o.ahead stack).length
decreasing_by all_goals simp [ahead_cons]

/-! ## Searches -/

/-- Whether an entity has the wanted kind and, if a name is wanted too, that name. -/
def isWanted (o : Outline) (kind : Kind) (name : Option String) (i : Nat) : Bool :=
  match o.get? i with
  | some e =>
    e.kind == kind &&
      match name with
      | some n => e.name == some n
      | none => true
  | none => false

/-- A namespace is looked up under its canonical name, everything else as it is. -/
def soughtName (kind : Kind) (name : Option String) : Option String :=
  if kind = .namespaceDecl then name.map Qualified.canonical else name

/-- The entities below a scope with a tag and possibly a name.  An unknown tag matches nothing. -/
def select (o : Outline) (scope : Nat) (tag : String) (name : Option String) (limit : Int) :
    List Nat :=
  match Kind.ofTag? tag with
  | none => []
  | some kind => o.collect (o.isWanted kind (soughtName kind name)) limit [] (o.below scope)

/-- The first entity below a scope with a tag and possibly a name. -/
def selectFirst (o : Outline) (scope : Nat) (tag : String) (name : Option String) : Option Nat :=
  (o.select scope tag name 1).head?

/-! ## Places -/

/-- Whether an entity is a scope whose span holds an offset. -/
def covers (o : Outline) (offset : Int) (i : Nat) : Bool :=
  match o.get? i with
  | some e =>
    e.isScope &&
      match e.span with
      | some s => s.contains offset
      | none => false
  | none => false

/-- The scope reached from a given one by always stepping into the last owned scope that holds the
offset. -/
def scopeAt (o : Outline) (offset : Int) (i : Nat) : Nat :=
  match ((o.children i).filter (o.covers offset)).getLast? with
  | some c => if _h : i < c ∧ c < o.size then o.scopeAt offset c else i
  | none => i
termination_by o.size - i
decreasing_by omega

end Outline

end SymbolAtlas
