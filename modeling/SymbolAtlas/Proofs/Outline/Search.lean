import Mathlib
import SymbolAtlas.Outline.Query

/-!
# Searches

A search walks below a scope with a stack and stops as soon as it has found enough.  What it finds
is the whole answer, which lists the wanted entities depth first, cut to the limit
(`Outline.select_eq_cut`).
-/

namespace SymbolAtlas

namespace Outline

/-! ## Cut lists -/

/-- The first entries of a list if the limit is positive, and all of them otherwise. -/
def cut {α : Type} (limit : Int) (xs : List α) : List α :=
  if 0 < limit then xs.take limit.toNat else xs

theorem cut_of_pos {α : Type} {limit : Int} (h : 0 < limit) (xs : List α) :
    cut limit xs = xs.take limit.toNat :=
  if_pos h

theorem cut_of_nonpos {α : Type} {limit : Int} (h : limit ≤ 0) (xs : List α) : cut limit xs = xs :=
  if_neg (by omega)

@[simp] theorem cut_nil {α : Type} (limit : Int) : cut limit ([] : List α) = [] := by
  unfold cut
  split
  · exact List.take_nil
  · rfl

theorem map_cut {α β : Type} (f : α → β) (limit : Int) (xs : List α) :
    (cut limit xs).map f = cut limit (xs.map f) := by
  unfold cut
  split
  · exact List.map_take
  · rfl

/-- Nothing is cut off a list within the limit. -/
theorem cut_of_length_le {α : Type} {limit : Int} {xs : List α}
    (h : 0 < limit → xs.length ≤ limit) : cut limit xs = xs := by
  unfold cut
  split
  · rename_i hpos
    have hlength := h hpos
    exact List.take_of_length_le (by omega)
  · rfl

/-- What follows a list that fills the limit is cut off. -/
theorem cut_append_of_le {α : Type} {limit : Int} {xs : List α} (hpos : 0 < limit)
    (h : limit ≤ xs.length) (ys : List α) : cut limit (xs ++ ys) = cut limit xs := by
  rw [cut_of_pos hpos, cut_of_pos hpos]
  exact List.take_append_of_le_length (by omega)

/-- A list is cut by cutting its end to the room that its front leaves. -/
theorem append_cut {α : Type} {limit : Int} {xs : List α} (h : (xs.length : Int) < limit)
    (ys : List α) : xs ++ cut (limit - xs.length) ys = cut limit (xs ++ ys) := by
  have hroom : limit.toNat = xs.length + (limit - xs.length).toNat := by omega
  rw [cut_of_pos (by omega), cut_of_pos (by omega), hroom, List.take_length_add_append]

theorem le_length_cut_iff {α : Type} {limit : Int} (hpos : 0 < limit) (xs : List α) :
    limit ≤ (cut limit xs).length ↔ limit ≤ xs.length := by
  rw [cut_of_pos hpos, List.length_take]
  omega

/-- The head of a list is what is left of it at a limit of one. -/
theorem head?_cut_one {α : Type} (xs : List α) : (cut 1 xs).head? = xs.head? := by
  cases xs with
  | nil => rfl
  | cons x rest => rfl

/-! ## Walks -/

/-- While there is room, a walk adds what is wanted of that which lies ahead, cut to the limit. -/
theorem collect_eq_cut (o : Outline) (wanted : Nat → Bool) (limit : Int) (found stack : List Nat)
    (hroom : 0 < limit → (found.length : Int) < limit) :
    o.collect wanted limit found stack = cut limit (found ++ (o.ahead stack).filter wanted) := by
  fun_induction collect o wanted limit found stack with
  | case1 found =>
    rw [ahead, List.flatMap_nil, List.filter_nil, List.append_nil]
    exact (cut_of_length_le fun hpos => (hroom hpos).le).symm
  | case2 found i stack hwanted hfull =>
    obtain ⟨hpos, hle⟩ : 0 < limit ∧ limit ≤ (found ++ [i]).length := by simpa using hfull
    have hfits : 0 < limit → ((found ++ [i]).length : Int) ≤ limit := by
      intro hpos
      have hlt := hroom hpos
      rw [List.length_append, List.length_singleton]
      omega
    have hsplit := List.append_cons found i ((o.ahead (o.below i ++ stack)).filter wanted)
    rw [ahead_cons, List.filter_cons_of_pos hwanted, hsplit, cut_append_of_le hpos hle,
      cut_of_length_le hfits]
  | case3 found i stack hwanted hfull ih =>
    rw [ih ?_, ahead_cons, List.filter_cons_of_pos hwanted, ← List.append_cons]
    intro hpos
    by_contra hge
    exact hfull (by simp only [hpos, not_lt.1 hge, decide_true, Bool.and_self])
  | case4 found i stack hwanted ih =>
    rw [ih hroom, ahead_cons, List.filter_cons_of_neg hwanted]

/-! ## Answers -/

/-- All entities below a scope with a tag and possibly a name, depth first in the order of
declaration. -/
def answer (o : Outline) (scope : Nat) (tag : String) (name : Option String) : List Nat :=
  match Kind.ofTag? tag with
  | none => []
  | some kind => (o.descendants scope).filter (o.isWanted kind (soughtName kind name))

theorem answer_of_unknown (o : Outline) (scope : Nat) {tag : String} {name : Option String}
    (h : Kind.ofTag? tag = none) : o.answer scope tag name = [] := by
  rw [answer, h]

/-- A search finds the whole answer, cut to the limit. -/
theorem select_eq_cut (o : Outline) (scope : Nat) (tag : String) (name : Option String)
    (limit : Int) : o.select scope tag name limit = cut limit (o.answer scope tag name) := by
  unfold select answer
  cases Kind.ofTag? tag with
  | none => exact (cut_nil limit).symm
  | some kind =>
    have hahead : o.ahead (o.below scope) = o.descendants scope :=
      (o.descendants_eq_below scope).symm
    exact (o.collect_eq_cut _ limit [] _ id).trans (by rw [List.nil_append, hahead])

/-- The first entity that is found heads the whole answer. -/
theorem selectFirst_eq_head? (o : Outline) (scope : Nat) (tag : String) (name : Option String) :
    o.selectFirst scope tag name = (o.answer scope tag name).head? := by
  rw [selectFirst, select_eq_cut, head?_cut_one]

end Outline

end SymbolAtlas
