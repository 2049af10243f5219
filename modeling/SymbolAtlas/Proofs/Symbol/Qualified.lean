import Mathlib
import SymbolAtlas.Symbol.Qualified

/-!
# Canonical names

Making a name canonical twice need not come to the same as making it canonical once, since each time
one separator is taken off the end.  It does unless two separators stand at the end
(`Qualified.isStable_iff`).  A name without separators at its ends has the same canonical name as
its spellings with one in front, one behind, or both (`Qualified.canonical_spelling`).
-/

namespace SymbolAtlas.Qualified

/-- A second pass leaves the canonical name as it is. -/
def IsStable (name : String) : Prop :=
  canonical (canonical name) = canonical name

instance (name : String) : Decidable (IsStable name) :=
  inferInstanceAs (Decidable (canonical (canonical name) = canonical name))

/-! ## Roots and ends -/

theorem rooted_of_head? {cs : List Char} (h : cs.head? = some separator) : rooted cs = cs :=
  if_pos h

theorem rooted_of_head?_ne {cs : List Char} (h : cs.head? ≠ some separator) :
    rooted cs = separator :: cs :=
  if_neg h

theorem head?_rooted (cs : List Char) : (rooted cs).head? = some separator := by
  by_cases h : cs.head? = some separator
  · rw [rooted_of_head? h, h]
  · rw [rooted_of_head?_ne h]
    rfl

theorem trimmed_of_getLast?_ne {cs : List Char} (h : cs.getLast? ≠ some separator) :
    trimmed cs = cs :=
  if_neg fun hc => h hc.2

theorem trimmed_concat {cs : List Char} (h : cs ≠ []) : trimmed (cs ++ [separator]) = cs := by
  have hlength : 0 < cs.length := List.length_pos_iff.2 h
  rw [trimmed, if_pos]
  · exact List.dropLast_concat
  · rw [List.length_append, List.getLast?_concat]
    exact ⟨Nat.lt_add_of_pos_left hlength, rfl⟩

/-- What starts with a separator still does without the one at its end. -/
theorem head?_trimmed {cs : List Char} (h : cs.head? = some separator) :
    (trimmed cs).head? = some separator := by
  unfold trimmed
  split
  · rename_i hlong
    cases cs with
    | nil => cases h
    | cons c rest =>
      cases rest with
      | nil => exact absurd hlong.1 (Nat.lt_irrefl 1)
      | cons d more => exact h
  · exact h

theorem toList_canonical (name : String) :
    (canonical name).toList = trimmed (rooted name.toList) :=
  String.toList_ofList

/-- The second pass finds the separator in front. -/
theorem toList_canonical_canonical (name : String) :
    (canonical (canonical name)).toList = trimmed (trimmed (rooted name.toList)) := by
  rw [toList_canonical, toList_canonical,
    rooted_of_head? (head?_trimmed (head?_rooted name.toList))]

theorem isStable_iff_trimmed (name : String) :
    IsStable name ↔
      trimmed (trimmed (rooted name.toList)) = trimmed (rooted name.toList) := by
  rw [IsStable, ← String.toList_inj, toList_canonical_canonical, toList_canonical]

/-! ## Stable names -/

/-- Trimming twice is trimming once unless two separators stand at the end. -/
theorem trimmed_trimmed_iff {cs : List Char} :
    trimmed (trimmed cs) = trimmed cs ↔
      ([separator, separator] <:+ cs → cs = [separator, separator]) := by
  by_cases hends : [separator, separator] <:+ cs
  · obtain ⟨front, rfl⟩ := hends
    by_cases hfront : front = []
    · subst hfront
      exact iff_of_true rfl fun _ => rfl
    · have honce : trimmed (front ++ [separator, separator]) = front ++ [separator] := by
        rw [List.append_cons, trimmed_concat (by simp)]
      rw [honce, trimmed_concat hfront]
      refine iff_of_false ?_ fun h => hfront ?_
      · simp
      · exact List.append_left_eq_self.1 (h (List.suffix_append _ _))
  · refine iff_of_true ?_ fun h => absurd h hends
    by_cases hlast : cs.getLast? = some separator
    · obtain ⟨start, rfl⟩ := List.getLast?_eq_some_iff.1 hlast
      by_cases hstart : start = []
      · subst hstart
        rfl
      · rw [trimmed_concat hstart, trimmed_of_getLast?_ne]
        intro h
        obtain ⟨front, rfl⟩ := List.getLast?_eq_some_iff.1 h
        exact hends ⟨front, by simp⟩
    · rw [trimmed_of_getLast?_ne hlast, trimmed_of_getLast?_ne hlast]

/-- A name is stable unless two separators stand at its end, with something in front of them. -/
theorem isStable_iff (name : String) :
    IsStable name ↔
      ([separator, separator] <:+ name.toList → name.toList = [separator, separator]) := by
  rw [isStable_iff_trimmed, trimmed_trimmed_iff]
  by_cases hhead : name.toList.head? = some separator
  · rw [rooted_of_head? hhead]
  · -- the separator that is put in front makes no end of two separators
    have hsingle : ∀ cs : List Char, cs.head? = some separator → cs ≠ name.toList := by
      rintro cs hcs rfl
      exact hhead hcs
    have hpair : separator :: name.toList ≠ [separator, separator] := fun h =>
      hsingle [separator] rfl (List.cons.inj h).2.symm
    rw [rooted_of_head?_ne hhead, List.suffix_cons_iff]
    refine imp_congr (or_iff_right fun h => hpair h.symm) ?_
    exact iff_of_false hpair fun h => hsingle _ rfl h.symm

/-! ## Spellings -/

/-- The ways to write a name with or without a separator in front and behind. -/
def spellings (name : String) : List String :=
  [name, globalName ++ name, name ++ globalName, globalName ++ name ++ globalName]

/-- All spellings of a name without separators at its ends have one canonical name. -/
theorem canonical_spelling {name : String} (hhead : name.toList.head? ≠ some separator)
    (hlast : name.toList.getLast? ≠ some separator) {spelling : String}
    (h : spelling ∈ spellings name) : canonical spelling = globalName ++ name := by
  rw [← String.toList_inj, toList_canonical]
  have hglobal : globalName.toList = [separator] := rfl
  have hopen : trimmed (separator :: name.toList) = separator :: name.toList := by
    cases hname : name.toList with
    | nil => rfl
    | cons c rest =>
      apply trimmed_of_getLast?_ne
      rwa [List.getLast?_cons_cons, ← hname]
  have hclosed : trimmed (separator :: (name.toList ++ [separator])) =
      separator :: name.toList :=
    trimmed_concat (List.cons_ne_nil separator name.toList)
  simp only [spellings, List.mem_cons, List.not_mem_nil, or_false] at h
  rcases h with rfl | rfl | rfl | rfl
  · rw [rooted_of_head?_ne hhead, hopen, String.toList_append, hglobal, List.singleton_append]
  · rw [String.toList_append, hglobal, List.singleton_append, rooted_of_head? rfl, hopen]
  · rw [String.toList_append, String.toList_append, hglobal, List.singleton_append]
    by_cases hname : name.toList = []
    · rw [hname]
      rfl
    · rw [rooted_of_head?_ne, hclosed]
      rwa [List.head?_append_of_ne_nil _ hname]
  · rw [String.toList_append, String.toList_append, hglobal, List.singleton_append,
      rooted_of_head? rfl]
    exact hclosed

end SymbolAtlas.Qualified
