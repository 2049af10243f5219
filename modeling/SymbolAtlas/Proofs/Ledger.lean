import Mathlib
import SymbolAtlas.Ledger

/-!
# Ledgers with distinct names

In a ledger whose names are distinct, an entered name splits off its one entry, up to order
(`Ledger.perm_of_get?`), and entering a name puts one entry in the place of what was entered under
it (`Ledger.set_perm`).
-/

namespace SymbolAtlas

/-! ## Lists side by side -/

section Forall₂

variable {α β γ : Type} {R : α → β → Prop} {xs : List α} {ys : List β}

theorem forall₂_imp_of_mem {S : α → β → Prop} (h : List.Forall₂ R xs ys)
    (himp : ∀ x ∈ xs, ∀ y ∈ ys, R x y → S x y) : List.Forall₂ S xs ys := by
  refine List.forall₂_iff_zip.2 ⟨h.length_eq, fun {x y} hxy => ?_⟩
  obtain ⟨hx, hy⟩ := List.of_mem_zip hxy
  exact himp x hx y hy (List.forall₂_zip h hxy)

theorem forall₂_trans {S : β → γ → Prop} {T : α → γ → Prop} {zs : List γ}
    (hT : ∀ x y z, R x y → S y z → T x z) (h : List.Forall₂ R xs ys) (h' : List.Forall₂ S ys zs) :
    List.Forall₂ T xs zs := by
  induction h generalizing zs with
  | nil =>
    cases h'
    exact .nil
  | cons hxy _ ih =>
    cases h' with
    | cons hyz hrest => exact .cons (hT _ _ _ hxy hyz) (ih hrest)

theorem forall₂_mem_right (h : List.Forall₂ R xs ys) {y : β} (hy : y ∈ ys) :
    ∃ x ∈ xs, R x y := by
  induction h with
  | nil => cases hy
  | cons hxy _ ih =>
    rcases List.mem_cons.1 hy with rfl | hy
    · exact ⟨_, List.mem_cons_self, hxy⟩
    · obtain ⟨x, hx, hR⟩ := ih hy
      exact ⟨x, List.mem_cons_of_mem _ hx, hR⟩

/-- Tables side by side with the same names have the same names. -/
theorem keys_eq_of_forall₂ {P : String × α → String × β → Prop} {t : Ledger α} {t' : Ledger β}
    (h : List.Forall₂ (fun x y => y.1 = x.1 ∧ P x y) t t') : t'.keys = t.keys := by
  induction h with
  | nil => rfl
  | cons hxy _ ih => exact congrArg₂ List.cons hxy.1 ih

end Forall₂

namespace Ledger

variable {α β : Type} {t : Ledger α} {key other : String} {value new : α}

theorem mem_keys_iff : key ∈ t.keys ↔ ∃ v, t.get? key = some v := by
  induction t with
  | nil => simp [keys]
  | cons entry rest ih =>
    obtain ⟨k, v⟩ := entry
    by_cases h : k = key
    · simp [keys, get?_cons, h]
    · simp only [keys, List.map_cons, List.mem_cons, get?_cons, h, ↓reduceIte]
      rw [← ih]
      simp [keys, Ne.symm h]

theorem get?_eq_none_iff : t.get? key = none ↔ key ∉ t.keys := by
  rw [mem_keys_iff]
  cases t.get? key <;> simp

theorem mem_of_get? (h : t.get? key = some value) : (key, value) ∈ t := by
  induction t with
  | nil => cases h
  | cons entry rest ih =>
    obtain ⟨k, v⟩ := entry
    rw [get?_cons] at h
    split at h
    · rename_i hk
      cases h
      rw [hk]
      exact List.mem_cons_self
    · exact List.mem_cons_of_mem _ (ih h)

theorem get?_of_mem (hd : t.keys.Nodup) (h : (key, value) ∈ t) : t.get? key = some value := by
  induction t with
  | nil => cases h
  | cons entry rest ih =>
    obtain ⟨k, v⟩ := entry
    rw [keys, List.map_cons, List.nodup_cons] at hd
    rw [get?_cons]
    rcases List.mem_cons.1 h with heq | hmem
    · cases heq
      rw [if_pos rfl]
    · have hk : k ≠ key := by
        rintro rfl
        exact hd.1 (List.mem_map.2 ⟨(k, value), hmem, rfl⟩)
      rw [if_neg hk]
      exact ih hd.2 hmem

theorem erase_of_get?_eq_none (h : t.get? key = none) : t.erase key = t := by
  rw [erase, List.filter_eq_self]
  intro entry hentry
  have hne : entry.1 ≠ key := by
    rintro rfl
    exact get?_eq_none_iff.1 h (List.mem_map.2 ⟨entry, hentry, rfl⟩)
  simpa using hne

theorem erase_cons_self (k : String) (v : α) (rest : Ledger α) :
    erase ((k, v) :: rest) k = rest.erase k := by
  simp [erase]

theorem erase_cons_of_ne {k : String} (hk : k ≠ key) (v : α) (rest : Ledger α) :
    erase ((k, v) :: rest) key = (k, v) :: rest.erase key := by
  simp [erase, hk]

theorem nodup_keys_erase (hd : t.keys.Nodup) (key : String) : (t.erase key).keys.Nodup :=
  hd.sublist (List.filter_sublist.map _)

/-- An entered name has one entry. -/
theorem perm_of_get? (hd : t.keys.Nodup) (h : t.get? key = some value) :
    t.Perm ((key, value) :: t.erase key) := by
  induction t with
  | nil => cases h
  | cons entry rest ih =>
    obtain ⟨k, v⟩ := entry
    rw [keys, List.map_cons, List.nodup_cons] at hd
    rw [get?_cons] at h
    split at h
    · rename_i hk
      subst hk
      cases h
      have hrest : get? rest k = none := get?_eq_none_iff.2 hd.1
      rw [erase_cons_self, erase_of_get?_eq_none hrest]
    · rename_i hk
      rw [erase_cons_of_ne hk]
      exact ((ih hd.2 h).cons (k, v)).trans (List.Perm.swap _ _ _)

/-- Entering a name leaves one entry of it, beside the entries of the other names. -/
theorem set_perm (hd : t.keys.Nodup) (key : String) (value : α) :
    (t.set key value).Perm ((key, value) :: t.erase key) := by
  induction t with
  | nil => exact List.Perm.refl _
  | cons entry rest ih =>
    obtain ⟨k, v⟩ := entry
    rw [keys, List.map_cons, List.nodup_cons] at hd
    by_cases hk : k = key
    · subst hk
      have hrest : get? rest k = none := get?_eq_none_iff.2 hd.1
      rw [set, if_pos rfl, erase_cons_self, erase_of_get?_eq_none hrest]
    · rw [set, if_neg hk, erase_cons_of_ne hk]
      exact ((ih hd.2).cons (k, v)).trans (List.Perm.swap _ _ _)

theorem nodup_keys_set (hd : t.keys.Nodup) (key : String) (value : α) :
    (t.set key value).keys.Nodup := by
  have hperm : (t.set key value).keys.Perm (key :: (t.erase key).keys) :=
    (set_perm hd key value).map _
  rw [hperm.nodup_iff, List.nodup_cons]
  refine ⟨?_, nodup_keys_erase hd key⟩
  rw [← get?_eq_none_iff]
  exact get?_erase_self t key

/-- An entry after entering a value is the new one or was there before. -/
theorem mem_of_mem_set (h : (other, value) ∈ t.set key new) :
    (other, value) ∈ t ∨ (other = key ∧ value = new) := by
  induction t with
  | nil =>
    cases List.mem_singleton.1 h
    exact Or.inr ⟨rfl, rfl⟩
  | cons entry rest ih =>
    obtain ⟨k, v⟩ := entry
    rw [set] at h
    split at h
    · rename_i hk
      rcases List.mem_cons.1 h with heq | hmem
      · cases heq
        exact Or.inr ⟨hk, rfl⟩
      · exact Or.inl (List.mem_cons_of_mem _ hmem)
    · rcases List.mem_cons.1 h with heq | hmem
      · cases heq
        exact Or.inl List.mem_cons_self
      · rcases ih hmem with hold | hnew
        · exact Or.inl (List.mem_cons_of_mem _ hold)
        · exact Or.inr hnew

/-- A new name is entered at the end. -/
theorem set_of_get?_eq_none (h : t.get? key = none) (value : α) :
    t.set key value = t ++ [(key, value)] := by
  induction t with
  | nil => rfl
  | cons entry rest ih =>
    obtain ⟨k, v⟩ := entry
    rw [get?_cons] at h
    split at h
    · cases h
    · rename_i hk
      rw [set, if_neg hk, ih h]
      rfl

theorem keys_set (t : Ledger α) (key : String) (value : α) :
    (t.set key value).keys = if key ∈ t.keys then t.keys else t.keys ++ [key] := by
  split
  · rename_i h
    induction t with
    | nil => cases h
    | cons entry rest ih =>
      obtain ⟨k, v⟩ := entry
      rw [set]
      split
      · rfl
      · rename_i hk
        rw [keys, List.map_cons, List.mem_cons] at h
        exact congrArg (k :: ·) (ih (h.resolve_left (Ne.symm hk)))
  · rename_i h
    rw [set_of_get?_eq_none (get?_eq_none_iff.2 h), keys, List.map_append]
    rfl

/-- Entering what is there already changes nothing. -/
theorem set_of_get? (h : t.get? key = some value) : t.set key value = t := by
  induction t with
  | nil => cases h
  | cons entry rest ih =>
    obtain ⟨k, v⟩ := entry
    rw [get?_cons] at h
    split at h
    · rename_i hk
      cases h
      rw [set, if_pos hk]
    · rename_i hk
      rw [set, if_neg hk, ih h]

theorem get?_set (t : Ledger α) (key other : String) (value : α) :
    (t.set key value).get? other = if other = key then some value else t.get? other := by
  split
  · rename_i h
    rw [h, get?_set_self]
  · rename_i h
    exact get?_set_of_ne t value h

theorem get?_erase (t : Ledger α) (key other : String) :
    (t.erase key).get? other = if other = key then none else t.get? other := by
  split
  · rename_i h
    rw [h, get?_erase_self]
  · rename_i h
    exact get?_erase_of_ne t h

end Ledger

end SymbolAtlas
