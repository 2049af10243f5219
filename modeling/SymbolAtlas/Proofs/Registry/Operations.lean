import Mathlib
import SymbolAtlas.Proofs.Registry.Coherence
import SymbolAtlas.Proofs.SourceFile.Linking

/-!
# Operations keep a registry coherent

One lemma for each operation of a registry: starting, failing and finishing a load, removing and
renaming a name, clearing, and replacing everything by given files.  Each says which files are held
afterwards, up to order, and leaves the count to `Booked.amend`, `Booked.release` and
`Booked.acquire`.
-/

namespace SymbolAtlas

namespace Registry

variable {r : Registry}

/-! ## What is held after a change of one entry -/

section Held

variable {name : String} {n : Nat}

theorem loadedOf_erase_of_loaded {t : Ledger Entry} (hd : t.keys.Nodup)
    (h : t.get? name = some (.loaded n)) : (loadedOf t).Perm (n :: loadedOf (t.erase name)) :=
  loadedOf_perm (Ledger.perm_of_get? hd h)

theorem loadedOf_erase_of_not_loaded {t : Ledger Entry} (hd : t.keys.Nodup)
    (h : ∀ m, t.get? name ≠ some (.loaded m)) : (loadedOf t).Perm (loadedOf (t.erase name)) := by
  cases hentry : t.get? name with
  | none => rw [Ledger.erase_of_get?_eq_none hentry]
  | some entry =>
    cases entry with
    | loaded m => exact absurd hentry (h m)
    | loading l =>
      have hperm := loadedOf_perm (Ledger.perm_of_get? hd hentry)
      rwa [loadedOf_cons_loading] at hperm

theorem loadedOf_set_loaded {t : Ledger Entry} (hd : t.keys.Nodup) (name : String) (n : Nat) :
    (loadedOf (t.set name (.loaded n))).Perm (n :: loadedOf (t.erase name)) :=
  loadedOf_perm (Ledger.set_perm hd name _)

theorem loadedOf_set_loading {t : Ledger Entry} (hd : t.keys.Nodup) (name : String) (l : Nat) :
    (loadedOf (t.set name (.loading l))).Perm (loadedOf (t.erase name)) := by
  have hperm := loadedOf_perm (Ledger.set_perm hd name (.loading l))
  rwa [loadedOf_cons_loading] at hperm

theorem values_erase {t : Ledger Nat} (hd : t.keys.Nodup) (h : t.get? name = some n) :
    t.values.Perm (n :: (t.erase name).values) :=
  (Ledger.perm_of_get? hd h).map _

theorem values_set {t : Ledger Nat} (hd : t.keys.Nodup) (h : t.get? name = none) (n : Nat) :
    (t.set name n).values.Perm (n :: t.values) := by
  have hperm := (Ledger.set_perm hd name n).map Prod.snd
  rwa [Ledger.erase_of_get?_eq_none h] at hperm

end Held

/-! ## Changes that hold the same files -/

/-- Entries may come and go as long as the same files are held. -/
theorem Booked.rearrange {r' : Registry} (h : Booked r) (he : r'.entries.keys.Nodup)
    (hr : r'.replaced.keys.Nodup) (hperm : r'.held.Perm r.held)
    (hfiles : ∀ n ∈ r.held, r'.files[n]? = r.files[n]?)
    (hsub : ∀ {k n}, r'.entries.get? k = some (.loaded n) → r.entries.get? k = some (.loaded n))
    (hl : r'.tally.loaded = r.tally.loaded) (hs : r'.tally.symbols = r.tally.symbols)
    (hz : r'.tally.size = r.tally.size) : Booked r' := by
  refine h.amend he hr hperm (g := fun _ f => f) (fun n hn => by rw [hfiles n hn, Option.map_id'])
    (fun _ _ => rfl) (fun _ _ => rfl) ?_ (h.counts.congr hl hs hz)
  intro k n hk
  rw [hfiles n (mem_held_of_entry (hsub hk))]
  exact h.named (hsub hk)

/-- What is booked depends neither on failures and loads nor on the rest of the tally. -/
theorem Booked.congr {r' : Registry} (h : Booked r) (he : r'.entries = r.entries)
    (hr : r'.replaced = r.replaced) (hf : r'.files = r.files)
    (hl : r'.tally.loaded = r.tally.loaded) (hs : r'.tally.symbols = r.tally.symbols)
    (hz : r'.tally.size = r.tally.size) : Booked r' := by
  have hheld : r'.held = r.held := by
    rw [held, held, loaded_eq, loaded_eq, he, hr]
  exact h.rearrange (he ▸ h.entries_distinct) (hr ▸ h.replaced_distinct) (by rw [hheld])
    (fun _ _ => by rw [hf]) (fun hk => he ▸ hk) hl hs hz

theorem Coherent.congr {r' : Registry} (h : Coherent r) (he : r'.entries = r.entries)
    (hr : r'.replaced = r.replaced) (hf : r'.files = r.files)
    (hl : r'.tally.loaded = r.tally.loaded) (hs : r'.tally.symbols = r.tally.symbols)
    (hz : r'.tally.size = r.tally.size) : Coherent r' where
  toBooked := h.toBooked.congr he hr hf hl hs hz
  awaited := by
    intro k n hk
    rw [hr] at hk
    rw [he]
    exact h.awaited hk

theorem Coherent.begin (h : Coherent r) : Coherent r.begin :=
  h.congr rfl rfl rfl rfl rfl rfl

theorem Coherent.endWork (h : Coherent r) : Coherent r.endWork :=
  h.congr rfl rfl rfl rfl rfl rfl

theorem Coherent.abandon (h : Coherent r) (load : Nat) (crash : Crash) :
    Coherent (r.abandon load crash) :=
  h.congr rfl rfl rfl rfl rfl rfl

theorem Coherent.empty (site : Site) : Coherent { toSite := site } where
  entries_distinct := List.nodup_nil
  replaced_distinct := List.nodup_nil
  named := fun hk => by cases hk
  known := fun hn => by cases hn
  exclusive := List.nodup_nil
  counts := .nil
  awaited := fun hk => by cases hk

/-- A replacement waits only under names that hold no file. -/
theorem Coherent.replaced_eq_none (h : Coherent r) {name : String}
    (hname : ∀ load, r.entries.get? name ≠ some (.loading load)) : r.replaced.get? name = none := by
  cases hn : r.replaced.get? name with
  | none => rfl
  | some n =>
    obtain ⟨load, hload⟩ := h.awaited hn
    exact absurd hload (hname load)

/-- After a change of one entry the others still await what they awaited. -/
theorem Coherent.of_booked {r' : Registry} (h : Coherent r) (hb : Booked r') (name : String)
    (he : ∀ k, k ≠ name → r'.entries.get? k = r.entries.get? k)
    (hr : r'.replaced = r.replaced.erase name) : Coherent r' where
  toBooked := hb
  awaited := by
    intro k n hk
    rw [hr, Ledger.get?_erase] at hk
    split at hk
    · cases hk
    · rename_i hne
      rw [he k hne]
      exact h.awaited hk

/-! ## Loads -/

/-- The entry of a name agrees with the file that a load is to replace. -/
def Precedes (r : Registry) (name : String) (previous : Option Nat) : Prop :=
  r.entries.get? name = previous.map .loaded

theorem Coherent.start (h : Coherent r) {name : String} {previous : Option Nat}
    (hprev : r.Precedes name previous) : Coherent (r.start name previous).1 := by
  have hd := h.entries_distinct
  have hd' := Ledger.nodup_keys_set hd name (.loading r.loads)
  have hsub : ∀ {k n}, (r.entries.set name (.loading r.loads)).get? k = some (.loaded n) →
      r.entries.get? k = some (.loaded n) := by
    intro k n hk
    rw [Ledger.get?_set] at hk
    split at hk
    · cases hk
    · exact hk
  have hfree : r.replaced.get? name = none := by
    refine h.replaced_eq_none fun load hload => ?_
    rw [Precedes, hload] at hprev
    cases previous <;> cases hprev
  have hload := loadedOf_set_loading hd name r.loads
  cases previous with
  | none =>
    have hheld : (r.start name none).1.held.Perm r.held := by
      refine List.Perm.append ?_ (List.Perm.refl _)
      rw [loaded_eq, loaded_eq]
      rwa [Ledger.erase_of_get?_eq_none hprev] at hload
    refine h.of_booked (h.rearrange hd' h.replaced_distinct hheld (fun _ _ => rfl) hsub rfl rfl rfl)
      name ?_ ?_
    · intro k hk
      exact Ledger.get?_set_of_ne _ _ hk
    · exact (Ledger.erase_of_get?_eq_none hfree).symm
  | some n =>
    -- the file moves from the indexed to the replaced ones
    have hheld : (r.start name (some n)).1.held.Perm r.held := by
      have hvalues := values_set h.replaced_distinct hfree n
      have hloaded := loadedOf_erase_of_loaded hd hprev
      rw [held, held, loaded_eq, loaded_eq]
      exact (hload.append hvalues).trans
        (List.perm_middle.trans (hloaded.symm.append_right r.replaced.values))
    refine ⟨h.rearrange hd' (Ledger.nodup_keys_set h.replaced_distinct name n) hheld
      (fun _ _ => rfl) hsub rfl rfl rfl, ?_⟩
    intro k m hk
    have hk' : (r.replaced.set name n).get? k = some m := hk
    have hentry : (r.start name (some n)).1.entries.get? k =
        if k = name then some (.loading r.loads) else r.entries.get? k :=
      Ledger.get?_set r.entries name k _
    rw [Ledger.get?_set] at hk'
    rw [hentry]
    split at hk'
    · rename_i heq
      exact ⟨r.loads, if_pos heq⟩
    · rename_i hne
      rw [if_neg hne]
      exact h.awaited hk'

/-! ### Files that are replaced -/

@[simp] theorem entries_forget (r : Registry) (n : Nat) : (r.forget n).entries = r.entries := by
  unfold forget
  split <;> rfl

@[simp] theorem replaced_forget (r : Registry) (n : Nat) : (r.forget n).replaced = r.replaced := by
  unfold forget
  split <;> rfl

@[simp] theorem entries_forgetReplaced (r : Registry) (name : String) :
    (r.forgetReplaced name).entries = r.entries := by
  unfold forgetReplaced
  split
  · rw [entries_forget]
  · rfl

@[simp] theorem replaced_forgetReplaced (r : Registry) (name : String) :
    (r.forgetReplaced name).replaced = r.replaced.erase name := by
  unfold forgetReplaced
  split
  · rw [replaced_forget]
  · rename_i hn
    exact (Ledger.erase_of_get?_eq_none hn).symm

theorem entries_remove (r : Registry) (name : String) :
    (r.remove name).entries = r.entries.erase name := by
  unfold remove
  simp only
  split
  · rw [entries_forget]
  · rw [entries_forgetReplaced]
  · rfl

theorem forget_eq {n : Nat} {f : SourceFile} (h : r.files[n]? = some f) :
    r.forget n = { r.modifyFile n SourceFile.detach with tally := r.tally.uncount f } := by
  rw [forget, h]

theorem Booked.forgetReplaced (h : Booked r) (name : String) : Booked (r.forgetReplaced name) := by
  cases hn : r.replaced.get? name with
  | none =>
    have heq : r.forgetReplaced name = r := by
      rw [Registry.forgetReplaced, hn]
    rwa [heq]
  | some n =>
    obtain ⟨f, hf⟩ := h.file_of_held (mem_held_of_replaced hn)
    have heq : r.forgetReplaced name =
        { r.modifyFile n SourceFile.detach with
          replaced := r.replaced.erase name, tally := r.tally.uncount f } := by
      rw [Registry.forgetReplaced, hn]
      exact forget_eq hf
    have hperm : r.held.Perm (n :: (r.loaded ++ (r.replaced.erase name).values)) :=
      ((values_erase h.replaced_distinct hn).append_left r.loaded).trans List.perm_middle
    rw [heq]
    exact h.release h.entries_distinct (Ledger.nodup_keys_erase h.replaced_distinct name) hf
      (fun hk => hk) hperm rfl rfl

/-- An entry that holds no file can go. -/
theorem Booked.dropEntry (h : Booked r) {name : String}
    (hname : ∀ m, r.entries.get? name ≠ some (.loaded m)) :
    Booked { r with entries := r.entries.erase name } := by
  have hperm := loadedOf_erase_of_not_loaded h.entries_distinct hname
  refine h.rearrange (Ledger.nodup_keys_erase h.entries_distinct name) h.replaced_distinct ?_
    (fun _ _ => rfl) ?_ rfl rfl rfl
  · rw [held, held, loaded_eq, loaded_eq]
    exact hperm.symm.append_right _
  · intro k n hk
    have hk' : (r.entries.erase name).get? k = some (.loaded n) := hk
    rw [Ledger.get?_erase] at hk'
    split at hk'
    · cases hk'
    · exact hk'

theorem Coherent.fail (h : Coherent r) (name : String) (load : Nat) (failure : Failure) :
    Coherent (r.fail name load failure) := by
  unfold Registry.fail
  split
  · rename_i hawaits
    have hentry : r.entries.get? name = some (.loading load) := of_decide_eq_true hawaits
    have hdrop : Booked { r with
        entries := r.entries.erase name
        failures := r.failures.set name failure
        tally := { r.tally with error := r.tally.error + 1 } } :=
      (h.dropEntry (by simp [hentry])).congr rfl rfl rfl rfl rfl rfl
    refine (h.of_booked (hdrop.forgetReplaced name) name ?_ ?_).endWork
    · intro k hk
      rw [entries_forgetReplaced]
      exact Ledger.get?_erase_of_ne _ hk
    · rw [replaced_forgetReplaced]
  · exact h.endWork

/-- A new file is indexed under a name that held none. -/
theorem Booked.addLoaded (h : Booked r) {name : String} {f : SourceFile} (hf : f.IsEntered name)
    (hname : ∀ m, r.entries.get? name ≠ some (.loaded m)) :
    Booked { r with
      files := r.files.push f
      entries := r.entries.set name (.loaded r.files.size)
      tally := r.tally.count f } := by
  have hperm := (loadedOf_set_loaded h.entries_distinct name r.files.size).trans
    ((loadedOf_erase_of_not_loaded h.entries_distinct hname).symm.cons r.files.size)
  refine h.acquire (Ledger.nodup_keys_set h.entries_distinct name _) h.replaced_distinct hf
    ?_ ?_ rfl (h.counts.count f)
  · intro k m hk
    have hk' : (r.entries.set name (.loaded r.files.size)).get? k = some (.loaded m) := hk
    rw [Ledger.get?_set] at hk'
    split at hk'
    · rename_i heq
      cases hk'
      exact Or.inr ⟨heq, rfl⟩
    · exact Or.inl hk'
  · rw [held, held, loaded_eq, loaded_eq]
    exact hperm.append_right r.replaced.values

/-- It makes no difference whether a file is counted before or after another one is forgotten. -/
theorem count_forgetReplaced (r : Registry) (name : String) (f : SourceFile) :
    { r.forgetReplaced name with tally := (r.forgetReplaced name).tally.count f } =
      { r with tally := r.tally.count f }.forgetReplaced name := by
  unfold forgetReplaced forget
  cases r.replaced.get? name with
  | none => rfl
  | some n =>
    simp only
    cases r.files[n]? with
    | none => rfl
    | some g =>
      simp only [modifyFile, Tally.count, Tally.uncount, mk.injEq, Tally.mk.injEq, true_and,
        and_true]
      omega

theorem Coherent.succeed (h : Coherent r) {name : String} {f : SourceFile} (hf : f.IsEntered name)
    (load : Nat) : Coherent (r.succeed name load f).1 := by
  by_cases hawaits : r.endWork.awaits name load = true
  · have hentry : r.entries.get? name = some (.loading load) := of_decide_eq_true hawaits
    have hadd := h.endWork.toBooked.addLoaded hf (by simp [hentry])
    have hdone : Booked { r.endWork with
        files := r.files.push f
        entries := r.entries.set name (.loaded r.files.size)
        failures := r.failures.erase name
        tally := r.endWork.tally.count f } := hadd.congr rfl rfl rfl rfl rfl rfl
    simp only [Registry.succeed, if_pos hawaits, addFile]
    rw [count_forgetReplaced]
    refine h.of_booked (hdone.forgetReplaced name) name ?_ ?_
    · intro k hk
      rw [entries_forgetReplaced]
      exact Ledger.get?_set_of_ne _ _ hk
    · rw [replaced_forgetReplaced]
      rfl
  · simp only [Registry.succeed, if_neg hawaits]
    refine ⟨h.endWork.rearrange h.entries_distinct h.replaced_distinct (List.Perm.refl _) ?_
      (fun hk => hk) rfl rfl rfl, h.awaited⟩
    intro n hn
    have hlt := h.lt_size_of_held hn
    exact (Array.getElem?_push_lt hlt).trans (Array.getElem?_eq_getElem hlt).symm

/-! ## Maintenance -/

theorem Coherent.remove (h : Coherent r) (name : String) : Coherent (r.remove name) := by
  have hne : ∀ k, k ≠ name → (r.entries.erase name).get? k = r.entries.get? k :=
    fun k hk => Ledger.get?_erase_of_ne _ hk
  unfold Registry.remove
  cases hentry : r.entries.get? name with
  | none =>
    have hdrop : Booked { r with
        entries := r.entries.erase name, failures := r.failures.erase name } :=
      (h.dropEntry (by simp [hentry])).congr rfl rfl rfl rfl rfl rfl
    exact h.of_booked hdrop name hne
      (Ledger.erase_of_get?_eq_none (h.replaced_eq_none (by simp [hentry]))).symm
  | some entry =>
    cases entry with
    | loading load =>
      have hdrop : Booked { r with
          entries := r.entries.erase name, failures := r.failures.erase name } :=
        (h.dropEntry (by simp [hentry])).congr rfl rfl rfl rfl rfl rfl
      refine h.of_booked (hdrop.forgetReplaced name) name ?_ ?_
      · intro k hk
        rw [entries_forgetReplaced]
        exact hne k hk
      · rw [replaced_forgetReplaced]
    | loaded n =>
      obtain ⟨f, hf, -⟩ := h.named hentry
      have hperm : r.held.Perm (n :: (loadedOf (r.entries.erase name) ++ r.replaced.values)) := by
        rw [held, loaded_eq]
        exact (loadedOf_erase_of_loaded h.entries_distinct hentry).append_right r.replaced.values
      simp only
      rw [forget_eq (r := { r with
        entries := r.entries.erase name, failures := r.failures.erase name }) hf]
      refine h.of_booked (h.release (Ledger.nodup_keys_erase h.entries_distinct name)
        h.replaced_distinct hf ?_ ?_ rfl rfl) name hne
        (Ledger.erase_of_get?_eq_none (h.replaced_eq_none (by simp [hentry]))).symm
      · intro k m hk
        have hk' : (r.entries.erase name).get? k = some (.loaded m) := hk
        rw [Ledger.get?_erase] at hk'
        split at hk'
        · cases hk'
        · exact hk'
      · rw [held, loaded_eq] at hperm ⊢
        rw [held, loaded_eq]
        exact hperm

end Registry

namespace SourceFile

@[simp] theorem symbolCount_rename (f : SourceFile) (name : String) :
    (f.rename name).symbolCount = f.symbolCount := by
  simp only [symbolCount, rename, Outline.size, Outline.modify, Array.size_modify]

theorem IsEntered.rename {f : SourceFile} {old : String} (h : f.IsEntered old) (new : String) :
    (f.rename new).IsEntered new := by
  refine ⟨?_, h.detached, ?_⟩
  · have hsome : ∃ e, f.outline.entities[0]? = some e := ⟨_, Array.getElem?_eq_getElem h.nonempty⟩
    obtain ⟨e, he⟩ := hsome
    simp [name, SourceFile.rename, Outline.fileName, Outline.get?, Outline.modify,
      Array.getElem?_modify, he]
  · simpa [SourceFile.rename, Outline.size, Outline.modify] using h.nonempty

theorem IsEntered.upToLinks {f g : SourceFile} {name : String} (h : f.IsEntered name)
    (hg : UpToLinks f g) : g.IsEntered name where
  name_eq := hg.name_eq.trans h.name_eq
  detached := hg.detached.trans h.detached
  nonempty := by
    rw [hg.size_outline]
    exact h.nonempty

end SourceFile

namespace Registry

variable {r : Registry}

/-- The registry whose file of one name stands under another one. -/
def renamed (r : Registry) (old new : String) (n : Nat) : Registry :=
  { r.modifyFile n (SourceFile.rename · new) with
    entries := (r.entries.erase old).set new (.loaded n) }

/-- A renaming that is carried out gives an indexed file a name that stands for nothing. -/
theorem rename_eq_ok {old new : String} {r' : Registry} (h : r.rename old new = .ok r') :
    ∃ n, r.entries.get? old = some (.loaded n) ∧ r.entries.get? new = none ∧
      r' = r.renamed old new n := by
  unfold Registry.rename at h
  split at h
  · cases h
  · cases h
  · rename_i n hentry
    split at h
    · cases h
    · rename_i hnew
      cases h
      exact ⟨n, hentry, by simpa [Ledger.contains] using hnew, rfl⟩

section Renamed

variable {old new : String} {n : Nat}

theorem get?_renamed (k : String) : (r.renamed old new n).entries.get? k =
    if k = new then some (.loaded n) else if k = old then none else r.entries.get? k := by
  rw [renamed, Ledger.get?_set, Ledger.get?_erase]

theorem files_renamed (m : Nat) : (r.renamed old new n).files[m]? =
    r.files[m]?.map fun f => if n = m then f.rename new else f := by
  rw [renamed, modifyFile, Array.getElem?_modify]
  split
  · rfl
  · rw [Option.map_id']

theorem size_renamed : (r.renamed old new n).files.size = r.files.size :=
  Array.size_modify

variable (hentry : r.entries.get? old = some (.loaded n)) (hfree : r.entries.get? new = none)

include hentry

include hfree in
/-- The loads under way stay. -/
theorem loading_renamed {k : String} {l : Nat} :
    (r.renamed old new n).entries.get? k = some (.loading l) ↔
      r.entries.get? k = some (.loading l) := by
  rw [get?_renamed]
  split
  · rename_i hknew
    simp [hknew, hfree]
  · split
    · rename_i hkold
      simp [hkold, hentry]
    · rfl

/-- Files bear their names afterwards if they did so before.  The file that was renamed stands under
no other name, so what the others bear stays. -/
theorem named_renamed {Bears : SourceFile → String → Prop}
    (hnamed : ∀ {k m}, r.entries.get? k = some (.loaded m) → ∃ f, r.files[m]? = some f ∧ Bears f k)
    (hunique : ∀ {k}, r.entries.get? k = some (.loaded n) → k = old)
    (hrename : ∀ {f}, Bears f old → Bears (f.rename new) new) {k : String} {m : Nat}
    (hk : (r.renamed old new n).entries.get? k = some (.loaded m)) :
    ∃ f, (r.renamed old new n).files[m]? = some f ∧ Bears f k := by
  rw [get?_renamed] at hk
  split at hk
  · rename_i hknew
    cases hk
    obtain ⟨f, hf, hold⟩ := hnamed hentry
    refine ⟨f.rename new, ?_, hknew ▸ hrename hold⟩
    rw [files_renamed, hf, Option.map_some, if_pos rfl]
  · split at hk
    · cases hk
    · rename_i hkold
      obtain ⟨g, hg, hgk⟩ := hnamed hk
      have hne : n ≠ m := by
        rintro rfl
        exact hkold (hunique hk)
      refine ⟨g, ?_, hgk⟩
      rw [files_renamed, hg, Option.map_some, if_neg hne]

end Renamed

theorem Coherent.rename (h : Coherent r) {old new : String} {r' : Registry}
    (hok : r.rename old new = .ok r') : Coherent r' := by
  obtain ⟨n, hentry, hfree, rfl⟩ := rename_eq_ok hok
  have hd := Ledger.nodup_keys_erase h.entries_distinct old
  have hheld : (r.renamed old new n).held.Perm r.held := by
    have hfree' : (r.entries.erase old).get? new = none := by
      rw [Ledger.get?_erase, hfree, ite_self]
    have hset := loadedOf_set_loaded hd new n
    rw [Ledger.erase_of_get?_eq_none hfree'] at hset
    rw [held, held, loaded_eq, loaded_eq]
    exact (hset.trans (loadedOf_erase_of_loaded h.entries_distinct hentry).symm).append_right _
  refine ⟨h.amend (Ledger.nodup_keys_set hd new _) h.replaced_distinct hheld
    (fun m _ => files_renamed m) ?_ ?_ ?_ h.counts, ?_⟩
  · intro m f
    split
    · exact f.symbolCount_rename new
    · rfl
  · intro m f
    split <;> rfl
  · exact named_renamed hentry h.named (h.name_unique hentry) fun hf => hf.rename new
  · intro k m hk
    obtain ⟨load, hload⟩ := h.awaited hk
    exact ⟨load, (loading_renamed hentry hfree).2 hload⟩

theorem Coherent.clear (r : Registry) : Coherent r.clear where
  entries_distinct := List.nodup_nil
  replaced_distinct := List.nodup_nil
  named := fun hk => by cases hk
  known := fun hn => by cases hn
  exclusive := List.nodup_nil
  counts := ⟨rfl, rfl, rfl⟩
  awaited := fun hk => by cases hk

/-- Taking everything out empties the files one after the other, and then the books. -/
theorem clear_keeps {P : Registry → Prop} {r : Registry} (h : P r)
    (hdetach : ∀ s n, P s → P (s.modifyFile n SourceFile.detach))
    (hempty : ∀ s tally, P s →
      P { s with entries := [], replaced := [], failures := [], tally := tally }) : P r.clear :=
  hempty _ _ (List.foldlRecOn _ _ h fun s hs n _ => hdetach s n hs)

/-- Replacing everything takes everything out and enters the files one after the other. -/
theorem replaceAll_keeps {P : Registry → Prop} {r : Registry} {directory : Path}
    {files : Ledger SourceFile} (hclear : P { r.clear with directory := directory })
    (henter : ∀ s, ∀ entry ∈ files, P s → P (s.enter entry.1 entry.2)) :
    P (r.replaceAll directory files) :=
  List.foldlRecOn files _ hclear fun s hs entry hentry => henter s entry hentry hs

theorem Coherent.enter (h : Coherent r) {name : String} (hname : r.entries.get? name = none)
    {f : SourceFile} (hd : f.detached = false) (hsize : 0 < f.outline.size) :
    Coherent (r.enter name f) := by
  have hentered : (f.rename name).IsEntered name :=
    SourceFile.IsEntered.rename ⟨rfl, hd, hsize⟩ name
  have hadd := h.addLoaded hentered (by simp [hname])
  refine h.of_booked (hadd.congr rfl rfl rfl rfl rfl rfl) name ?_ ?_
  · intro k hk
    exact Ledger.get?_set_of_ne _ _ hk
  · exact (Ledger.erase_of_get?_eq_none (h.replaced_eq_none (by simp [hname]))).symm

theorem get?_enter (r : Registry) (name : String) (f : SourceFile) (k : String) :
    (r.enter name f).entries.get? k =
      if k = name then some (.loaded r.files.size) else r.entries.get? k :=
  Ledger.get?_set r.entries name k _

theorem files_enter (r : Registry) (name : String) (f : SourceFile) (n : Nat) :
    (r.enter name f).files[n]? = if n = r.files.size then some (f.rename name) else r.files[n]? :=
  Array.getElem?_push

theorem size_enter (r : Registry) (name : String) (f : SourceFile) :
    (r.enter name f).files.size = r.files.size + 1 :=
  Array.size_push _

/-- Entering files under new names, all of them distinct. -/
theorem Coherent.enterAll {files : Ledger SourceFile} (hdistinct : files.keys.Nodup)
    (hfiles : ∀ entry ∈ files, entry.2.detached = false ∧ 0 < entry.2.outline.size)
    (h : Coherent r) (hnew : ∀ k ∈ files.keys, r.entries.get? k = none) :
    Coherent (files.foldl (fun r entry => r.enter entry.1 entry.2) r) := by
  induction files generalizing r with
  | nil => exact h
  | cons entry rest ih =>
    obtain ⟨name, f⟩ := entry
    rw [Ledger.keys, List.map_cons, List.nodup_cons] at hdistinct
    obtain ⟨hf, hrest⟩ := List.forall_mem_cons.1 hfiles
    obtain ⟨hname, hothers⟩ := List.forall_mem_cons.1 hnew
    refine ih hdistinct.2 hrest (h.enter hname hf.1 hf.2) fun k hk => ?_
    have hne : k ≠ name := by
      rintro rfl
      exact hdistinct.1 hk
    rw [get?_enter, if_neg hne]
    exact hothers k hk

theorem Coherent.replaceAll (r : Registry) (directory : Path) {files : Ledger SourceFile}
    (hdistinct : files.keys.Nodup)
    (hfiles : ∀ entry ∈ files, entry.2.detached = false ∧ 0 < entry.2.outline.size) :
    Coherent (r.replaceAll directory files) := by
  refine Coherent.enterAll hdistinct hfiles ?_ fun _ _ => rfl
  exact (Coherent.clear r).congr rfl rfl rfl rfl rfl rfl

/-! ## Linking -/

theorem files_relink (r : Registry) (n m : Nat) :
    (r.relink n).1.files[m]? =
      r.files[m]?.map fun f => if n = m then (f.relink r.resolveCandidate).1 else f := by
  unfold Registry.relink
  split
  · rename_i f hf
    have hmodify : (r.files.modify n fun _ => (f.relink r.resolveCandidate).1)[m]? =
        if n = m then r.files[m]?.map (fun _ => (f.relink r.resolveCandidate).1) else r.files[m]? :=
      Array.getElem?_modify
    refine hmodify.trans ?_
    split
    · rename_i hm
      rw [← hm, hf]
      rfl
    · rw [Option.map_id']
  · rename_i hf
    split
    · rename_i hm
      rw [← hm, hf]
      rfl
    · rw [Option.map_id']

theorem entries_relink (r : Registry) (n : Nat) : (r.relink n).1.entries = r.entries := by
  unfold Registry.relink
  split <;> rfl

theorem replaced_relink (r : Registry) (n : Nat) : (r.relink n).1.replaced = r.replaced := by
  unfold Registry.relink
  split <;> rfl

theorem tally_relink (r : Registry) (n : Nat) : (r.relink n).1.tally = r.tally := by
  unfold Registry.relink
  split <;> rfl

/-- Linking changes nothing that a registry looks at. -/
theorem Coherent.relink (h : Coherent r) (n : Nat) : Coherent (r.relink n).1 := by
  have hheld : (r.relink n).1.held = r.held := by
    rw [held, held, loaded_eq, loaded_eq, entries_relink, replaced_relink]
  refine ⟨h.amend ?_ ?_ (by rw [hheld]) (fun m _ => files_relink r n m) ?_ ?_ ?_ ?_, ?_⟩
  · rw [entries_relink]
    exact h.entries_distinct
  · rw [replaced_relink]
    exact h.replaced_distinct
  · intro m f
    split
    · exact f.upToLinks_relink.symbolCount_eq
    · rfl
  · intro m f
    split
    · exact f.upToLinks_relink.size
    · rfl
  · intro k m hk
    rw [entries_relink] at hk
    obtain ⟨f, hf, hentered⟩ := h.named hk
    refine ⟨_, (files_relink r n m).trans (by rw [hf]; rfl), ?_⟩
    split
    · exact hentered.upToLinks f.upToLinks_relink
    · exact hentered
  · rw [tally_relink]
    exact h.counts
  · intro k m hk
    rw [replaced_relink] at hk
    rw [entries_relink]
    exact h.awaited hk

end Registry

end SymbolAtlas
