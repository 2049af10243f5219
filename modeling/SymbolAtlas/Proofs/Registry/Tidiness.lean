import Mathlib
import SymbolAtlas.Proofs.Registry.Steadiness
import SymbolAtlas.Proofs.Registry.Targets
import SymbolAtlas.Proofs.SourceFile.Numbering

/-!
# What holds of a registry after anything

A refresh that waited for the disk starts its load with the file that it remembers, and by then the
file may be indexed under another name.  Once the load has ended, that name leads to an empty shell,
so neither `Registry.Coherent` nor `Registry.Steady` holds of every registry.  `Registry.Tidy` does:
it asks that names and numbers are those of something, and every operation keeps it.

`Registry.Ages` collects what never goes back: files and loads become more, and a load that is not
awaited any more is never awaited again.
-/

namespace SymbolAtlas

/-- The file bears a name, be it an empty shell or not. -/
structure SourceFile.Bears (f : SourceFile) (name : String) : Prop where
  name_eq : f.name = name
  nonempty : 0 < f.outline.size

namespace SourceFile.Bears

variable {f : SourceFile} {name : String} (h : f.Bears name)

include h

theorem detach : f.detach.Bears name := by
  obtain ⟨e, he⟩ : ∃ e, f.outline.entities[0]? = some e := ⟨_, Array.getElem?_eq_getElem h.nonempty⟩
  refine ⟨?_, ?_⟩
  · have hname := h.name_eq
    simp only [SourceFile.name, Outline.fileName, Outline.get?, he] at hname
    simp only [SourceFile.name, Outline.fileName, Outline.get?, SourceFile.detach,
      Outline.scattered, Array.getElem?_extract, Array.getElem?_map, he]
    have hsize : 0 < min 1 f.outline.entities.size := by
      have := h.nonempty
      simp only [Outline.size] at this
      omega
    have hbody : ∀ change, (e.mapBody change).name = e.name := by
      obtain ⟨detail, name, parent, span, doc⟩ := e
      cases detail <;> exact fun _ => rfl
    simpa [hsize, hbody] using hname
  · have := h.nonempty
    simp only [Outline.size] at this
    simp only [SourceFile.detach, Outline.scattered, Outline.size, Array.size_extract,
      Array.size_map]
    omega

theorem rename (new : String) : (f.rename new).Bears new := by
  obtain ⟨e, he⟩ : ∃ e, f.outline.entities[0]? = some e := ⟨_, Array.getElem?_eq_getElem h.nonempty⟩
  refine ⟨?_, ?_⟩
  · simp [SourceFile.name, SourceFile.rename, Outline.fileName, Outline.get?, Outline.modify,
      Array.getElem?_modify, he]
  · simpa [SourceFile.rename, Outline.size, Outline.modify] using h.nonempty

theorem upToLinks {g : SourceFile} (hg : f.UpToLinks g) : g.Bears name where
  name_eq := hg.name_eq.trans h.name_eq
  nonempty := by
    rw [hg.size_outline]
    exact h.nonempty

end SourceFile.Bears

theorem SourceFile.IsEntered.bears {f : SourceFile} {name : String} (h : f.IsEntered name) :
    f.Bears name :=
  ⟨h.name_eq, h.nonempty⟩

/-- The file mentions no number from a bound on. -/
def SourceFile.LinksBelow (f : SourceFile) (bound : Nat) : Prop :=
  ∀ ρ : Nat → Nat, (∀ n, n < bound → ρ n = n) → f.renumber ρ = f

namespace SourceFile.LinksBelow

variable {f : SourceFile} {bound : Nat} (h : f.LinksBelow bound)

include h

theorem mono {bound' : Nat} (hle : bound ≤ bound') : f.LinksBelow bound' :=
  fun ρ hρ => h ρ fun n hn => hρ n (Nat.lt_of_lt_of_le hn hle)

theorem detach : f.detach.LinksBelow bound := by
  intro ρ hρ
  rw [renumber_detach, h ρ hρ]

theorem rename (name : String) : (f.rename name).LinksBelow bound := by
  intro ρ hρ
  rw [renumber_rename, h ρ hρ]

theorem relink {resolve : Value → Except BadName (Option Nat)}
    (hresolve : ∀ c n, resolve c = .ok (some n) → n < bound) :
    (f.relink resolve).1.LinksBelow bound := by
  intro ρ hρ
  have hsame : ∀ c, resolve c = (resolve c).map (Option.map ρ) := by
    intro c
    cases hc : resolve c with
    | error e => rfl
    | ok hit =>
      cases hit with
      | none => rfl
      | some n => exact congrArg (fun m => Except.ok (some m)) (hρ n (hresolve c n hc)).symm
  have hlinked := congrArg Prod.fst (f.relink_renumber ρ hsame)
  rw [h ρ hρ] at hlinked
  exact hlinked.symm

end SourceFile.LinksBelow

namespace Registry

theorem entry_of_get? {r : Registry} {k : String} {n : Nat} (h : r.get? k = some n) :
    r.entries.get? k = some (.loaded n) := by
  unfold Registry.get? at h
  split at h
  · rename_i m hm
    cases h
    exact hm
  · cases h

/-- Indexed files bear their names, files wait for loads that are under way, every load that is
awaited was started, and no number is mentioned that no file has. -/
structure Tidy (r : Registry) : Prop where
  distinct : r.entries.keys.Nodup
  named : ∀ {k n}, r.entries.get? k = some (.loaded n) → ∃ f, r.files[n]? = some f ∧ f.Bears k
  awaited : ∀ {k n}, r.replaced.get? k = some n → ∃ l, r.entries.get? k = some (.loading l)
  started : ∀ {k l}, r.entries.get? k = some (.loading l) → l < r.loads
  waiting_lt : ∀ entry ∈ r.replaced, entry.2 < r.files.size
  links : ∀ {n : Nat} {f}, r.files[n]? = some f → f.LinksBelow r.files.size

theorem tidy_empty (site : Site) : Tidy { toSite := site } where
  distinct := List.nodup_nil
  named := by
    intro k n hk
    cases hk
  awaited := by
    intro k n hk
    cases hk
  started := by
    intro k l hk
    cases hk
  waiting_lt := by
    intro entry hentry
    cases hentry
  links := by
    intro n f hf
    cases hf

namespace Tidy

variable {r r' : Registry} (h : Tidy r)

include h

theorem congr (he : r'.entries = r.entries) (hr : r'.replaced = r.replaced)
    (hl : r'.loads = r.loads) (hf : r'.files = r.files) : Tidy r' where
  distinct := he ▸ h.distinct
  named := by
    rw [he, hf]
    exact h.named
  awaited := by
    rw [hr, he]
    exact h.awaited
  started := by
    rw [he, hl]
    exact h.started
  waiting_lt := by
    rw [hr, hf]
    exact h.waiting_lt
  links := by
    rw [hf]
    exact h.links

theorem lt_size {k : String} {n : Nat} (hk : r.entries.get? k = some (.loaded n)) :
    n < r.files.size := by
  obtain ⟨f, hf, -⟩ := h.named hk
  exact (Array.getElem?_eq_some_iff.1 hf).1

/-- A file that is not loaded under a name bears another one. -/
theorem name_unique {k k' : String} {n : Nat} (hk : r.entries.get? k = some (.loaded n))
    (hk' : r.entries.get? k' = some (.loaded n)) : k' = k := by
  obtain ⟨f, hf, hfk⟩ := h.named hk
  obtain ⟨g, hg, hgk⟩ := h.named hk'
  rw [hf] at hg
  cases hg
  exact hgk.name_eq.symm.trans hfk.name_eq

theorem modifyFile (n : Nat) {change : SourceFile → SourceFile}
    (hname : ∀ f k, r.files[n]? = some f → f.Bears k → (change f).Bears k)
    (hlinks : ∀ f, f.LinksBelow r.files.size → (change f).LinksBelow r.files.size) :
    Tidy (r.modifyFile n change) := by
  refine { h with named := ?_, waiting_lt := ?_, links := ?_ }
  · intro k m hk
    obtain ⟨f, hf, hfk⟩ := h.named hk
    simp only [Registry.modifyFile, Array.getElem?_modify, hf, Option.map_some]
    split
    · rename_i hm
      exact ⟨_, rfl, hname f k (hm ▸ hf) hfk⟩
    · exact ⟨f, rfl, hfk⟩
  · intro entry hentry
    rw [Registry.modifyFile, Array.size_modify]
    exact h.waiting_lt entry hentry
  · intro m f hf
    rw [Registry.modifyFile, Array.size_modify]
    simp only [Registry.modifyFile, Array.getElem?_modify] at hf
    split at hf
    · obtain ⟨g, hg, rfl⟩ := Option.map_eq_some_iff.1 hf
      exact hlinks g (h.links hg)
    · exact h.links hf

theorem addFile {f : SourceFile} (hf : f.LinksBelow r.files.size) : Tidy (r.addFile f).1 := by
  have hle : r.files.size ≤ (r.files.push f).size := by
    rw [Array.size_push]
    exact Nat.le_succ _
  refine { h with named := ?_, waiting_lt := ?_, links := ?_ }
  · intro k m hk
    obtain ⟨g, hg, hgk⟩ := h.named hk
    have hlt : m < r.files.size := (Array.getElem?_eq_some_iff.1 hg).1
    refine ⟨g, ?_, hgk⟩
    rw [Registry.addFile, Array.getElem?_push_lt hlt, ← hg, Array.getElem?_eq_getElem hlt]
  · exact fun entry hentry => Nat.lt_of_lt_of_le (h.waiting_lt entry hentry) hle
  · intro m g hg
    simp only [Registry.addFile, Array.getElem?_push] at hg
    split at hg
    · cases hg
      exact hf.mono hle
    · exact (h.links hg).mono hle

theorem forget (n : Nat) : Tidy (r.forget n) := by
  unfold Registry.forget
  split
  · exact (h.modifyFile n (fun f k _ hf => hf.detach) fun f hf => hf.detach).congr rfl rfl rfl rfl
  · exact h

omit h in
/-- The file that was to be replaced goes. -/
theorem forgetReplaced {name : String}
    (herased : Tidy { r with replaced := r.replaced.erase name }) :
    Tidy (r.forgetReplaced name) := by
  unfold Registry.forgetReplaced
  split
  · exact herased.forget _
  · rename_i hnone
    exact herased.congr rfl (Ledger.erase_of_get?_eq_none hnone).symm rfl rfl

/-- Nothing waits for a name whose load is not under way. -/
theorem replaced_eq_none {name : String}
    (hname : ∀ l, r.entries.get? name ≠ some (.loading l)) : r.replaced.get? name = none := by
  cases hn : r.replaced.get? name with
  | none => rfl
  | some n =>
    obtain ⟨l, hl⟩ := h.awaited hn
    exact absurd hl (hname l)

theorem relink (n : Nat) : Tidy (r.relink n).1 := by
  have hresolve : ∀ c m, r.resolveCandidate c = .ok (some m) → m < r.files.size := by
    intro c m hm
    obtain ⟨s, k, -, -, hk⟩ := get?_of_resolveCandidate hm
    exact h.lt_size (entry_of_get? hk)
  unfold Registry.relink
  split
  · rename_i f hf
    refine h.modifyFile n (fun g k hg hgk => ?_) fun _ _ => (h.links hf).relink hresolve
    rw [hf] at hg
    cases hg
    exact hgk.upToLinks f.upToLinks_relink
  · exact h

theorem start (name : String) {previous : Option Nat}
    (hprevious : ∀ n, previous = some n → n < r.files.size) :
    Tidy (r.start name previous).1 where
  distinct := by
    rw [entries_start]
    exact Ledger.nodup_keys_set h.distinct name _
  named := by
    intro k n hk
    rw [files_start]
    exact h.named (loaded_of_start hk).2
  awaited := by
    intro k n hk
    rw [get?_start]
    split
    · exact ⟨_, rfl⟩
    · rename_i hne
      cases previous with
      | none => exact h.awaited hk
      | some m =>
        have hset : (r.replaced.set name m).get? k = some n := hk
        rw [Ledger.get?_set_of_ne _ _ hne] at hset
        exact h.awaited hset
  started := by
    intro k l hk
    rw [get?_start] at hk
    rw [loads_start]
    split at hk
    · cases hk
      exact Nat.lt_succ_self _
    · exact Nat.lt_succ_of_lt (h.started hk)
  waiting_lt := by
    intro entry hentry
    rw [files_start]
    cases previous with
    | none => exact h.waiting_lt entry hentry
    | some m =>
      rcases Ledger.mem_of_mem_set hentry with hold | ⟨-, hnew⟩
      · exact h.waiting_lt entry hold
      · rw [hnew]
        exact hprevious m rfl
  links := by
    rw [files_start]
    exact h.links

/-- A name may go together with the file that waits for its replacement. -/
theorem eraseEntry (name : String) :
    Tidy { r with entries := r.entries.erase name, replaced := r.replaced.erase name } where
  distinct := Ledger.nodup_keys_erase h.distinct name
  named := by
    intro k n hk
    rw [Ledger.get?_erase] at hk
    split at hk
    · cases hk
    · exact h.named hk
  awaited := by
    intro k n hk
    rw [Ledger.get?_erase] at hk ⊢
    split at hk
    · cases hk
    · rename_i hne
      rw [if_neg hne]
      exact h.awaited hk
  started := by
    intro k l hk
    rw [Ledger.get?_erase] at hk
    split at hk
    · cases hk
    · exact h.started hk
  waiting_lt := fun entry hentry => h.waiting_lt entry (List.mem_filter.1 hentry).1
  links := h.links

theorem fail (name : String) (load : Nat) (failure : Failure) :
    Tidy (r.fail name load failure) := by
  unfold Registry.fail
  split
  · have herased := h.eraseEntry name
    have hforgotten : Tidy ({ r with
        entries := r.entries.erase name
        failures := r.failures.set name failure
        tally := { r.tally with error := r.tally.error + 1 } }.forgetReplaced name) :=
      forgetReplaced (herased.congr rfl rfl rfl rfl)
    exact hforgotten.congr rfl rfl rfl rfl
  · exact h.congr rfl rfl rfl rfl

theorem abandon (load : Nat) (crash : Crash) : Tidy (r.abandon load crash) :=
  h.congr rfl rfl rfl rfl

/-- A file is indexed under its name, for which nothing waits any more. -/
theorem enterFile {name : String} {f : SourceFile} (hf : f.Bears name)
    (hlinks : f.LinksBelow r.files.size) :
    Tidy { r with
      files := r.files.push f
      entries := r.entries.set name (.loaded r.files.size)
      replaced := r.replaced.erase name } where
  distinct := Ledger.nodup_keys_set h.distinct name _
  named := by
    intro k n hk
    rw [Ledger.get?_set] at hk
    split at hk
    · rename_i heq
      cases hk
      exact ⟨f, Array.getElem?_push_size, heq ▸ hf⟩
    · exact (h.addFile hlinks).named hk
  awaited := by
    intro k n hk
    rw [Ledger.get?_erase] at hk
    split at hk
    · cases hk
    · rename_i hne
      rw [Ledger.get?_set_of_ne _ _ hne]
      exact h.awaited hk
  started := by
    intro k l hk
    rw [Ledger.get?_set] at hk
    split at hk
    · cases hk
    · exact h.started hk
  waiting_lt := fun entry hentry =>
    (h.addFile hlinks).waiting_lt entry (List.mem_filter.1 hentry).1
  links := (h.addFile hlinks).links

theorem succeed {name : String} {f : SourceFile} (hf : f.Bears name)
    (hlinks : f.LinksBelow r.files.size) (load : Nat) : Tidy (r.succeed name load f).1 := by
  cases hawaits : r.awaits name load with
  | false =>
    rw [succeed_of_superseded f hawaits]
    exact (h.addFile hlinks.detach).congr rfl rfl rfl rfl
  | true =>
    rw [succeed_of_awaited hawaits]
    have hentered := h.enterFile hf hlinks
    have hforgotten : Tidy ((r.entering name f).forgetReplaced name) :=
      forgetReplaced (hentered.congr rfl rfl rfl rfl)
    exact hforgotten.congr rfl rfl rfl rfl

theorem remove (name : String) : Tidy (r.remove name) := by
  have herased := h.eraseEntry name
  unfold Registry.remove
  cases hentry : r.entries.get? name with
  | none =>
    have hnone : r.replaced.get? name = none := h.replaced_eq_none (by simp [hentry])
    exact herased.congr rfl (Ledger.erase_of_get?_eq_none hnone).symm rfl rfl
  | some entry =>
    cases entry with
    | loaded n =>
      have hnone : r.replaced.get? name = none := h.replaced_eq_none (by simp [hentry])
      have hdropped : Tidy { r with
          entries := r.entries.erase name, failures := r.failures.erase name } :=
        herased.congr rfl (Ledger.erase_of_get?_eq_none hnone).symm rfl rfl
      exact hdropped.forget n
    | loading l => exact forgetReplaced (herased.congr rfl rfl rfl rfl)

theorem rename {old new : String} (hok : r.rename old new = .ok r') : Tidy r' := by
  obtain ⟨n, hentry, hfree, rfl⟩ := rename_eq_ok hok
  have hsize : (r.renamed old new n).files.size = r.files.size := size_renamed
  refine ⟨Ledger.nodup_keys_set (Ledger.nodup_keys_erase h.distinct old) new _, ?_, ?_, ?_, ?_, ?_⟩
  · exact named_renamed hentry h.named (h.name_unique hentry) fun hf => hf.rename new
  · intro k m hk
    obtain ⟨l, hl⟩ := h.awaited hk
    exact ⟨l, (loading_renamed hentry hfree).2 hl⟩
  · exact fun hk => h.started ((loading_renamed hentry hfree).1 hk)
  · exact fun entry hmem => hsize ▸ h.waiting_lt entry hmem
  · intro m g hg
    rw [files_renamed] at hg
    obtain ⟨f, hf, rfl⟩ := Option.map_eq_some_iff.1 hg
    have hlinks := h.links hf
    rw [← hsize] at hlinks
    split
    · exact hlinks.rename new
    · exact hlinks

theorem clear : Tidy r.clear := by
  refine clear_keeps h
    (fun s n hs => hs.modifyFile n (fun f k _ hf => hf.detach) fun f hf => hf.detach)
    fun s tally hs => ⟨List.nodup_nil, ?_, ?_, ?_, ?_, hs.links⟩
  · intro k n hk
    cases hk
  · intro k n hk
    cases hk
  · intro k l hk
    cases hk
  · intro entry hentry
    cases hentry

theorem enter (name : String) {f : SourceFile} {k : String} (hf : f.Bears k)
    (hlinks : f.LinksBelow r.files.size) (hfree : r.replaced.get? name = none) :
    Tidy (r.enter name f) :=
  (h.enterFile (hf.rename name) (hlinks.rename name)).congr rfl
    (Ledger.erase_of_get?_eq_none hfree).symm rfl rfl

theorem replaceAll (directory : Path) {files : Ledger SourceFile}
    (hfiles : ∀ entry ∈ files, (∃ k, entry.2.Bears k) ∧ ∀ ρ, entry.2.renumber ρ = entry.2) :
    Tidy (r.replaceAll directory files) := by
  have hclear : Tidy { r.clear with directory := directory } := h.clear.congr rfl rfl rfl rfl
  -- no file waits for replacement, so none is counted twice
  refine (replaceAll_keeps (P := fun s => Tidy s ∧ s.replaced = []) ⟨hclear, rfl⟩ ?_).1
  rintro s entry hentry ⟨hs, hempty⟩
  obtain ⟨⟨k, hk⟩, hlinks⟩ := hfiles entry hentry
  refine ⟨hs.enter entry.1 hk (fun ρ _ => hlinks ρ) ?_, hempty⟩
  rw [hempty]
  rfl

end Tidy

/-! ## What never goes back -/

/-- Files and loads have become more, and no load is awaited that had been given up. -/
structure Ages (r r' : Registry) : Prop where
  size : r.files.size ≤ r'.files.size
  loads : r.loads ≤ r'.loads
  superseded : ∀ {k l}, l < r.loads → r.entries.get? k ≠ some (.loading l) →
    r'.entries.get? k ≠ some (.loading l)

namespace Ages

variable {r r' r'' : Registry}

theorem refl (r : Registry) : Ages r r :=
  ⟨Nat.le_refl _, Nat.le_refl _, fun _ h => h⟩

theorem trans (h : Ages r r') (h' : Ages r' r'') : Ages r r'' where
  size := h.size.trans h'.size
  loads := h.loads.trans h'.loads
  superseded := fun hl hk => h'.superseded (Nat.lt_of_lt_of_le hl h.loads) (h.superseded hl hk)

theorem congr (h : Ages r r') (hf : r''.files = r'.files) (he : r''.entries = r'.entries)
    (hl : r''.loads = r'.loads) : Ages r r'' where
  size := hf ▸ h.size
  loads := hl ▸ h.loads
  superseded := he ▸ h.superseded

/-- Entries that await a load stay, give up, or await a new one. -/
theorem of_entries (hsize : r.files.size ≤ r'.files.size) (hloads : r.loads ≤ r'.loads)
    (hentries : ∀ {k l}, r'.entries.get? k = some (.loading l) →
      r.entries.get? k = some (.loading l) ∨ r.loads ≤ l) : Ages r r' where
  size := hsize
  loads := hloads
  superseded := by
    intro k l hl hk hk'
    rcases hentries hk' with hold | hnew
    · exact hk hold
    · omega

end Ages

section Ages

variable (r : Registry)

theorem ages_start (name : String) (previous : Option Nat) :
    Ages r (r.start name previous).1 := by
  refine .of_entries ?_ ?_ ?_
  · rw [files_start]
  · rw [loads_start]
    exact Nat.le_succ _
  · intro k l hk
    rw [get?_start] at hk
    split at hk
    · cases hk
      exact Or.inr (Nat.le_refl _)
    · exact Or.inl hk

theorem ages_relink (n : Nat) : Ages r (r.relink n).1 := by
  refine .of_entries ?_ ?_ ?_
  · rw [size_relink]
  · rw [loads_relink]
  · intro k l hk
    rw [entries_relink] at hk
    exact Or.inl hk

theorem ages_forget (n : Nat) : Ages r (r.forget n) := by
  refine .of_entries ?_ ?_ ?_
  · unfold Registry.forget
    split
    · exact Nat.le_of_eq Array.size_modify.symm
    · exact Nat.le_refl _
  · unfold Registry.forget
    split <;> exact Nat.le_refl _
  · intro k l hk
    rw [entries_forget] at hk
    exact Or.inl hk

theorem ages_forgetReplaced (name : String) : Ages r (r.forgetReplaced name) := by
  unfold Registry.forgetReplaced
  split
  · have hforgotten := ages_forget { r with replaced := r.replaced.erase name }
    exact ⟨(hforgotten _).size, (hforgotten _).loads, (hforgotten _).superseded⟩
  · exact .refl r

theorem ages_erase (name : String) (failures : Ledger Failure) (tally : Tally) :
    Ages r { r with entries := r.entries.erase name, failures := failures, tally := tally } := by
  refine .of_entries (Nat.le_refl _) (Nat.le_refl _) ?_
  intro k l hk
  rw [Ledger.get?_erase] at hk
  split at hk
  · cases hk
  · exact Or.inl hk

theorem ages_fail (name : String) (load : Nat) (failure : Failure) :
    Ages r (r.fail name load failure) := by
  unfold Registry.fail
  split
  · exact ((r.ages_erase name _ _).trans (ages_forgetReplaced _ name)).congr rfl rfl rfl
  · exact (Ages.refl r).congr rfl rfl rfl

theorem ages_succeed (name : String) (load : Nat) (f : SourceFile) :
    Ages r (r.succeed name load f).1 := by
  cases hawaits : r.awaits name load with
  | false =>
    rw [succeed_of_superseded f hawaits]
    refine .of_entries ?_ (Nat.le_refl _) Or.inl
    exact Nat.le_of_succ_le (Nat.le_of_eq (Array.size_push f.detach).symm)
  | true =>
    rw [succeed_of_awaited hawaits]
    have hentering : Ages r (r.entering name f) := by
      refine .of_entries ?_ (Nat.le_refl _) ?_
      · exact Nat.le_of_succ_le (Nat.le_of_eq (Array.size_push f).symm)
      · intro k l hk
        have hset : (r.entries.set name (.loaded r.files.size)).get? k = some (.loading l) := hk
        rw [Ledger.get?_set] at hset
        split at hset
        · cases hset
        · exact Or.inl hset
    exact (hentering.trans (ages_forgetReplaced _ name)).congr rfl rfl rfl

theorem ages_remove (name : String) : Ages r (r.remove name) := by
  have herased := r.ages_erase name (r.failures.erase name) r.tally
  unfold Registry.remove
  simp only
  split
  · exact herased.trans (ages_forget _ _)
  · exact herased.trans (ages_forgetReplaced _ name)
  · exact herased

theorem ages_rename {r r' : Registry} {old new : String} (hok : r.rename old new = .ok r') :
    Ages r r' := by
  obtain ⟨n, hentry, hfree, rfl⟩ := rename_eq_ok hok
  exact .of_entries (Nat.le_of_eq size_renamed.symm) (Nat.le_refl _)
    fun hk => Or.inl ((loading_renamed hentry hfree).1 hk)

theorem ages_clear : Ages r r.clear := by
  refine clear_keeps (.refl r) ?_ fun s tally hs => ⟨hs.size, hs.loads, fun _ _ => nofun⟩
  intro s n hs
  exact hs.trans (.of_entries (Nat.le_of_eq Array.size_modify.symm) (Nat.le_refl _) Or.inl)

/-- After everything was replaced, no load is awaited. -/
theorem not_loading_replaceAll (directory : Path) (files : Ledger SourceFile) (k : String)
    (l : Nat) : (r.replaceAll directory files).entries.get? k ≠ some (.loading l) := by
  refine replaceAll_keeps (P := fun s => s.entries.get? k ≠ some (.loading l)) nofun ?_
  intro s entry _ hs
  rw [get?_enter]
  split
  · nofun
  · exact hs

theorem ages_replaceAll (directory : Path) (files : Ledger SourceFile) :
    Ages r (r.replaceAll directory files) := by
  obtain ⟨hsize, hloads⟩ : r.files.size ≤ (r.replaceAll directory files).files.size ∧
      r.loads ≤ (r.replaceAll directory files).loads := by
    refine replaceAll_keeps (P := fun s => r.files.size ≤ s.files.size ∧ r.loads ≤ s.loads)
      ⟨r.ages_clear.size, r.ages_clear.loads⟩ fun s entry _ hs => ⟨?_, hs.2⟩
    rw [size_enter]
    exact Nat.le_succ_of_le hs.1
  refine .of_entries hsize hloads ?_
  intro k l hk
  exact absurd hk (r.not_loading_replaceAll directory files k l)

end Ages

end Registry

end SymbolAtlas
