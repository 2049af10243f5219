import Mathlib
import SymbolAtlas.Proofs.Registry.Steadiness
import SymbolAtlas.Proofs.SourceFile.Numbering

/-!
# Registries that differ in file numbers

A file that nobody indexes takes a number all the same, so files that are made later get higher
numbers than they would have got without it.  `Registry.Renumbers` relates a registry to one in
which such files were made besides: what is indexed, waits for its replacement or has failed is the
same up to a renumbering, and so is every file; the files beside them are empty shells.

Each operation of a registry keeps the relation if it is applied on both sides.
-/

namespace SymbolAtlas

namespace Ledger

variable {α β : Type} (g : α → β) (t : Ledger α) (key : String)

theorem get?_mapValues : (t.mapValues g).get? key = (t.get? key).map g := by
  induction t with
  | nil => rfl
  | cons entry rest ih =>
    obtain ⟨k, v⟩ := entry
    simp only [mapValues, List.map_cons, get?_cons] at ih ⊢
    rw [ih]
    split <;> rfl

theorem mapValues_set (value : α) :
    (t.set key value).mapValues g = (t.mapValues g).set key (g value) := by
  induction t with
  | nil => rfl
  | cons entry rest ih =>
    obtain ⟨k, v⟩ := entry
    simp only [mapValues, List.map_cons, set] at ih ⊢
    split
    · rfl
    · rw [List.map_cons, ih]

theorem mapValues_erase : (t.erase key).mapValues g = (t.mapValues g).erase key := by
  simp only [mapValues, erase, List.filter_map]
  rfl

theorem values_mapValues : (t.mapValues g).values = t.values.map g := by
  simp only [mapValues, values, List.map_map]
  rfl

end Ledger

/-- The entry with its file under the new number. -/
def Entry.renumber (ρ : Nat → Nat) : Entry → Entry
  | .loaded n => .loaded (ρ n)
  | .loading l => .loading l

namespace Registry

/-- The second registry is the first one under other file numbers, with some empty shells besides
and one load less at work. -/
structure Renumbers (ρ : Nat → Nat) (r r' : Registry) : Prop where
  injective : ρ.Injective
  /-- Files that are made from now on get the next numbers on both sides. -/
  fresh : ∀ i, ρ (r.files.size + i) = r'.files.size + i
  site : r'.toSite = r.toSite
  files : ∀ n, r'.files[ρ n]? = r.files[n]?.map (SourceFile.renumber ρ)
  entries : r'.entries = r.entries.mapValues (Entry.renumber ρ)
  replaced : r'.replaced = r.replaced.mapValues ρ
  failures : r'.failures = r.failures
  tally : r'.tally = { r.tally with loading := r.tally.loading - 1 }
  loads : r'.loads = r.loads
  shells : ∀ {m f}, (∀ n, ρ n ≠ m) → r'.files[m]? = some f → f.detached = true

namespace Renumbers

variable {ρ : Nat → Nat} {r r' : Registry} (h : Renumbers ρ r r')

include h

/-! ## Views -/

theorem size_eq : ρ r.files.size = r'.files.size :=
  h.fresh 0

theorem entry (name : String) :
    r'.entries.get? name = (r.entries.get? name).map (Entry.renumber ρ) := by
  rw [h.entries, Ledger.get?_mapValues]

theorem get? (name : String) : r'.get? name = (r.get? name).map ρ := by
  unfold Registry.get?
  rw [h.entry]
  cases r.entries.get? name with
  | none => rfl
  | some entry => cases entry <;> rfl

theorem awaits (name : String) (load : Nat) : r'.awaits name load = r.awaits name load := by
  unfold Registry.awaits
  rw [h.entry]
  cases r.entries.get? name with
  | none => rfl
  | some entry => cases entry <;> simp [Entry.renumber]

theorem loaded : r'.loaded = r.loaded.map ρ := by
  rw [loaded_eq, loaded_eq, h.entries, loadedOf, loadedOf, Ledger.mapValues, List.filterMap_map,
    List.map_filterMap]
  refine List.filterMap_congr fun entry _ => ?_
  obtain ⟨k, entry⟩ := entry
  cases entry <;> rfl

theorem resolve (s : String) : r'.resolve s = (r.resolve s).map ρ := by
  unfold Registry.resolve
  rw [h.get?, h.site]
  cases r.get? s with
  | some n => rfl
  | none =>
    simp only [Option.map_none]
    split
    · split
      · rw [h.get?]
      · rfl
    · rfl

theorem resolveCandidate (c : Value) :
    r'.resolveCandidate c = (r.resolveCandidate c).map (Option.map ρ) := by
  cases c with
  | str s => exact congrArg Except.ok (h.resolve s)
  | _ => rfl

/-! ## Files -/

theorem addFile {f : SourceFile} (hf : f.renumber ρ = f) :
    Renumbers ρ (r.addFile f).1 (r'.addFile f).1 := by
  have hsize := h.size_eq
  have hnew : ∀ n, ρ n = r'.files.size ↔ n = r.files.size := fun n =>
    ⟨fun hn => h.injective (hn.trans hsize.symm), fun hn => hn ▸ hsize⟩
  refine { h with fresh := ?_, files := ?_, shells := ?_ }
  · intro i
    have hi := h.fresh (1 + i)
    simp only [Registry.addFile, Array.size_push, Nat.add_assoc]
    exact hi
  · intro n
    simp only [Registry.addFile, Array.getElem?_push, hnew]
    split
    · exact congrArg some hf.symm
    · exact h.files n
  · intro m g hm hg
    simp only [Registry.addFile, Array.getElem?_push] at hg
    split at hg
    · rename_i heq
      exact absurd (heq ▸ hsize) (hm r.files.size)
    · exact h.shells hm hg

theorem modifyFile (n : Nat) {change change' : SourceFile → SourceFile}
    (hchange : ∀ f, (change f).renumber ρ = change' (f.renumber ρ)) :
    Renumbers ρ (r.modifyFile n change) (r'.modifyFile (ρ n) change') := by
  refine { h with fresh := ?_, files := ?_, shells := ?_ }
  · intro i
    simp only [Registry.modifyFile, Array.size_modify]
    exact h.fresh i
  · intro m
    simp only [Registry.modifyFile, Array.getElem?_modify, h.injective.eq_iff, h.files]
    split
    · rw [Option.map_map, Option.map_map]
      exact (Option.map_congr fun f _ => hchange f).symm
    · rfl
  · intro m f hm hf
    simp only [Registry.modifyFile, Array.getElem?_modify, if_neg (hm n)] at hf
    exact h.shells hm hf

theorem forget (n : Nat) : Renumbers ρ (r.forget n) (r'.forget (ρ n)) := by
  unfold Registry.forget
  rw [h.files]
  cases r.files[n]? with
  | none => exact h
  | some f =>
    have hdetached := h.modifyFile n fun f => f.renumber_detach ρ
    refine { hdetached with tally := ?_ }
    simp only [Option.map_some, h.tally, Tally.uncount, f.symbolCount_renumber ρ]
    rfl

theorem forgetReplaced (name : String) :
    Renumbers ρ (r.forgetReplaced name) (r'.forgetReplaced name) := by
  unfold Registry.forgetReplaced
  rw [h.replaced, Ledger.get?_mapValues]
  cases r.replaced.get? name with
  | none => exact h
  | some n =>
    have herased : Renumbers ρ { r with replaced := r.replaced.erase name }
        { r' with replaced := (r.replaced.mapValues ρ).erase name } :=
      { h with replaced := (r.replaced.mapValues_erase ρ name).symm }
    exact herased.forget n

theorem relink (n : Nat) : Renumbers ρ (r.relink n).1 (r'.relink (ρ n)).1 := by
  unfold Registry.relink
  rw [h.files]
  cases r.files[n]? with
  | none => exact h
  | some f =>
    have hlinked := f.relink_renumber ρ h.resolveCandidate
    simp only [Option.map_some, hlinked]
    exact h.modifyFile n fun _ => rfl

theorem snd_relink (n : Nat) : (r'.relink (ρ n)).2 = (r.relink n).2 := by
  unfold Registry.relink
  rw [h.files]
  cases r.files[n]? with
  | none => rfl
  | some f =>
    have hlinked := f.relink_renumber ρ h.resolveCandidate
    simp only [Option.map_some, hlinked]

/-! ## Loads -/

theorem start (name : String) (previous : Option Nat) :
    Renumbers ρ (r.start name previous).1 (r'.start name (previous.map ρ)).1 := by
  have hentries : r'.entries.set name (.loading r'.loads) =
      (r.entries.set name (.loading r.loads)).mapValues (Entry.renumber ρ) := by
    rw [Ledger.mapValues_set, h.entries, h.loads]
    rfl
  cases previous with
  | none =>
    refine { h with entries := hentries, tally := ?_, loads := congrArg (· + 1) h.loads }
    simp only [Registry.start, Option.map_none, h.tally]
  | some n =>
    refine { h with entries := hentries, replaced := ?_, loads := congrArg (· + 1) h.loads }
    simp only [Registry.start, Option.map_some, Ledger.mapValues_set, h.replaced]

theorem begin : Renumbers ρ r.begin r'.begin := by
  refine { h with tally := ?_ }
  simp only [Registry.begin, h.tally, Tally.mk.injEq, and_true, true_and]
  omega

theorem endWork : Renumbers ρ r.endWork r'.endWork := by
  refine { h with tally := ?_ }
  simp only [Registry.endWork, h.tally]

theorem fail (name : String) (load : Nat) (failure : Failure) :
    Renumbers ρ (r.fail name load failure) (r'.fail name load failure) := by
  unfold Registry.fail
  rw [h.awaits]
  split
  · have hdropped : Renumbers ρ
        { r with
          entries := r.entries.erase name
          failures := r.failures.set name failure
          tally := { r.tally with error := r.tally.error + 1 } }
        { r' with
          entries := r'.entries.erase name
          failures := r'.failures.set name failure
          tally := { r'.tally with error := r'.tally.error + 1 } } := by
      refine { h with entries := ?_, failures := ?_, tally := ?_ }
      · simp only [Ledger.mapValues_erase, h.entries]
      · simp only [h.failures]
      · simp only [h.tally]
    exact (hdropped.forgetReplaced name).endWork
  · exact h.endWork

theorem abandon (load : Nat) (crash : Crash) :
    Renumbers ρ (r.abandon load crash) (r'.abandon load crash) :=
  { h.endWork with }

theorem succeed (name : String) (load : Nat) {f : SourceFile} (hf : f.renumber ρ = f) :
    Renumbers ρ (r.succeed name load f).1 (r'.succeed name load f).1 := by
  cases hawaits : r.awaits name load with
  | false =>
    rw [succeed_of_superseded f hawaits,
      succeed_of_superseded f ((h.awaits name load).trans hawaits)]
    refine h.endWork.addFile ?_
    rw [SourceFile.renumber_detach, hf]
  | true =>
    rw [succeed_of_awaited hawaits, succeed_of_awaited ((h.awaits name load).trans hawaits)]
    have hentering : Renumbers ρ (r.entering name f) (r'.entering name f) := by
      refine { h.endWork.addFile hf with entries := ?_, failures := ?_ }
      · simp only [entering, Ledger.mapValues_set, h.entries, ← h.size_eq]
        rfl
      · simp only [entering, h.failures]
    have hforgotten := hentering.forgetReplaced name
    refine { hforgotten with tally := ?_ }
    simp only [hforgotten.tally, Tally.count]

theorem snd_succeed (name : String) (load : Nat) (f : SourceFile) :
    (r'.succeed name load f).2 = ρ (r.succeed name load f).2 := by
  cases hawaits : r.awaits name load with
  | false =>
    rw [succeed_of_superseded f hawaits,
      succeed_of_superseded f ((h.awaits name load).trans hawaits)]
    exact h.size_eq.symm
  | true =>
    rw [succeed_of_awaited hawaits, succeed_of_awaited ((h.awaits name load).trans hawaits)]
    exact h.size_eq.symm

/-! ## Maintenance -/

theorem remove (name : String) : Renumbers ρ (r.remove name) (r'.remove name) := by
  have herased : Renumbers ρ
      { r with entries := r.entries.erase name, failures := r.failures.erase name }
      { r' with entries := r'.entries.erase name, failures := r'.failures.erase name } := by
    refine { h with entries := ?_, failures := ?_ }
    · simp only [Ledger.mapValues_erase, h.entries]
    · simp only [h.failures]
  unfold Registry.remove
  rw [h.entry]
  cases r.entries.get? name with
  | none => exact herased
  | some entry =>
    cases entry with
    | loaded n => exact herased.forget n
    | loading l => exact herased.forgetReplaced name

/-- A renaming fails on both sides, or on none. -/
theorem rename (old new : String) :
    (∃ s s', r.rename old new = .ok s ∧ r'.rename old new = .ok s' ∧ Renumbers ρ s s') ∨
      ∃ obstacle, r.rename old new = .error obstacle ∧ r'.rename old new = .error obstacle := by
  unfold Registry.rename
  rw [h.entry]
  cases r.entries.get? old with
  | none => exact Or.inr ⟨_, rfl, rfl⟩
  | some entry =>
    cases entry with
    | loading l => exact Or.inr ⟨_, rfl, rfl⟩
    | loaded n =>
      have hcontains : r'.entries.contains new = r.entries.contains new := by
        rw [Ledger.contains, h.entry, Option.isSome_map, Ledger.contains]
      simp only [Option.map_some, Entry.renumber, hcontains]
      split
      · exact Or.inr ⟨_, rfl, rfl⟩
      · refine Or.inl ⟨_, _, rfl, rfl, ?_⟩
        refine { h.modifyFile n fun f => f.renumber_rename ρ new with entries := ?_ }
        simp only [Ledger.mapValues_set, Ledger.mapValues_erase, h.entries]
        rfl

theorem clear : Renumbers ρ r.clear r'.clear := by
  have hdetached : ∀ (ns : List Nat) {s s' : Registry}, Renumbers ρ s s' →
      Renumbers ρ (ns.foldl (fun r n => r.modifyFile n SourceFile.detach) s)
        ((ns.map ρ).foldl (fun r n => r.modifyFile n SourceFile.detach) s') := by
    intro ns
    induction ns with
    | nil => exact fun hs => hs
    | cons n rest ih => exact fun hs => ih (hs.modifyFile n fun f => f.renumber_detach ρ)
  have hall := hdetached (r.loaded ++ r.replaced.values) h
  rw [List.map_append, ← h.loaded, ← Ledger.values_mapValues, ← h.replaced] at hall
  refine { hall with entries := rfl, replaced := rfl, failures := rfl, tally := ?_ }
  simp only [Registry.clear, h.tally]

theorem enter (name : String) {f : SourceFile} (hf : f.renumber ρ = f) :
    Renumbers ρ (r.enter name f) (r'.enter name f) := by
  have hadded := h.addFile (f := f.rename name) (by rw [SourceFile.renumber_rename, hf])
  refine { hadded with entries := ?_, tally := ?_ }
  · simp only [Registry.enter, Registry.addFile, Ledger.mapValues_set, h.entries, ← h.size_eq]
    rfl
  · simp only [Registry.enter, Registry.addFile, Tally.count, h.tally]

theorem replaceAll (directory : Path) {files : Ledger SourceFile}
    (hfiles : ∀ entry ∈ files, entry.2.renumber ρ = entry.2) :
    Renumbers ρ (r.replaceAll directory files) (r'.replaceAll directory files) := by
  have hbase : Renumbers ρ { r.clear with directory := directory }
      { r'.clear with directory := directory } :=
    { h.clear with
      site := congrArg (fun s : Site => { s with directory := directory }) h.clear.site }
  unfold Registry.replaceAll
  generalize { r.clear with directory := directory } = s at hbase ⊢
  generalize { r'.clear with directory := directory } = s' at hbase ⊢
  induction files generalizing s s' with
  | nil => exact hbase
  | cons entry rest ih =>
    obtain ⟨hentry, hrest⟩ := List.forall_mem_cons.1 hfiles
    exact ih hrest _ _ (hbase.enter entry.1 hentry)

end Renumbers

end Registry

end SymbolAtlas
