import Mathlib
import SymbolAtlas.Registry
import SymbolAtlas.Proofs.Ledger

/-!
# Coherent registries

A registry holds the files that are indexed and those that a load under way will replace.  It is
`Booked` if every indexed file bears the name it is indexed under, no file is held twice, and the
tally counts the held files; it is `Coherent` if moreover a file waits for replacement only under a
name whose load is under way.

Up to order, each operation adds one file to those held, takes one away, or moves one from the
indexed to the replaced files; the lemmas on `Tally.Counts` follow the count through these changes.
-/

namespace SymbolAtlas

/-! ## Counting files -/

/-- The tally counts the given files. -/
structure Tally.Counts (t : Tally) (fs : List SourceFile) : Prop where
  loaded : t.loaded = fs.length
  symbols : t.symbols = (fs.map fun f => (f.symbolCount : Int)).sum
  size : t.size = (fs.map fun f => f.size.getD 0).sum

namespace Tally.Counts

variable {t t' : Tally} {f : SourceFile} {fs gs : List SourceFile}

theorem nil : Counts {} [] :=
  ⟨rfl, rfl, rfl⟩

theorem perm (h : t.Counts fs) (hp : fs.Perm gs) : t.Counts gs := by
  refine ⟨?_, ?_, ?_⟩
  · rw [h.loaded, hp.length_eq]
  · rw [h.symbols, (hp.map _).sum_eq]
  · rw [h.size, (hp.map _).sum_eq]

theorem count (h : t.Counts fs) (f : SourceFile) : (t.count f).Counts (f :: fs) := by
  refine ⟨?_, ?_, ?_⟩
  · simp only [Tally.count, h.loaded, List.length_cons, Nat.cast_add, Nat.cast_one]
  · simp only [Tally.count, h.symbols, List.map_cons, List.sum_cons]
    omega
  · simp only [Tally.count, h.size, List.map_cons, List.sum_cons]
    omega

theorem uncount (h : t.Counts (f :: fs)) : (t.uncount f).Counts fs := by
  obtain ⟨hl, hs, hz⟩ := h
  rw [List.length_cons] at hl
  rw [List.map_cons, List.sum_cons] at hs hz
  refine ⟨?_, ?_, ?_⟩
  · simp only [Tally.uncount]
    omega
  · simp only [Tally.uncount]
    omega
  · simp only [Tally.uncount]
    omega

theorem congr (h : t.Counts fs) (hl : t'.loaded = t.loaded) (hs : t'.symbols = t.symbols)
    (hz : t'.size = t.size) : t'.Counts fs :=
  ⟨hl.trans h.loaded, hs.trans h.symbols, hz.trans h.size⟩

end Tally.Counts

/-! ## Indexed and held files -/

/-- The files among the entries. -/
def loadedOf (entries : Ledger Entry) : List Nat :=
  entries.filterMap fun entry =>
    match entry.2 with
    | .loaded n => some n
    | .loading _ => none

theorem loadedOf_perm {entries entries' : Ledger Entry} (h : entries.Perm entries') :
    (loadedOf entries).Perm (loadedOf entries') :=
  h.filterMap _

@[simp] theorem loadedOf_cons_loading (k : String) (l : Nat) (entries : Ledger Entry) :
    loadedOf ((k, .loading l) :: entries) = loadedOf entries := rfl

theorem mem_loadedOf {entries : Ledger Entry} {n : Nat} :
    n ∈ loadedOf entries ↔ ∃ k, (k, Entry.loaded n) ∈ entries := by
  unfold loadedOf
  rw [List.mem_filterMap]
  constructor
  · rintro ⟨⟨k, entry⟩, hmem, heq⟩
    cases entry with
    | loaded m =>
      cases heq
      exact ⟨k, hmem⟩
    | loading l => cases heq
  · rintro ⟨k, hmem⟩
    exact ⟨_, hmem, rfl⟩

/-- The file is no empty shell and bears a name. -/
structure SourceFile.IsEntered (f : SourceFile) (name : String) : Prop where
  name_eq : f.name = name
  detached : f.detached = false
  nonempty : 0 < f.outline.size

namespace Registry

theorem loaded_eq (r : Registry) : r.loaded = loadedOf r.entries := by
  rw [loaded, loadedEntries, List.map_filterMap, loadedOf]
  congr 1
  funext entry
  obtain ⟨k, entry⟩ := entry
  cases entry <;> rfl

/-- The numbers of the files that are indexed or wait for their replacement. -/
def held (r : Registry) : List Nat :=
  r.loaded ++ r.replaced.values

/-- The files with given numbers. -/
def filesAt (r : Registry) (ns : List Nat) : List SourceFile :=
  ns.filterMap fun n => r.files[n]?

/-- The entries, the files and the tally fit together. -/
structure Booked (r : Registry) : Prop where
  entries_distinct : r.entries.keys.Nodup
  replaced_distinct : r.replaced.keys.Nodup
  /-- An indexed file bears the name it is indexed under. -/
  named : ∀ {k n}, r.entries.get? k = some (.loaded n) →
    ∃ f, r.files[n]? = some f ∧ f.IsEntered k
  known : ∀ {n}, n ∈ r.replaced.values → n < r.files.size
  /-- No file is held twice. -/
  exclusive : r.held.Nodup
  counts : r.tally.Counts (r.filesAt r.held)

/-- The registry is booked, and replacements wait for loads under way. -/
structure Coherent (r : Registry) : Prop extends Booked r where
  awaited : ∀ {k n}, r.replaced.get? k = some n → ∃ load, r.entries.get? k = some (.loading load)

section Files

variable {r r' : Registry}

theorem filesAt_congr {ns : List Nat} (h : ∀ n ∈ ns, r'.files[n]? = r.files[n]?) :
    r'.filesAt ns = r.filesAt ns :=
  List.filterMap_congr h

theorem filesAt_cons {n : Nat} {f : SourceFile} (h : r.files[n]? = some f) (ns : List Nat) :
    r.filesAt (n :: ns) = f :: r.filesAt ns := by
  rw [filesAt, List.filterMap_cons, h]
  rfl

theorem mem_held_of_entry {k : String} {n : Nat}
    (hk : r.entries.get? k = some (.loaded n)) : n ∈ r.held := by
  rw [held, loaded_eq]
  exact List.mem_append_left _ (mem_loadedOf.2 ⟨k, Ledger.mem_of_get? hk⟩)

theorem mem_held_of_replaced {k : String} {n : Nat} (hk : r.replaced.get? k = some n) :
    n ∈ r.held :=
  List.mem_append_right _ (List.mem_map.2 ⟨(k, n), Ledger.mem_of_get? hk, rfl⟩)

/-- A file is indexed under one name only. -/
theorem Booked.name_unique (h : Booked r) {k k' : String} {n : Nat}
    (hk : r.entries.get? k = some (.loaded n)) (hk' : r.entries.get? k' = some (.loaded n)) :
    k' = k := by
  obtain ⟨f, hf, hfk⟩ := h.named hk
  obtain ⟨g, hg, hgk⟩ := h.named hk'
  rw [hf] at hg
  cases hg
  exact hgk.name_eq.symm.trans hfk.name_eq

theorem Booked.nodup_loaded (h : Booked r) : r.loaded.Nodup :=
  (List.nodup_append.1 h.exclusive).1

theorem Booked.file_of_held (h : Booked r) {n : Nat} (hn : n ∈ r.held) :
    ∃ f, r.files[n]? = some f := by
  rcases List.mem_append.1 hn with hn | hn
  · rw [loaded_eq] at hn
    obtain ⟨k, hk⟩ := mem_loadedOf.1 hn
    obtain ⟨f, hf, -⟩ := h.named (Ledger.get?_of_mem h.entries_distinct hk)
    exact ⟨f, hf⟩
  · have := h.known hn
    exact ⟨_, Array.getElem?_eq_getElem this⟩

theorem Booked.lt_size_of_held (h : Booked r) {n : Nat} (hn : n ∈ r.held) : n < r.files.size := by
  obtain ⟨f, hf⟩ := h.file_of_held hn
  exact (Array.getElem?_eq_some_iff.1 hf).1

theorem Booked.length_filesAt_held (h : Booked r) : (r.filesAt r.held).length = r.held.length := by
  have hall : ∀ ns : List Nat, (∀ n ∈ ns, n ∈ r.held) → (r.filesAt ns).length = ns.length := by
    intro ns
    induction ns with
    | nil => intro _; rfl
    | cons n rest ih =>
      intro hns
      obtain ⟨hn, hrest⟩ := List.forall_mem_cons.1 hns
      obtain ⟨f, hf⟩ := h.file_of_held hn
      rw [filesAt_cons hf, List.length_cons, List.length_cons, ih hrest]
  exact hall r.held fun _ hn => hn

end Files

/-! ## Changes of what is held -/

section Changes

variable {r r' : Registry} (h : Booked r) (he : r'.entries.keys.Nodup)
  (hr : r'.replaced.keys.Nodup)

include h he hr

/-- The same files are held, though perhaps in other places and changed in what is not counted. -/
theorem Booked.amend (hperm : r'.held.Perm r.held) {g : Nat → SourceFile → SourceFile}
    (hfiles : ∀ n ∈ r.held, r'.files[n]? = (r.files[n]?).map (g n))
    (hsymbols : ∀ n f, (g n f).symbolCount = f.symbolCount) (hsize : ∀ n f, (g n f).size = f.size)
    (hnamed : ∀ {k n}, r'.entries.get? k = some (.loaded n) →
      ∃ f, r'.files[n]? = some f ∧ f.IsEntered k)
    (htally : r'.tally.Counts (r.filesAt r.held)) : Booked r' := by
  have hcounts : r'.tally.Counts (r'.filesAt r.held) := by
    have hlist : (r'.filesAt r.held).map (fun f => (f.symbolCount, f.size)) =
        (r.filesAt r.held).map (fun f => (f.symbolCount, f.size)) := by
      simp only [filesAt, List.map_filterMap]
      refine List.filterMap_congr fun n hn => ?_
      rw [hfiles n hn, Option.map_map]
      exact Option.map_congr fun f _ => by simp [hsymbols, hsize]
    refine ⟨?_, ?_, ?_⟩
    · have := congrArg List.length hlist
      simp only [List.length_map] at this
      rw [this, htally.loaded]
    · have := congrArg (List.map fun p : Nat × Option Int => (p.1 : Int)) hlist
      simp only [List.map_map] at this
      exact htally.symbols.trans (congrArg List.sum this).symm
    · have := congrArg (List.map fun p : Nat × Option Int => p.2.getD 0) hlist
      simp only [List.map_map] at this
      exact htally.size.trans (congrArg List.sum this).symm
  refine ⟨he, hr, hnamed, ?_, hperm.nodup_iff.2 h.exclusive, hcounts.perm ?_⟩
  · intro n hn
    have hheld : n ∈ r.held := hperm.subset (List.mem_append_right _ hn)
    obtain ⟨f, hf⟩ := h.file_of_held hheld
    have hn' := hfiles n hheld
    rw [hf] at hn'
    exact (Array.getElem?_eq_some_iff.1 hn').1
  · exact (hperm.symm.filterMap _)

/-- One file less is held, and it is emptied. -/
theorem Booked.release {n : Nat} {f : SourceFile} (hn : r.files[n]? = some f)
    (hsub : ∀ {k m}, r'.entries.get? k = some (.loaded m) → r.entries.get? k = some (.loaded m))
    (hperm : r.held.Perm (n :: r'.held)) (hfiles : r'.files = r.files.modify n SourceFile.detach)
    (htally : r'.tally = r.tally.uncount f) : Booked r' := by
  have hnodup : (n :: r'.held).Nodup := hperm.nodup_iff.1 h.exclusive
  have hsame : ∀ m ∈ r'.held, r'.files[m]? = r.files[m]? := by
    intro m hm
    have hne : n ≠ m := by
      rintro rfl
      exact (List.nodup_cons.1 hnodup).1 hm
    rw [hfiles, Array.getElem?_modify, if_neg hne]
  refine ⟨he, hr, ?_, ?_, (List.nodup_cons.1 hnodup).2, ?_⟩
  · intro k m hk
    rw [hsame m (mem_held_of_entry hk)]
    exact h.named (hsub hk)
  · intro m hm
    have hheld := hperm.symm.subset (List.mem_cons_of_mem n (List.mem_append_right r'.loaded hm))
    rw [hfiles, Array.size_modify]
    exact h.lt_size_of_held hheld
  · have hcounts := h.counts.perm (hperm.filterMap fun n => r.files[n]?)
    rw [← filesAt, filesAt_cons hn] at hcounts
    rw [htally, filesAt_congr hsame]
    exact hcounts.uncount

/-- One new file is held, under its name. -/
theorem Booked.acquire {f : SourceFile} {name : String} (hf : f.IsEntered name)
    (hsub : ∀ {k m}, r'.entries.get? k = some (.loaded m) →
      r.entries.get? k = some (.loaded m) ∨ (k = name ∧ m = r.files.size))
    (hperm : r'.held.Perm (r.files.size :: r.held)) (hfiles : r'.files = r.files.push f)
    (htally : r'.tally.Counts (f :: r.filesAt r.held)) : Booked r' := by
  have hnew : r'.files[r.files.size]? = some f := by
    rw [hfiles, Array.getElem?_push_size]
  have hsame : ∀ m ∈ r.held, r'.files[m]? = r.files[m]? := by
    intro m hm
    have hlt := h.lt_size_of_held hm
    rw [hfiles, Array.getElem?_push, if_neg (by omega)]
  refine ⟨he, hr, ?_, ?_, ?_, ?_⟩
  · intro k m hk
    rcases hsub hk with hold | ⟨rfl, rfl⟩
    · rw [hsame m (mem_held_of_entry hold)]
      exact h.named hold
    · exact ⟨f, hnew, hf⟩
  · intro m hm
    rw [hfiles, Array.size_push]
    rcases List.mem_cons.1 (hperm.subset (List.mem_append_right _ hm)) with rfl | hm
    · omega
    · have := h.lt_size_of_held hm
      omega
  · rw [hperm.nodup_iff, List.nodup_cons]
    exact ⟨fun hm => Nat.lt_irrefl _ (h.lt_size_of_held hm), h.exclusive⟩
  · have hcounts : r'.tally.Counts (r'.filesAt (r.files.size :: r.held)) := by
      rw [filesAt_cons hnew, filesAt_congr hsame]
      exact htally
    exact hcounts.perm (hperm.symm.filterMap _)

end Changes

end Registry

end SymbolAtlas
