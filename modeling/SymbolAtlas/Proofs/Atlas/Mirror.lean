import Mathlib
import SymbolAtlas.Atlas.Query
import SymbolAtlas.Atlas.Snapshot
import SymbolAtlas.Report.Atlas
import SymbolAtlas.Proofs.Registry.Coherence
import SymbolAtlas.Proofs.SourceFile.RoundTrip

/-!
# Atlases that mirror each other

An atlas mirrors another one if the same names are indexed in the same order, with files that read
alike and whose include directives lead to files of the same names.  File numbers may differ.
Atlases that mirror each other have the same snapshot (`Atlas.Mirrors.snapshot_eq`) and the same
tally of files (`Atlas.Mirrors.tally_eq`).  What they find are twins, entities with the same number
in files that read alike, so questions are answered by the same references
(`Atlas.Mirrors.twins_select`, `Atlas.Mirrors.mergedNamespace?_eq`, `Atlas.Mirrors.scopeAt_eq`).
-/

namespace SymbolAtlas

namespace SourceFile

open Outline

/-- The second file reads like the first one, and its directives lead to files of the same names. -/
structure Mirrors (f g : SourceFile) (nameOf nameOf' : Nat → Option String) : Prop where
  alike : Alike f.outline g.outline
  contentHash : g.contentHash = f.contentHash
  mtime : g.mtime = f.mtime
  size : g.size = f.size
  detached : f.detached = false
  detached' : g.detached = false
  targets : ∀ {i inc inc'}, f.directive? i = some inc → g.directive? i = some inc' →
    inc'.link.target? nameOf' = inc.link.target? nameOf

namespace Mirrors

variable {f g : SourceFile} {nameOf nameOf' : Nat → Option String}
  (h : Mirrors f g nameOf nameOf')

include h

theorem name_eq : g.name = f.name := by
  rw [name, name, fileName, fileName]
  rcases h.alike.both 0 with ⟨he, he'⟩ | ⟨e, e', he, he', hsame⟩
  · rw [he, he']
  · rw [he, he', Option.bind_some, Option.bind_some, ← e'.name_plain, hsame, e.name_plain]

theorem symbolCount_eq : g.symbolCount = f.symbolCount := by
  rw [symbolCount, symbolCount, h.detached, h.detached', h.alike.size]

theorem snapshot_eq : g.snapshot nameOf' = f.snapshot nameOf := by
  have hentities : snapshotsFrom nameOf' 0 g.heldEntities =
      snapshotsFrom nameOf 0 f.heldEntities := by
    refine List.ext_getElem? fun i => ?_
    rw [getElem?_snapshotsFrom, getElem?_snapshotsFrom]
    simp only [heldEntities, h.detached, h.detached', Bool.false_eq_true, ↓reduceIte,
      Array.getElem?_toList]
    rcases h.alike.both i with ⟨he, he'⟩ | ⟨e, e', he, he', hsame⟩
    · rw [get?] at he he'
      rw [he, he']
      rfl
    · have hsnapshot : e'.snapshot (0 + i) nameOf' = e.snapshot (0 + i) nameOf := by
        refine Entity.snapshot_congr hsame ?_ (h.alike.members he he') (0 + i)
        intro inc inc' hinc hinc'
        refine h.targets (i := i) ?_ ?_
        · rw [directive?, he, Option.bind_some, hinc]
        · rw [directive?, he', Option.bind_some, hinc']
      rw [get?] at he he'
      rw [he, he', Option.map_some, Option.map_some, hsnapshot]
  simp only [snapshot, h.name_eq, h.contentHash, h.mtime, h.size, h.alike.home, h.alike.namespaces,
    h.alike.externals, hentities]

end Mirrors

end SourceFile

theorem Registry.get?_eq_loadedEntries {r : Registry} (hd : r.entries.keys.Nodup) (name : String) :
    r.get? name = Ledger.get? r.loadedEntries name := by
  unfold Registry.get? Registry.loadedEntries
  generalize r.entries = t at hd ⊢
  induction t with
  | nil => rfl
  | cons entry rest ih =>
    obtain ⟨k, entry⟩ := entry
    rw [Ledger.keys, List.map_cons, List.nodup_cons] at hd
    have hrest := ih hd.2
    cases entry with
    | loaded n =>
      simp only [List.filterMap_cons, Ledger.get?_cons]
      by_cases hk : k = name
      · simp only [if_pos hk]
      · simp only [if_neg hk]
        exact hrest
    | loading l =>
      simp only [List.filterMap_cons, Ledger.get?_cons]
      by_cases hk : k = name
      · have hnone : Ledger.get? rest name = none := Ledger.get?_eq_none_iff.2 (hk ▸ hd.1)
        rw [hnone] at hrest
        simp only [if_pos hk]
        exact hrest
      · simp only [if_neg hk]
        exact hrest

namespace Atlas

/-- The entries index files that mirror each other, under the same name. -/
def EntriesMirror (a b : Atlas) (x y : String × Nat) : Prop :=
  y.1 = x.1 ∧ ∃ f g, a.file? x.2 = some f ∧ b.file? y.2 = some g ∧
    f.Mirrors g a.registry.nameOf b.registry.nameOf

/-- The second atlas indexes the same names in the same order, with files that mirror those of the
first one. -/
structure Mirrors (a b : Atlas) : Prop where
  directory : b.registry.directory = a.registry.directory
  entries : List.Forall₂ (EntriesMirror a b) a.registry.loadedEntries b.registry.loadedEntries

/-- The files with these numbers read alike. -/
def FilesAlike (a b : Atlas) (n m : Nat) : Prop :=
  ∃ f g, a.file? n = some f ∧ b.file? m = some g ∧ Outline.Alike f.outline g.outline

/-- The entities have the same number in files that read alike. -/
def Twins (a b : Atlas) (s t : SymbolRef) : Prop :=
  t.entity = s.entity ∧ FilesAlike a b s.file t.file

section Twins

variable {a b : Atlas}

theorem Twins.reference {s t : SymbolRef} (h : Twins a b s t) : b.reference t = a.reference s := by
  obtain ⟨hentity, f, g, hf, hg, halike⟩ := h
  simp only [Atlas.reference, hf, hg, hentity, halike.reference]

theorem references_of_twins {ss ts : List SymbolRef} (h : List.Forall₂ (Twins a b) ss ts) :
    b.references ts = a.references ss := by
  have hmap : ts.map b.reference = ss.map a.reference := by
    induction h with
    | nil => rfl
    | cons hst _ ih => rw [List.map_cons, List.map_cons, hst.reference, ih]
  rw [references, references, hmap]

/-- Numbers taken from alike files give twins. -/
theorem twins_of_alike {n m : Nat} (h : FilesAlike a b n m) (ids : List Nat) :
    List.Forall₂ (Twins a b) (ids.map fun i => { file := n, entity := i })
      (ids.map fun i => { file := m, entity := i }) := by
  rw [List.forall₂_map_left_iff, List.forall₂_map_right_iff]
  exact List.forall₂_same.2 fun i _ => ⟨rfl, h⟩

theorem twins_selectIn {n m : Nat} (h : FilesAlike a b n m) (tag : String) (name : Option String)
    (limit : Int) :
    List.Forall₂ (Twins a b) (a.selectIn tag name limit n) (b.selectIn tag name limit m) := by
  have halike := h
  obtain ⟨f, g, hf, hg, hfg⟩ := h
  simp only [selectIn, hf, hg, hfg.select]
  exact twins_of_alike halike _

theorem twins_selectFrom (tag : String) (name : Option String) (limit : Int) {ns ms : List Nat}
    (h : List.Forall₂ (FilesAlike a b) ns ms) {found found' : List SymbolRef}
    (hfound : List.Forall₂ (Twins a b) found found') :
    List.Forall₂ (Twins a b) (a.selectFrom tag name limit found ns)
      (b.selectFrom tag name limit found' ms) := by
  induction h generalizing found found' with
  | nil => exact hfound
  | @cons n m ns ms hnm _ ih =>
    simp only [selectFrom, ← hfound.length_eq]
    generalize (if 0 < limit then limit - (found.length : Int) else 0) = room
    have hnext : List.Forall₂ (Twins a b) (found ++ a.selectIn tag name room n)
        (found' ++ b.selectIn tag name room m) :=
      List.rel_append hfound (twins_selectIn hnm tag name room)
    rw [← hnext.length_eq]
    split
    · exact hnext
    · exact ih hnext

theorem twins_membersOf {s t : SymbolRef} (h : Twins a b s t) (list : MemberList) :
    List.Forall₂ (Twins a b) (a.membersOf s list) (b.membersOf t list) := by
  obtain ⟨hentity, halike⟩ := h
  have hfiles := halike
  obtain ⟨f, g, hf, hg, hfg⟩ := halike
  simp only [membersOf, hf, hg, hentity, Option.bind_some]
  rcases hfg.both s.entity with ⟨he, he'⟩ | ⟨e, e', he, he', -⟩
  · simp only [he, he']
    exact .nil
  · simp only [he, he', hfg.members he he' list]
    exact twins_of_alike hfiles _

end Twins

namespace Mirrors

variable {a b : Atlas} (h : Mirrors a b)

include h

theorem loaded : List.Forall₂ (FilesAlike a b) a.registry.loaded b.registry.loaded := by
  rw [Registry.loaded, Registry.loaded, List.forall₂_map_left_iff, List.forall₂_map_right_iff]
  refine h.entries.imp ?_
  rintro x y ⟨-, f, g, hf, hg, hfg⟩
  exact ⟨f, g, hf, hg, hfg.alike⟩

/-! ### Snapshots and tallies -/

theorem snapshot_eq : b.snapshot = a.snapshot := by
  have hfiles : ∀ {xs ys : List (String × Nat)}, List.Forall₂ (EntriesMirror a b) xs ys →
      (ys.filterMap fun y => (b.fileSnapshot? y.2).map fun s => (y.1, s)) =
        xs.filterMap fun x => (a.fileSnapshot? x.2).map fun s => (x.1, s) := by
    intro xs ys hxy
    induction hxy with
    | nil => rfl
    | cons hxy _ ih =>
      obtain ⟨hname, f, g, hf, hg, hfg⟩ := hxy
      simp only [List.filterMap_cons, fileSnapshot?, hf, hg, hname, Option.map_some,
        hfg.snapshot_eq]
      exact congrArg _ ih
  have hwritten : b.snapshot.files = a.snapshot.files := hfiles h.entries
  rw [snapshot, snapshot, h.directory]
  exact congrArg (AtlasSnapshot.mk _ _) hwritten

theorem filesAt_loaded :
    (b.registry.filesAt b.registry.loaded).map (fun f => (f.symbolCount, f.size)) =
      (a.registry.filesAt a.registry.loaded).map fun f => (f.symbolCount, f.size) := by
  have hfiles : ∀ {xs ys : List (String × Nat)}, List.Forall₂ (EntriesMirror a b) xs ys →
      (b.registry.filesAt (ys.map (·.2))).map (fun f => (f.symbolCount, f.size)) =
        (a.registry.filesAt (xs.map (·.2))).map fun f => (f.symbolCount, f.size) := by
    intro xs ys hxy
    induction hxy with
    | nil => rfl
    | cons hxy _ ih =>
      obtain ⟨-, f, g, hf, hg, hfg⟩ := hxy
      rw [List.map_cons, List.map_cons, Registry.filesAt_cons hf, Registry.filesAt_cons hg,
        List.map_cons, List.map_cons, hfg.symbolCount_eq, hfg.size, ih]
  exact hfiles h.entries

/-- The tallies of indexed files agree where nothing waits for its replacement. -/
theorem tally_eq (ha : a.registry.Coherent) (hb : b.registry.Coherent)
    (hra : a.registry.replaced = []) (hrb : b.registry.replaced = []) :
    b.registry.tally.loaded = a.registry.tally.loaded ∧
      b.registry.tally.symbols = a.registry.tally.symbols ∧
      b.registry.tally.size = a.registry.tally.size := by
  have hheld : ∀ r : Registry, r.replaced = [] → r.held = r.loaded := by
    intro r hr
    rw [Registry.held, hr]
    exact List.append_nil _
  have hca := ha.counts
  have hcb := hb.counts
  rw [hheld _ hra] at hca
  rw [hheld _ hrb] at hcb
  have hfiles := h.filesAt_loaded
  have hsymbols := congrArg (List.map fun x : Nat × Option Int => (x.1 : Int)) hfiles
  have hsizes := congrArg (List.map fun x : Nat × Option Int => x.2.getD 0) hfiles
  rw [List.map_map, List.map_map] at hsymbols hsizes
  refine ⟨?_, ?_, ?_⟩
  · have hlength := congrArg List.length hfiles
    rw [List.length_map, List.length_map] at hlength
    rw [hca.loaded, hcb.loaded, hlength]
  · rw [hca.symbols, hcb.symbols]
    exact congrArg List.sum hsymbols
  · rw [hca.size, hcb.size]
    exact congrArg List.sum hsizes

/-! ### Questions -/

theorem twins_select (tag : String) (name : Option String) (limit limit' : Option Int)
    (hlimit : limit'.getD b.settings.limits.queryDefault =
      limit.getD a.settings.limits.queryDefault) :
    List.Forall₂ (Twins a b) (a.select tag name limit) (b.select tag name limit') := by
  rw [select, select, hlimit]
  exact twins_selectFrom tag name _ h.loaded .nil

theorem mergedNamespace?_eq (name : String) :
    (b.mergedNamespace? name).map b.describeNamespace =
      (a.mergedNamespace? name).map a.describeNamespace := by
  have htwins := h.twins_select Kind.namespaceDecl.tag (some (Qualified.canonical name)) (some 0)
    (some 0) rfl
  unfold mergedNamespace?
  simp only
  generalize a.select Kind.namespaceDecl.tag (some (Qualified.canonical name)) (some 0) = found
    at htwins ⊢
  generalize b.select Kind.namespaceDecl.tag (some (Qualified.canonical name)) (some 0) = found'
    at htwins ⊢
  have hlists : ∀ list,
      b.references (if isMerged list then found'.flatMap (b.membersOf · list) else []) =
        a.references (if isMerged list then found.flatMap (a.membersOf · list) else []) := by
    intro list
    split
    · refine references_of_twins (List.rel_flatMap htwins ?_)
      exact fun s t hst => twins_membersOf hst list
    · rfl
  cases htwins with
  | nil => rfl
  | cons hst hrest => simp only [Option.map_some, describeNamespace, hlists]

/-- A name is indexed in both atlases or in none. -/
theorem get?_cases (ha : a.registry.Coherent) (hb : b.registry.Coherent) (name : String) :
    (a.get? name = none ∧ b.get? name = none) ∨
      ∃ n m, a.get? name = some n ∧ b.get? name = some m ∧ FilesAlike a b n m := by
  rw [get?, get?, Registry.get?_eq_loadedEntries ha.entries_distinct,
    Registry.get?_eq_loadedEntries hb.entries_distinct]
  have hentries := h.entries
  generalize a.registry.loadedEntries = xs at hentries ⊢
  generalize b.registry.loadedEntries = ys at hentries ⊢
  induction hentries with
  | nil => exact Or.inl ⟨rfl, rfl⟩
  | @cons x y xs ys hxy _ ih =>
    obtain ⟨k, n⟩ := x
    obtain ⟨k', m⟩ := y
    obtain ⟨hname, f, g, hf, hg, hfg⟩ := hxy
    simp only at hname
    rw [Ledger.get?_cons, Ledger.get?_cons, hname]
    split
    · exact Or.inr ⟨n, m, rfl, rfl, f, g, hf, hg, hfg.alike⟩
    · exact ih

theorem scopeAt_eq (ha : a.registry.Coherent) (hb : b.registry.Coherent) (name : String)
    (offset : Int) :
    b.reference? (b.scopeAt name offset) = a.reference? (a.scopeAt name offset) := by
  rcases h.get?_cases ha hb name with ⟨hn, hm⟩ | ⟨n, m, hn, hm, halike⟩
  · simp only [scopeAt, hn, hm]
    rfl
  · have hfiles := halike
    obtain ⟨f, g, hf, hg, hfg⟩ := halike
    have hscope : a.scopeAt name offset = some ⟨n, f.outline.scopeAt offset 0⟩ := by
      simp [scopeAt, hn, hf]
    have hscope' : b.scopeAt name offset = some ⟨m, f.outline.scopeAt offset 0⟩ := by
      simp [scopeAt, hm, hg, hfg.scopeAt]
    have htwins : Twins a b ⟨n, f.outline.scopeAt offset 0⟩ ⟨m, f.outline.scopeAt offset 0⟩ :=
      ⟨rfl, hfiles⟩
    rw [hscope, hscope', reference?, reference?, Option.map_some, Option.map_some,
      htwins.reference]

end Mirrors

end Atlas

end SymbolAtlas
