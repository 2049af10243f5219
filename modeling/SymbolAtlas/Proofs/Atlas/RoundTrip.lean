import Mathlib
import SymbolAtlas.Proofs.Atlas.Lineage
import SymbolAtlas.Proofs.Atlas.Mirror
import SymbolAtlas.Proofs.Registry.Targets

/-!
# Atlases written down and taken over

Taking over the snapshot of an atlas whose files are settled restores every file, enters it under
its name and links it; the result mirrors the atlas (`Atlas.adopt_snapshot`).  The files of a
session are settled once they have been linked, if they still bear the names under which they were
made and their namespaces have canonical names (`Session.settled_relinkEach`).  So nothing is lost
on the way from one atlas to another (`Session.snapshot_roundTrip`); only a query without a limit
depends on the settings of the atlas that is asked (`Session.roundTrip_default_limit`).
-/

namespace SymbolAtlas

/-! ## Restored files -/

namespace SourceFile

open Outline

/-- The file can be written down: it is sound, its namespaces have canonical names, and every
directive leads to the first of its candidates that leads to a file. -/
structure Settled (f : SourceFile) (r : Registry) : Prop where
  sound : SoundOutline f.outline
  detached : f.detached = false
  canonical : f.HasCanonicalNames
  linked : ∀ {i inc}, f.directive? i = some inc → ∃ before hit,
    inc.link = linkTo r.resolveCandidate (candidates f.name inc before) ∧
      firstHit r.resolveCandidate (candidates f.name inc before) = .ok hit

section Restored

variable {f g : SourceFile} {r : Registry} (hf : f.Settled r)
  (hg : (f.snapshot r.nameOf).restore = .ok g)

include hf hg

theorem Settled.restored :
    Alike f.outline g.outline ∧ g.contentHash = f.contentHash ∧ g.mtime = f.mtime ∧
      g.size = f.size ∧ g.detached = false ∧ Queues g f.name (f.snapshot r.nameOf).before := by
  obtain ⟨g', hg', hrest⟩ := restore_snapshot r.nameOf hf.sound hf.detached hf.canonical
  rw [hg] at hg'
  cases hg'
  exact hrest

/-- A restored file bears the name of the file already. -/
theorem Settled.rename_restored : g.rename f.name = g := by
  obtain ⟨halike, -⟩ := hf.restored hg
  obtain ⟨e, he, hname⟩ := hf.sound.root
  rcases halike.both 0 with ⟨he₀, -⟩ | ⟨e₀, e', he₀, he', hsame⟩
  · rw [he] at he₀
    cases he₀
  · rw [he] at he₀
    cases he₀
    refine rename_self he' ?_
    rw [← e'.name_plain, hsame, e.name_plain, hname]

/-- A restored directive is that of the file, queued with where that one leads. -/
theorem Settled.directive?_restored {i : Nat} {inc' : Inclusion}
    (hi : (g.directive? i).map Inclusion.bare = some inc'.bare) :
    ∃ inc, f.directive? i = some inc ∧ candidates f.name inc' ((f.snapshot r.nameOf).before i) =
      candidates f.name inc (Value.ofText? (inc.link.target? r.nameOf)) := by
  obtain ⟨halike, -⟩ := hf.restored hg
  rw [bare_directive?_of_alike halike] at hi
  obtain ⟨inc, hinc, hbare⟩ := Option.map_eq_some_iff.1 hi
  refine ⟨inc, hinc, ?_⟩
  rw [before_snapshot r.nameOf hf.detached hinc, candidates_congr hbare]

/-- The directives of a restored file can be looked up in every registry. -/
theorem Settled.relink_restored (r' : Registry) :
    ∃ k, (g.relink r'.resolveCandidate).2 = .ok k := by
  obtain ⟨-, -, -, -, -, hqueues⟩ := hf.restored hg
  rw [relink_ok_iff]
  intro q hq
  obtain ⟨inc', hinc', hc⟩ := hqueues.sound q hq
  obtain ⟨inc, -, hcandidates⟩ := hf.directive?_restored hg (by rw [hinc']; rfl)
  rw [hc, hcandidates, Registry.firstHit_candidates_ok_iff]
  exact Value.isNameOrFalsy_ofText? _

/-- Once linked among the same names, a restored file mirrors the file it comes from. -/
theorem Settled.mirrors_relinked {r' : Registry} (hr : r.Coherent) (hr' : r'.Coherent)
    (hsame : r.SameNames r') {g' : SourceFile} {k : Nat}
    (hrelink : g.relink r'.resolveCandidate = (g', .ok k)) :
    f.Mirrors g' r.nameOf r'.nameOf := by
  obtain ⟨halike, hhash, hmtime, hsize, hdetached, hqueues⟩ := hf.restored hg
  have hlinks : UpToLinks g (g.relink r'.resolveCandidate).1 := g.upToLinks_relink
  rw [hrelink] at hlinks
  refine ⟨halike.trans (hlinks.alike halike.wellOwned'), hlinks.contentHash.trans hhash,
    hlinks.mtime.trans hmtime, hlinks.size.trans hsize, hf.detached,
    hlinks.detached.trans hdetached, ?_⟩
  intro i inc inc' hinc hinc'
  obtain ⟨hlink, -⟩ := hqueues.link_relink hrelink hinc'
  have hbare : (g.directive? i).map Inclusion.bare = some inc'.bare := by
    rw [bare_directive?, ← hlinks.bares, ← bare_directive?, hinc']
    rfl
  obtain ⟨inc₀, hinc₀, hcandidates⟩ := hf.directive?_restored hg hbare
  rw [hinc] at hinc₀
  cases hinc₀
  obtain ⟨before, hit, hlinked, hhit⟩ := hf.linked hinc
  rw [hlink, hcandidates]
  exact Registry.target?_linkTo hr hr' hsame hhit (by rw [hlinked])

end Restored

end SourceFile

/-! ## Entering the restored files -/

namespace Registry

theorem nodup_keys_loadedEntries {r : Registry} (hd : r.entries.keys.Nodup) :
    (Ledger.keys r.loadedEntries).Nodup := by
  refine hd.sublist ?_
  unfold Ledger.keys loadedEntries
  induction r.entries with
  | nil => exact .slnil
  | cons entry rest ih =>
    obtain ⟨k, entry⟩ := entry
    cases entry with
    | loaded n => exact ih.cons_cons k
    | loading l => exact ih.cons k

/-- Files that are entered under new names follow the entries that are there, in their order. -/
theorem enterAll_spec {files : Ledger SourceFile} (hdistinct : files.keys.Nodup) {r : Registry}
    (hnew : ∀ k ∈ files.keys, r.entries.get? k = none) :
    ∃ numbers : List (String × Nat),
      (files.foldl (fun r entry => r.enter entry.1 entry.2) r).entries =
        r.entries ++ numbers.map (fun y => (y.1, .loaded y.2)) ∧
      List.Forall₂ (fun x y => y.1 = x.1 ∧
        (files.foldl (fun r entry => r.enter entry.1 entry.2) r).files[y.2]? =
          some (x.2.rename x.1)) files numbers ∧
      (∀ n, n < r.files.size →
        (files.foldl (fun r entry => r.enter entry.1 entry.2) r).files[n]? = r.files[n]?) ∧
      (files.foldl (fun r entry => r.enter entry.1 entry.2) r).toSite = r.toSite ∧
      (files.foldl (fun r entry => r.enter entry.1 entry.2) r).replaced = r.replaced := by
  induction files generalizing r with
  | nil => exact ⟨[], (List.append_nil _).symm, .nil, fun _ _ => rfl, rfl, rfl⟩
  | cons entry rest ih =>
    obtain ⟨name, f⟩ := entry
    rw [Ledger.keys, List.map_cons, List.nodup_cons] at hdistinct
    obtain ⟨hname, hothers⟩ := List.forall_mem_cons.1 hnew
    have hentries : (r.enter name f).entries = r.entries ++ [(name, .loaded r.files.size)] :=
      Ledger.set_of_get?_eq_none hname _
    have hsize := r.size_enter name f
    obtain ⟨numbers, hnumbers, hfiles, hold, hsite, hreplaced⟩ :=
      ih hdistinct.2 (r := r.enter name f) fun k hk => by
        have hne : k ≠ name := by
          rintro rfl
          exact hdistinct.1 hk
        rw [get?_enter, if_neg hne]
        exact hothers k hk
    refine ⟨(name, r.files.size) :: numbers, ?_, .cons ⟨rfl, ?_⟩ hfiles, ?_, hsite, hreplaced⟩
    · rw [List.foldl_cons, hnumbers, hentries, List.append_assoc]
      rfl
    · rw [List.foldl_cons, hold _ (by omega), files_enter, if_pos rfl]
    · intro n hn
      rw [List.foldl_cons, hold n (by omega), files_enter, if_neg (by omega)]

/-- After replacing everything, the given files are indexed in their order. -/
theorem replaceAll_spec (r : Registry) (directory : Path) {files : Ledger SourceFile}
    (hdistinct : files.keys.Nodup) :
    List.Forall₂ (fun x y => y.1 = x.1 ∧
        (r.replaceAll directory files).files[y.2]? = some (x.2.rename x.1)) files
      (r.replaceAll directory files).loadedEntries ∧
    (r.replaceAll directory files).toSite = ⟨directory, r.realpath⟩ ∧
    (r.replaceAll directory files).replaced = [] := by
  obtain ⟨numbers, hentries, hfiles, -, hsite, hreplaced⟩ :=
    enterAll_spec (r := { r.clear with directory := directory }) hdistinct fun _ _ => rfl
  have hloaded : (r.replaceAll directory files).loadedEntries = numbers := by
    have hall : (r.replaceAll directory files).entries =
        numbers.map fun y => (y.1, .loaded y.2) := hentries
    rw [loadedEntries, hall, List.filterMap_map]
    exact List.filterMap_some
  have hclear : r.clear.realpath = r.realpath :=
    clear_keeps (P := fun s => s.realpath = r.realpath) rfl (fun _ _ hs => hs) fun _ _ hs => hs
  rw [hloaded, ← hclear]
  exact ⟨hfiles, hsite, hreplaced⟩

end Registry

theorem restoreAll_ok {files : Ledger FileSnapshot}
    (h : ∀ entry ∈ files, ∃ f, entry.2.restore = .ok f) :
    ∃ fs, restoreAll files = .ok fs ∧
      List.Forall₂ (fun x y => y.1 = x.1 ∧ x.2.restore = .ok y.2) files fs := by
  induction files with
  | nil => exact ⟨[], rfl, .nil⟩
  | cons entry rest ih =>
    obtain ⟨name, s⟩ := entry
    obtain ⟨⟨f, hf⟩, hrest⟩ := List.forall_mem_cons.1 h
    obtain ⟨fs, hfs, hall⟩ := ih hrest
    refine ⟨(name, f) :: fs, ?_, .cons ⟨rfl, hf⟩ hall⟩
    have hf' : s.restore = .ok f := hf
    rw [restoreAll, hf', hfs]

namespace Atlas

open SourceFile

section Adopt

variable {a : Atlas} (ha : a.registry.Coherent)
  (hsettled : ∀ x ∈ a.registry.loadedEntries,
    ∃ f, a.file? x.2 = some f ∧ f.name = x.1 ∧ f.Settled a.registry)

include hsettled in
theorem settled_of_file? {x : String × Nat} (hx : x ∈ a.registry.loadedEntries) {f : SourceFile}
    (hf : a.file? x.2 = some f) : f.name = x.1 ∧ f.Settled a.registry := by
  obtain ⟨f', hf', hname, hfs⟩ := hsettled x hx
  rw [hf] at hf'
  cases hf'
  exact ⟨hname, hfs⟩

include hsettled in
/-- The files of the snapshot are those of the indexed names, in their order. -/
theorem forall₂_files_snapshot :
    List.Forall₂ (fun x y => y.1 = x.1 ∧ ∃ f, a.file? x.2 = some f ∧
      y.2 = f.snapshot a.registry.nameOf) a.registry.loadedEntries a.snapshot.files := by
  unfold snapshot
  simp only
  generalize a.registry.loadedEntries = entries at hsettled ⊢
  induction entries with
  | nil => exact .nil
  | cons x rest ih =>
    obtain ⟨⟨f, hf, -⟩, hrest⟩ := List.forall_mem_cons.1 hsettled
    have hsnapshot : (a.fileSnapshot? x.2).map (fun s => (x.1, s)) =
        some (x.1, f.snapshot a.registry.nameOf) := by
      rw [fileSnapshot?, hf]
      rfl
    simp only [List.filterMap_cons, hsnapshot]
    exact .cons ⟨rfl, f, hf, rfl⟩ (ih hrest)

include hsettled in
/-- Every file of the snapshot is restored. -/
theorem restoreAll_snapshot :
    ∃ fs, restoreAll a.snapshot.files = .ok fs ∧
      List.Forall₂ (fun x y => y.1 = x.1 ∧ ∃ f, a.file? x.2 = some f ∧
        (f.snapshot a.registry.nameOf).restore = .ok y.2) a.registry.loadedEntries fs := by
  have hfiles := forall₂_files_snapshot hsettled
  have hall : ∀ entry ∈ a.snapshot.files, ∃ g, entry.2.restore = .ok g := by
    intro entry hentry
    obtain ⟨x, hx, -, f, hf, hsnapshot⟩ := forall₂_mem_right hfiles hentry
    obtain ⟨-, hfs⟩ := settled_of_file? hsettled hx hf
    obtain ⟨g, hg, -⟩ := restore_snapshot a.registry.nameOf hfs.sound hfs.detached hfs.canonical
    exact ⟨g, hsnapshot ▸ hg⟩
  obtain ⟨fs, hfs, hrestored⟩ := restoreAll_ok hall
  refine ⟨fs, hfs, forall₂_trans ?_ hfiles hrestored⟩
  rintro x y z ⟨hxy, f, hf, hsnapshot⟩ ⟨hyz, hrestore⟩
  exact ⟨hyz.trans hxy, f, hf, hsnapshot ▸ hrestore⟩

/-- Files that were restored from one atlas stand in another one, in the order of their names. -/
def Replicates (a b : Atlas) : Prop :=
  List.Forall₂ (fun x y => y.1 = x.1 ∧ ∃ f g, a.file? x.2 = some f ∧
    (f.snapshot a.registry.nameOf).restore = .ok g ∧ b.file? y.2 = some g)
    a.registry.loadedEntries b.registry.loadedEntries

include ha hsettled in
/-- Replacing everything by the restored files replicates the atlas. -/
theorem replicates_replaceAll {fs : Ledger SourceFile}
    (hrestored : List.Forall₂ (fun x y => y.1 = x.1 ∧ ∃ f, a.file? x.2 = some f ∧
      (f.snapshot a.registry.nameOf).restore = .ok y.2) a.registry.loadedEntries fs)
    (b : Atlas) (directory : Path) :
    Replicates a (b.onRegistry (·.replaceAll directory fs)) := by
  have hdistinct : fs.keys.Nodup := by
    rw [keys_eq_of_forall₂ hrestored]
    exact Registry.nodup_keys_loadedEntries ha.entries_distinct
  obtain ⟨hentered, -, -⟩ := b.registry.replaceAll_spec directory hdistinct
  have hboth := forall₂_trans (T := fun x y => y.1 = x.1 ∧ ∃ f g, a.file? x.2 = some f ∧
    (f.snapshot a.registry.nameOf).restore = .ok g ∧
      (b.onRegistry (·.replaceAll directory fs)).file? y.2 = some (g.rename x.1)) ?_ hrestored
    hentered
  · refine forall₂_imp_of_mem hboth ?_
    rintro x hx y - ⟨hname, f, g, hf, hg, hfile⟩
    obtain ⟨hfname, hfs⟩ := settled_of_file? hsettled hx hf
    rw [← hfname, hfs.rename_restored hg] at hfile
    exact ⟨hname, f, g, hf, hg, hfile⟩
  · rintro x y z ⟨hxy, f, hf, hg⟩ ⟨hyz, hfile⟩
    refine ⟨hyz.trans hxy, f, y.2, hf, hg, ?_⟩
    rw [← hxy]
    exact hfile

include ha in
theorem sameNames_of_replicates {b : Atlas} (hb : b.registry.Coherent) (h : Replicates a b)
    (hsite : b.registry.toSite = a.registry.toSite) : a.registry.SameNames b.registry where
  site := hsite
  get? := by
    intro k
    have hmem : ∀ {α : Type} (t : Ledger α), (t.get? k).isSome ↔ k ∈ t.keys := by
      intro α t
      rw [Ledger.mem_keys_iff, Option.isSome_iff_exists]
    rw [Registry.get?_eq_loadedEntries ha.entries_distinct,
      Registry.get?_eq_loadedEntries hb.entries_distinct, Bool.eq_iff_iff, hmem, hmem,
      keys_eq_of_forall₂ h]

include ha hsettled in
/-- Linking the restored files makes the replica a mirror. -/
theorem mirrors_relinkEach {b b' : Atlas} (h : Replicates a b) (hb : b.registry.Coherent)
    (hsite : b.registry.toSite = a.registry.toSite) {total : Nat}
    (hlinked : b.relinkEach b.registry.loaded 0 = (b', .ok total)) : Mirrors a b' := by
  obtain ⟨hbooks, -, heach⟩ := relinkEach_eq_ok hb.nodup_loaded hlinked
  have hb' := coherent_relinkEach hb hlinked
  have hentries : b'.registry.loadedEntries = b.registry.loadedEntries := by
    rw [Registry.loadedEntries, Registry.loadedEntries, hbooks.entries]
  have hsame := sameNames_of_replicates ha hb h hsite
  have hsame' : a.registry.SameNames b'.registry := by
    refine ⟨hbooks.site.trans hsame.site, fun k => ?_⟩
    rw [← hsame.get?, Registry.get?, Registry.get?, hbooks.entries]
  refine ⟨congrArg Site.directory hsame'.site, ?_⟩
  rw [hentries]
  refine forall₂_imp_of_mem h ?_
  rintro x hx y hy ⟨hname, f, g, hf, hg, hfile⟩
  obtain ⟨-, hfs⟩ := settled_of_file? hsettled hx hf
  obtain ⟨g', k, hrelink, hfile'⟩ := heach y.2 (List.mem_map.2 ⟨y, hy, rfl⟩) g hfile
  rw [← hbooks.resolveCandidate] at hrelink
  exact ⟨hname, f, g', hf, hfile', hfs.mirrors_relinked hg ha hb' hsame' hrelink⟩

include hsettled in
/-- The files of a replica can be linked. -/
theorem exists_relinkEach {b : Atlas} (h : Replicates a b) :
    ∃ b' total, b.relinkEach b.registry.loaded 0 = (b', .ok total) := by
  refine relinkEach_ok_iff.2 ?_
  intro m hm g hg
  obtain ⟨y, hy, rfl⟩ := List.mem_map.1 hm
  obtain ⟨x, hx, -, f, g', hf, hg', hfile⟩ := forall₂_mem_right h hy
  rw [hg] at hfile
  cases hfile
  exact (settled_of_file? hsettled hx hf).2.relink_restored hg' b.registry

include ha hsettled in
/-- The snapshot of an atlas whose files are settled is taken over by every atlas for which absolute
paths lead to the same places, and which then mirrors the first one. -/
theorem adopt_snapshot (hproper : a.registry.directory.Proper) (b : Atlas)
    (hrealpath : b.registry.realpath = a.registry.realpath) :
    ∃ b', b.adopt a.snapshot.toValue = (b', .ok ()) ∧ Mirrors a b' ∧ b'.registry.Coherent ∧
      b'.registry.replaced = [] ∧ b'.settings = b.settings := by
  obtain ⟨fs, hfs, hrestored⟩ := restoreAll_snapshot hsettled
  have hdistinct : fs.keys.Nodup := by
    rw [keys_eq_of_forall₂ hrestored]
    exact Registry.nodup_keys_loadedEntries ha.entries_distinct
  have hentered : ∀ entry ∈ fs, entry.2.detached = false ∧ 0 < entry.2.outline.size := by
    intro entry hentry
    obtain ⟨s, -, hs⟩ := restore_of_mem_restoreAll hfs hentry
    exact ⟨FileSnapshot.detached_restore hs, (FileSnapshot.wellOwned_restore hs).size_pos⟩
  have hdirectory : Path.parse a.snapshot.directory = a.registry.directory := hproper.parse_render
  obtain ⟨-, hsite, hreplaced⟩ := b.registry.replaceAll_spec a.registry.directory hdistinct
  rw [hrealpath] at hsite
  have hrep := replicates_replaceAll ha hsettled hrestored b a.registry.directory
  have hcoherent : (b.onRegistry (·.replaceAll a.registry.directory fs)).registry.Coherent :=
    .replaceAll _ _ hdistinct hentered
  obtain ⟨b', total, hlinked⟩ := exists_relinkEach hsettled hrep
  have hmirrors := mirrors_relinkEach ha hsettled hrep hcoherent hsite hlinked
  have hcoherent' := coherent_relinkEach hcoherent hlinked
  have hbooks := (relinkEach_eq_ok hcoherent.nodup_loaded hlinked).1
  refine ⟨b'.note (.cacheLoaded fs.length total), ?_, ⟨hmirrors.directory, hmirrors.entries⟩,
    hcoherent', hbooks.replaced.trans hreplaced, hbooks.settings⟩
  have htruthy : a.snapshot.toValue.truthy = true := rfl
  rw [adopt, if_pos htruthy, AtlasSnapshot.check_toValue]
  simp only [takeOver, hfs, hdirectory, hlinked]

end Adopt

end Atlas

namespace Session

open SourceFile

section Linked

variable {s : Session} (hs : Reachable s) {a : Atlas} {missed : Nat}
  (hlinked : s.atlas.relinkEach s.atlas.registry.loaded 0 = (a, .ok missed))
  (hfiles : ∀ n ∈ s.atlas.registry.loaded, ∀ f, s.atlas.file? n = some f →
    f.Made f.name ∧ f.HasCanonicalNames)

include hs hlinked

theorem sameBooks_relinkEach : s.atlas.SameBooks a :=
  (Atlas.relinkEach_eq_ok hs.coherent.registry.nodup_loaded hlinked).1

include hfiles

/-- Linked files that bear the names under which they were made are settled. -/
theorem settled_relinkEach {x : String × Nat} (hx : x ∈ a.registry.loadedEntries) :
    ∃ f, a.file? x.2 = some f ∧ f.name = x.1 ∧ f.Settled a.registry := by
  have hcoherent := hs.coherent.registry
  obtain ⟨hbooks, -, heach⟩ :=
    Atlas.relinkEach_eq_ok hcoherent.nodup_loaded hlinked
  rw [Registry.loadedEntries, hbooks.entries, ← Registry.loadedEntries] at hx
  have hmem : x.2 ∈ s.atlas.registry.loaded := List.mem_map.2 ⟨x, hx, rfl⟩
  have hget : s.atlas.registry.entries.get? x.1 = some (.loaded x.2) := by
    obtain ⟨⟨k, entry⟩, hentry, heq⟩ := List.mem_filterMap.1 hx
    cases entry with
    | loaded n =>
      cases heq
      exact Ledger.get?_of_mem hcoherent.entries_distinct hentry
    | loading l => cases heq
  obtain ⟨f₀, hf₀, hentered⟩ := hcoherent.named hget
  obtain ⟨hmade, hcanonical⟩ := hfiles x.2 hmem f₀ hf₀
  have hsound := hmade.sound
  obtain ⟨before, hqueues⟩ := hsound.queues
  obtain ⟨f, k, hrelink, hf⟩ := heach x.2 hmem f₀ hf₀
  have hlinks : UpToLinks f₀ (f₀.relink s.atlas.registry.resolveCandidate).1 :=
    f₀.upToLinks_relink
  rw [hrelink] at hlinks
  refine ⟨f, hf, hlinks.name_eq.trans hentered.name_eq, ?_⟩
  refine ⟨hsound.toSoundOutline.upToLinks hlinks, hlinks.detached.trans hsound.detached,
    hcanonical.of_alike (hlinks.alike hsound.wellOwned), ?_⟩
  intro i inc hinc
  obtain ⟨hlink, hit, hhit⟩ := hqueues.link_relink hrelink hinc
  rw [hbooks.resolveCandidate, hlinks.name_eq]
  exact ⟨before i, hit, hlink, hhit⟩

/-- Every atlas for which absolute paths lead to the same places takes over the snapshot of a
session and then mirrors it. -/
theorem adopt_relinked (b : Atlas) (hrealpath : b.registry.realpath = a.registry.realpath) :
    ∃ b', b.adopt a.snapshot.toValue = (b', .ok ()) ∧ Atlas.Mirrors a b' ∧
      b'.registry.Coherent ∧ b'.registry.replaced = [] ∧ b'.settings = b.settings := by
  refine Atlas.adopt_snapshot (Atlas.coherent_relinkEach hs.coherent.registry hlinked)
    (fun x hx => settled_relinkEach hs hlinked hfiles hx) ?_ b hrealpath
  rw [(sameBooks_relinkEach hs hlinked).site]
  exact hs.lineage.directory

end Linked

/-- The snapshot of a session without loads under way, taken after all of its files were linked, is
taken over by every atlas in the same file system, where absolute paths lead to the same places,
whatever the atlas holds.  It then has the same snapshot and counts the same
files, and questions are answered by the same references.  A query without a limit is answered alike
if both atlases have the same limit for such queries. -/
theorem snapshot_roundTrip {s : Session} (hs : Reachable s)
    (hidle : ∀ k load, s.atlas.registry.entries.get? k ≠ some (.loading load)) {a : Atlas}
    {missed : Nat} (hlinked : s.atlas.relinkEach s.atlas.registry.loaded 0 = (a, .ok missed))
    (hfiles : ∀ n ∈ s.atlas.registry.loaded, ∀ f, s.atlas.file? n = some f →
      f.Made f.name ∧ f.HasCanonicalNames) (b : Atlas)
    (hrealpath : b.registry.realpath = a.registry.realpath) :
    ∃ b', b.adopt a.snapshot.toValue = (b', .ok ()) ∧
      b'.snapshot.toValue = a.snapshot.toValue ∧
      (b'.registry.tally.loaded = a.registry.tally.loaded ∧
        b'.registry.tally.symbols = a.registry.tally.symbols ∧
        b'.registry.tally.size = a.registry.tally.size) ∧
      (∀ (tag : String) (name : Option String) (limit : Int),
        b'.references (b'.select tag name (some limit)) =
          a.references (a.select tag name (some limit))) ∧
      (b.settings.limits.queryDefault = a.settings.limits.queryDefault →
        ∀ (tag : String) (name : Option String),
          b'.references (b'.select tag name none) = a.references (a.select tag name none)) ∧
      (∀ name : String, (b'.mergedNamespace? name).map b'.describeNamespace =
        (a.mergedNamespace? name).map a.describeNamespace) ∧
      ∀ (name : String) (offset : Int),
        b'.reference? (b'.scopeAt name offset) = a.reference? (a.scopeAt name offset) := by
  obtain ⟨b', hadopt, hmirrors, hcoherent', hreplaced', hsettings⟩ :=
    adopt_relinked hs hlinked hfiles b hrealpath
  have hcoherent := Atlas.coherent_relinkEach hs.coherent.registry hlinked
  have hbooks := sameBooks_relinkEach hs hlinked
  have hreplaced : a.registry.replaced = [] := by
    cases hr : a.registry.replaced with
    | nil => rfl
    | cons entry rest =>
      obtain ⟨k, n⟩ := entry
      have hget : a.registry.replaced.get? k = some n := by
        rw [hr, Ledger.get?_cons, if_pos rfl]
      obtain ⟨load, hload⟩ := hcoherent.awaited hget
      rw [hbooks.entries] at hload
      exact absurd hload (hidle k load)
  refine ⟨b', hadopt, by rw [hmirrors.snapshot_eq],
    hmirrors.tally_eq hcoherent hcoherent' hreplaced hreplaced', ?_, ?_,
    hmirrors.mergedNamespace?_eq, hmirrors.scopeAt_eq hcoherent hcoherent'⟩
  · intro tag name limit
    exact Atlas.references_of_twins (hmirrors.twins_select tag name (some limit) (some limit) rfl)
  · intro hdefault tag name
    refine Atlas.references_of_twins (hmirrors.twins_select tag name none none ?_)
    rw [Option.getD_none, Option.getD_none, hsettings, hdefault]

/-! ## A small session -/

/-- A file with two namespaces, its home and one of its own. -/
def shopTree : Value :=
  .list [.object [("kind", .str "namespace"), ("name", .str "shop")]]

/-- The session that has parsed one file. -/
def shop : Session :=
  let s := fresh "/src" default
  let plan : LoadPlan := { request := { name := "cart" } }
  let load := (s.atlas.start plan).2
  let opened := ((s.atlas.start plan).1.openSource default load).1
  ⟨(opened.settle (fun _ _ => .ok shopTree) load default).1, [], []⟩

theorem reachable_shop : Reachable shop :=
  .step (.step (.step (.fresh "/src" default) (.parse _ { name := "cart" }))
    (.begin _ [] [] [] { number := 0, plan := { request := { name := "cart" } } } default))
    (.settle _ [] [] [] { number := 0, plan := { request := { name := "cart" } } }
      (fun _ _ => .ok shopTree) default)

theorem entries_shop : shop.atlas.registry.entries = [("cart", .loaded 0)] := rfl

theorem idle_shop (k : String) (load : Nat) :
    shop.atlas.registry.entries.get? k ≠ some (.loading load) := by
  rw [entries_shop, Ledger.get?_cons]
  split
  · exact fun h => nomatch h
  · exact fun h => nomatch h

theorem file?_shop : shop.atlas.file? 0 =
    some (ofTree "cart" shopTree (some (Sha256.hex [])) (some default) (some 0)).1 := rfl

/-- The atlas of the session once its file has been linked. -/
def linkedShop : Atlas :=
  (shop.atlas.relinkEach shop.atlas.registry.loaded 0).1

theorem relinkEach_shop :
    shop.atlas.relinkEach shop.atlas.registry.loaded 0 = (linkedShop, .ok 0) := rfl

theorem files_shop (n : Nat) (hn : n ∈ shop.atlas.registry.loaded) (f : SourceFile)
    (hf : shop.atlas.file? n = some f) : f.Made f.name ∧ f.HasCanonicalNames := by
  have hzero : n = 0 := List.mem_singleton.1 hn
  rw [hzero, file?_shop] at hf
  cases hf
  refine ⟨?_, ?_⟩
  · rw [name_ofTree]
    exact .parsed shopTree _ _ _
  · have hnames : ∀ e ∈ (ofTree "cart" shopTree (some (Sha256.hex [])) (some default)
        (some 0)).1.outline.entities.toList, e.kind = .namespaceDecl →
        e.name.isSome ∧ e.name.map Qualified.canonical = e.name := by decide +kernel
    intro i e he hkind
    have hmem := List.mem_of_getElem? (Array.getElem?_toList.trans he)
    obtain ⟨hsome, hcanonical⟩ := hnames e hmem hkind
    obtain ⟨n, hname⟩ := Option.isSome_iff_exists.1 hsome
    rw [hname] at hcanonical
    exact ⟨n, hname, Option.some.inj hcanonical⟩

/-- The snapshot of the small session, taken over by a new atlas. -/
theorem snapshot_roundTrip_shop :
    ∃ b', (Atlas.empty (Path.parse "/other") default).adopt linkedShop.snapshot.toValue =
        (b', .ok ()) ∧
      b'.snapshot.toValue = linkedShop.snapshot.toValue ∧
      b'.registry.tally.symbols = 2 := by
  obtain ⟨b', hadopt, hsnapshot, ⟨-, hsymbols, -⟩, -⟩ := snapshot_roundTrip reachable_shop idle_shop
    relinkEach_shop files_shop (Atlas.empty (Path.parse "/other") default) rfl
  have htwo : linkedShop.registry.tally.symbols = 2 := by decide +kernel
  exact ⟨b', hadopt, hsnapshot, hsymbols.trans htwo⟩

/-- The settings of an atlas that answers a query without a limit by a single entity. -/
def frugal : Settings :=
  { (default : Settings) with limits := { (default : Settings).limits with queryDefault := 1 } }

/-- Without a limit, the atlas that took the snapshot over may answer by fewer references. -/
theorem roundTrip_default_limit :
    Reachable shop ∧ (∀ k load, shop.atlas.registry.entries.get? k ≠ some (.loading load)) ∧
    shop.atlas.relinkEach shop.atlas.registry.loaded 0 = (linkedShop, .ok 0) ∧
    (∀ n ∈ shop.atlas.registry.loaded, ∀ f, shop.atlas.file? n = some f →
      f.Made f.name ∧ f.HasCanonicalNames) ∧
    ∃ b', (Atlas.empty (Path.parse "/other") frugal).adopt linkedShop.snapshot.toValue =
        (b', .ok ()) ∧
      b'.references (b'.select "namespace" none none) ≠
        linkedShop.references (linkedShop.select "namespace" none none) := by
  refine ⟨reachable_shop, idle_shop, relinkEach_shop, files_shop, ?_⟩
  obtain ⟨b', hadopt, hmirrors, -, -, hsettings⟩ := adopt_relinked reachable_shop relinkEach_shop
    files_shop (Atlas.empty (Path.parse "/other") frugal) rfl
  refine ⟨b', hadopt, ?_⟩
  have hone : b'.references (b'.select "namespace" none none) =
      linkedShop.references (linkedShop.select "namespace" none (some 1)) :=
    Atlas.references_of_twins
      (hmirrors.twins_select "namespace" none (some 1) none (by rw [hsettings]; rfl))
  have hlimited : (linkedShop.select "namespace" none (some 1)).length = 1 := by decide +kernel
  have hall : (linkedShop.select "namespace" none none).length = 2 := by decide +kernel
  rw [hone]
  intro heq
  have hlength := congrArg List.length (Value.list.inj heq)
  rw [List.length_map, List.length_map, hlimited, hall] at hlength
  cases hlength

end Session

end SymbolAtlas
