import Mathlib
import SymbolAtlas.Proofs.Atlas.Histories
import SymbolAtlas.Proofs.Atlas.Inclusions
import SymbolAtlas.Proofs.SourceFile.Unresolved

/-!
# Links after all files were looked up

A scan that comes to its report, and a snapshot that is taken over, look up the directives of every
indexed file at the end (`Atlas.Relinks`).  From then on no link leads to a file that is not indexed
under its own name, and another look-up finds nothing to change (`Atlas.Linked`).  It takes that
every directive is queued, or can lead nowhere, and that the names of files agree with the names
they are indexed under; both hold throughout every history, whatever was parsed, taken out or
renamed before (`Atlas.History.linked_of_relinks`).
-/

namespace SymbolAtlas

open Registry SourceFile

/-- No file that is indexed has a link that is out of date. -/
structure Atlas.Linked (b : Atlas) : Prop where
  /-- An indexed file is there. -/
  exists_file : ∀ {k n}, b.get? k = some n → ∃ f, b.file? n = some f
  /-- A directive leads nowhere, or to a file that is indexed under its own name. -/
  links : ∀ {k n f i inc}, b.get? k = some n → b.file? n = some f → f.directive? i = some inc →
    inc.link = .unresolved ∨ ∃ m g, inc.link = .file m ∧ b.file? m = some g ∧
      b.get? g.name = some m ∧ g.detached = false
  /-- Looking up the directives of a file again changes nothing, and counts those that are queued
  and lead nowhere. -/
  again : ∀ {k n f}, b.get? k = some n → b.file? n = some f →
    (b.relink n).1.registry = b.registry ∧ (b.relink n).2 = .ok f.unresolved.length

namespace Registry

/-- What the first of some names leads to is indexed under its own name. -/
theorem Coherent.exists_of_firstHit {r : Registry} (hr : r.Coherent) {candidates : List Value}
    {n : Nat} (h : firstHit r.resolveCandidate candidates = .ok (some n)) :
    ∃ f, r.files[n]? = some f ∧ r.get? f.name = some n ∧ f.detached = false := by
  obtain ⟨c, -, hc⟩ := mem_of_firstHit_some h
  obtain ⟨s, k, -, -, hk⟩ := get?_of_resolveCandidate hc
  obtain ⟨f, hf, hentered⟩ := hr.named (entry_of_get? hk)
  exact ⟨f, hf, hentered.name_eq.symm ▸ hk, hentered.detached⟩

/-- Looking up the directives of a file that does not change by it changes nothing. -/
theorem relink_of_eq {r : Registry} {n missed : Nat} {f : SourceFile} (hf : r.files[n]? = some f)
    (h : f.relink r.resolveCandidate = (f, .ok missed)) : r.relink n = (r, .ok missed) := by
  have hfiles : r.files.modify n (fun _ => f) = r.files := by
    refine Array.ext_getElem? fun m => ?_
    rw [Array.getElem?_modify]
    split
    · rename_i hm
      rw [← hm, hf, Option.map_some]
    · rfl
  simp only [Registry.relink, hf, h, modifyFile, hfiles]

end Registry

namespace Atlas

theorem Linked.congr {b b' : Atlas} (h : b.Linked) (hr : b'.registry = b.registry) :
    b'.Linked := by
  have hget : ∀ k, b'.get? k = b.get? k := fun k => by rw [Atlas.get?, Atlas.get?, hr]
  have hfile : ∀ n, b'.file? n = b.file? n := fun n => by rw [file?, file?, hr]
  refine ⟨fun hk => ?_, fun hk hf hi => ?_, fun {k n f} hk hf => ?_⟩
  · rw [hfile]
    exact h.exists_file (hget _ ▸ hk)
  · simp only [hget, hfile]
    exact h.links (hget _ ▸ hk) (hfile _ ▸ hf) hi
  · have hagain := h.again (hget k ▸ hk) (hfile n ▸ hf)
    rw [registry_relink, snd_relink] at hagain ⊢
    rwa [hr]

/-- Once the directives of all files of a coherent registry were looked up, no link is out of
date. -/
theorem linked_of_relinkEach {a b : Atlas} (ha : a.registry.Coherent) (hl : a.registry.Lineage)
    {missed : Nat} (hb : a.relinkEach a.registry.loaded 0 = (b, .ok missed)) : b.Linked := by
  obtain ⟨hbooks, -, heach⟩ := relinkEach_eq_ok ha.nodup_loaded hb
  have hcoherent := coherent_relinkEach ha hb
  -- an indexed file is one of before whose directives were looked up among the present names
  have hfile : ∀ {k : String} {n : Nat}, b.get? k = some n → ∃ (f g : SourceFile) (origin : String)
      (count : Nat), b.file? n = some g ∧ f.Made origin ∧
        f.relink b.registry.resolveCandidate = (g, .ok count) := by
    intro k n hk
    have hold : a.get? k = some n := by
      rwa [Atlas.get?, Registry.get?, hbooks.entries, ← Registry.get?] at hk
    obtain ⟨f, origin, hf, -, -, hmade⟩ := ha.made hl (entry_of_get? hold)
    obtain ⟨g, count, hrelink, hg⟩ := heach n (mem_loaded_of_get? hold) f hf
    rw [← hbooks.resolveCandidate] at hrelink
    exact ⟨f, g, origin, count, hg, hmade, hrelink⟩
  refine ⟨fun hk => ?_, fun {k n g i inc} hk hg hi => ?_, fun {k n g} hk hg => ?_⟩
  · obtain ⟨-, g, -, -, hg, -⟩ := hfile hk
    exact ⟨g, hg⟩
  · obtain ⟨f, g', origin, count, hg', hmade, hrelink⟩ := hfile hk
    cases hg.symm.trans hg'
    obtain ⟨before, hqueues⟩ := hmade.sound.queues
    obtain ⟨hlink, hit, hhit⟩ := hqueues.link_relink hrelink hi
    rw [linkTo, hhit] at hlink
    cases hit with
    | none => exact .inl hlink
    | some m =>
      obtain ⟨target, htarget, hname, hd⟩ := hcoherent.exists_of_firstHit hhit
      exact .inr ⟨m, target, hlink, htarget, hname, hd⟩
  · obtain ⟨f, g', origin, count, hg', hmade, hrelink⟩ := hfile hk
    cases hg.symm.trans hg'
    have hagain := relink_of_eq hg (hmade.relink_again hrelink)
    rw [registry_relink, snd_relink, hagain]
    exact ⟨rfl, rfl⟩

/-- An operation that looks up all directives at its end, and gets to its end: a scan that comes to
a report, or a snapshot that is taken over. -/
inductive Relinks (a : Atlas) : Atlas → Prop
  | scan {disk : Disk} {subPaths : Option (List String)} {names : List String} {width : Nat}
      {s : Scanning} {b : Atlas} {report : ScanReport}
      (hnames : a.discover disk subPaths = .ok names)
      (hrun : Scanning.Unfolds width names.length { atlas := a, waiting := names } s)
      (hended : s.Ended) (hclose : s.close names.length = (b, .ok report)) : Relinks a b
  | adopt {data : Value} {b : Atlas} (hdata : Session.HasDistinctFiles data)
      (hadopt : a.adopt data = (b, .ok ())) : Relinks a b

theorem Relinks.operation {a b : Atlas} (h : a.Relinks b) : a.Operation b := by
  cases h with
  | @scan _ _ names _ s _ _ hnames hrun hended hclose =>
    have hop : a.Operation (s.close names.length).1 := .scan hnames hrun hended
    rwa [hclose] at hop
  | adopt hdata hadopt =>
    have hop := Operation.adopt (a := a) _ hdata
    rwa [hadopt] at hop

theorem Scans.relinks {a b : Atlas} {w : World} {subPaths : Option (List String)} {width : Nat}
    {report : ScanReport} (h : a.Scans w subPaths width (b, .ok report)) : a.Relinks b := by
  generalize hout : ((b, .ok report) : Atlas × Except ScanFault ScanReport) = out at h
  cases h with
  | undiscovered hfault => cases hout
  | ended hnames hrun hended => exact .scan hnames hrun.unfolds hended hout.symm
  | raised hnames hrun hcrash => cases hout

/-- Such an operation takes everything out, or ends with looking up the directives of all files. -/
theorem Relinks.cases_relinkEach {a b : Atlas} (h : a.Relinks b) :
    (∀ k, b.get? k = none) ∨ ∃ a₁ b₁ missed, a.Proceeds a₁ ∧
      a₁.relinkEach a₁.registry.loaded 0 = (b₁, .ok missed) ∧ b.registry = b₁.registry := by
  cases h with
  | @scan _ _ names _ s _ _ hnames hrun hended hclose =>
    refine .inr ?_
    rw [Scanning.close, conclude] at hclose
    split at hclose
    · cases hclose
    split at hclose
    · cases hclose
    · rename_i b₁ missed hb₁
      cases hclose
      exact ⟨s.atlas, b₁, missed, (hrun.proceeds (a.separate_discovered hnames)).1, hb₁, rfl⟩
  | @adopt data _ hdata hadopt =>
    have hcases := registry_adopt_of_ok (congrArg Prod.snd hadopt)
    rw [hadopt] at hcases
    rcases hcases with rfl | ⟨snapshot, files, b₁, missed, hcheck, hfiles, hb₁, hr⟩
    · exact .inl fun k => rfl
    · exact .inr ⟨_, b₁, missed, .single (proceeds_replaceAll hdata hcheck hfiles), hb₁, hr⟩

/-- Whatever operations went before, a scan that comes to its report and a snapshot that is taken
over leave no link out of date. -/
theorem History.linked_of_relinks {permitted : Registry → String → String → Prop} {a b : Atlas}
    (ha : History permitted a) (h : a.Relinks b) : b.Linked := by
  rcases h.cases_relinkEach with hnone | ⟨a₁, b₁, missed, hproceeds, hb₁, hr⟩
  · refine ⟨fun hk => ?_, fun hk => ?_, fun hk => ?_⟩
    all_goals
      rw [hnone] at hk
      cases hk
  · have hcoherent := Registry.Proceeds.keep_of_steps Registry.Proceeds.coherent hproceeds
      ha.coherent
    have hlineage := Registry.Proceeds.keep_of_steps Registry.Proceeds.lineage hproceeds ha.lineage
    exact (linked_of_relinkEach hcoherent hlineage hb₁).congr hr

/-- One of two sources was refreshed, and its file was renamed. -/
def renamedShelf : Atlas :=
  ((Course.fresh "/src" {}).atlas.refresh Course.shelfWorld { name := "lib/a.php" }).1.rename
    "lib/a.php" "c.php"

/-- A scan finds both sources, and the links of all three files are in order: the renamed one now
includes a file that was not there before. -/
theorem linked_of_relinks_renamedShelf :
    ∃ b report, renamedShelf.scan Course.shelfWorld none = (b, .ok report) ∧ b.Linked ∧
      b.registry.loaded = [0, 1, 2] ∧
      (b.file? 0).bind (fun f => (f.directive? 2).map Inclusion.link) = some (.file 2) := by
  have hhistory : History (fun _ _ _ => True) renamedShelf :=
    .rename (.operate (.empty "/src" {}) (operation_refresh _ _ _)) trivial
  have hall : Scanning.NoneWaits Course.shelfWorld 2 renamedShelf 0
      ["lib/a.php", "lib/lib/a.php"] := by
    decide +kernel
  have hdiscover : (renamedShelf.discover Course.shelfWorld.disk none).toOption =
      some ["lib/a.php", "lib/lib/a.php"] := by decide +kernel
  have hloaded : (renamedShelf.scan Course.shelfWorld none).1.registry.loaded = [0, 1, 2] := by
    decide +kernel
  have hlink : ((renamedShelf.scan Course.shelfWorld none).1.file? 0).bind
      (fun f => (f.directive? 2).map Inclusion.link) = some (.file 2) := by decide +kernel
  have hok : (renamedShelf.scan Course.shelfWorld none).2.isOk = true := by decide +kernel
  have hscan : renamedShelf.Scans Course.shelfWorld none 1
      (renamedShelf.scan Course.shelfWorld none) := by
    refine scans_scan Nat.one_pos fun names hnames => ?_
    rw [hnames] at hdiscover
    cases hdiscover
    exact hall
  generalize renamedShelf.scan Course.shelfWorld none = out at hscan hloaded hlink hok
  obtain ⟨b, fault | report⟩ := out
  · cases hok
  · exact ⟨b, report, rfl, hhistory.linked_of_relinks hscan.relinks, hloaded, hlink⟩

end Atlas

end SymbolAtlas
