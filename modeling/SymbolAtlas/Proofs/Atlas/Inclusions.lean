import Mathlib
import SymbolAtlas.Proofs.Atlas.Adoption
import SymbolAtlas.Proofs.Atlas.Tended
import SymbolAtlas.Proofs.SourceFile.Stems

/-!
# Where includes lead after a scan

An index that is only ever given its own kind's snapshots never meets a directive that led to
something that is no name, so every scan of it gets to its end, unless there is a name whose refresh
comes to no result; and at the end every literal path of an indexed file leads to what it stands
for, as seen from where the file stems (`Course.Tended.link_of_scan`).  Being renamed does not
change where a file stems from, and a file that was taken over keeps to where its directives led
when it was written down.
-/

namespace SymbolAtlas

open SourceFile

/-! ## Snapshots that were written down -/

namespace EntitySnapshot

theorem payloadField_resolved (e : Entity) (id : Nat) (nameOf : Nat → Option String) :
    ((e.snapshot id nameOf).payloadField "resolved").isNameOrFalsy = true := by
  obtain ⟨detail, name, parent, span, doc⟩ := e
  cases detail with
  | scope kind body => cases kind <;> rfl
  | «variable» => rfl
  | external inc =>
    obtain ⟨target, once, require, link⟩ := inc
    cases link with
    | file n => exact Value.isNameOrFalsy_ofText? (nameOf n)
    | _ => rfl

end EntitySnapshot

namespace SourceFile

theorem linksByName_snapshot (f : SourceFile) (nameOf : Nat → Option String) :
    (f.snapshot nameOf).linksByName = true := by
  have hfrom : ∀ (i : Nat) (es : List Entity), ∀ e ∈ snapshotsFrom nameOf i es,
      e.ledToName = true := by
    intro i es
    induction es generalizing i with
    | nil =>
      intro e he
      cases he
    | cons first rest ih =>
      intro e he
      rcases List.mem_cons.1 he with rfl | he
      · rw [EntitySnapshot.ledToName, EntitySnapshot.payloadField_resolved, Bool.or_true]
      · exact ih (i + 1) e he
  exact List.all_eq_true.2 (hfrom 0 f.heldEntities)

end SourceFile

/-- The directives of a snapshot that was written down lead to names, or nowhere. -/
theorem Atlas.linksByName_snapshot (a : Atlas) : a.snapshot.linksByName = true := by
  rw [AtlasSnapshot.linksByName, List.all_eq_true]
  intro entry hentry
  obtain ⟨⟨name, n⟩, -, hn⟩ := List.mem_filterMap.1 hentry
  obtain ⟨s, hs, rfl⟩ := Option.map_eq_some_iff.1 hn
  obtain ⟨f, -, rfl⟩ := Option.map_eq_some_iff.1 hs
  exact f.linksByName_snapshot _

theorem FileSnapshot.queuesTexts_restore {s : FileSnapshot} {f : SourceFile}
    (h : s.restore = .ok f) (hs : s.linksByName = true) : f.QueuesTexts := by
  intro q hq c hc
  obtain ⟨inc, -, hcandidates⟩ := (queues_restore h).sound q hq
  have hhit := relink_ok_iff.1 ((relink_restore_iff h default).2 hs) q hq
  rw [hcandidates, Registry.firstHit_candidates_ok_iff] at hhit
  exact isText_of_mem_candidates hhit (hcandidates ▸ hc)

/-! ## Files of known origin -/

namespace SourceFile

/-- The names that the directives of a file may lead to are texts, and they are those found where
the file stems, unless it has no directives. -/
structure Rooted (f : SourceFile) : Prop where
  texts : f.QueuesTexts
  stems : (∀ i, f.directive? i = none) ∨ ∃ origin before, f.Stems origin before

/-- An empty shell still holds the file itself, and nothing else. -/
theorem directive?_detach (f : SourceFile) (i : Nat) :
    f.detach.directive? i = if i = 0 then f.directive? 0 else none := by
  have hscattered : ∀ e : Entity, Entity.inclusion?
      { (e.mapBody fun _ => { closed := true }) with parent := none } = e.inclusion? := by
    rintro ⟨detail, name, parent, span, doc⟩
    cases detail <;> rfl
  simp only [directive?, detach, Outline.get?, Outline.scattered, Array.getElem?_extract,
    Array.size_map, Array.getElem?_map, Nat.zero_add, Nat.sub_zero]
  by_cases hi : i = 0
  · subst hi
    by_cases hsize : 0 < f.outline.entities.size
    · rw [if_pos (by omega), if_pos rfl, Option.bind_map]
      exact congrArg _ (funext hscattered)
    · rw [if_neg (by omega), if_pos rfl, Array.getElem?_eq_none (Nat.le_of_not_lt hsize)]
  · rw [if_neg (by omega), if_neg hi, Option.bind_none]

theorem isLasting_rooted : IsLasting Rooted where
  detach := by
    rintro f ⟨-, hstems⟩
    have hfile : f.directive? 0 = none := by
      rcases hstems with hnone | ⟨origin, before, hstems⟩
      · exact hnone 0
      · exact hstems.directive?_zero
    have hqueue : f.detach.QueuesTexts := by
      intro q hq
      cases hq
    refine ⟨hqueue, .inl fun i => ?_⟩
    rw [directive?_detach, hfile, ite_self]
  rename := by
    rintro f name ⟨htexts, hstems⟩
    refine ⟨htexts, hstems.imp ?_ ?_⟩
    · intro hnone i
      rw [directive?_rename, hnone]
    · rintro ⟨origin, before, hf⟩
      exact ⟨origin, before, hf.renamed name⟩
  relink := by
    rintro f resolve ⟨htexts, hstems⟩
    refine ⟨htexts.relinked (.single f resolve), hstems.imp ?_ ?_⟩
    · intro hnone i
      have hbare : (f.relink resolve).1.outline.bares = f.outline.bares := f.upToLinks_relink.bares
      rw [← Option.map_eq_none_iff (f := Inclusion.bare), bare_directive?, hbare,
        ← bare_directive?, hnone, Option.map_none]
    · rintro ⟨origin, before, hf⟩
      exact ⟨origin, before, hf.relinked resolve⟩

theorem rooted_ofTree (name : String) (tree : Value) (contentHash : Option String)
    (mtime : Option Double) (size : Option Int) :
    (ofTree name tree contentHash mtime size).1.Rooted where
  texts := queuesTexts_ofTree name tree contentHash mtime size
  stems := .inr ⟨name, _, .parsed name tree contentHash mtime size⟩

end SourceFile

/-! ## Links after a scan -/

namespace Atlas

/-- Once the directives of all files were looked up, a literal path leads to what it stands for. -/
theorem link_of_relinkEach {a b : Atlas} (ha : a.registry.Tidy) {missed : Nat}
    (hb : a.relinkEach a.registry.loaded 0 = (b, .ok missed)) {k : String} {n : Nat}
    {g : SourceFile} (hk : b.get? k = some n) (hg : b.file? n = some g) {i : Nat} {inc : Inclusion}
    (hi : g.directive? i = some inc) {path : String} (hpath : inc.path? = some path)
    {origin : String} {before : Nat → Value} (hstems : g.Stems origin before) :
    inc.link = Link.ofHit (b.registry.follow origin (before i) path) := by
  obtain ⟨hbooks, -, heach⟩ := relinkEach_eq_ok ha.nodup_loaded hb
  have hold : a.registry.get? k = some n := by
    rwa [Atlas.get?, Registry.get?, hbooks.entries, ← Registry.get?] at hk
  obtain ⟨f, hf, -⟩ := ha.named (Registry.entry_of_get? hold)
  obtain ⟨g', count, hrelink, hg'⟩ := heach n (Registry.mem_loaded_of_get? hold) f hf
  cases hg.symm.trans hg'
  rw [← hbooks.resolveCandidate] at hrelink
  exact hstems.link_of_relink hrelink hi hpath

end Atlas

namespace Course

theorem Tended.rooted {c : Course} (hc : c.Tended) : c.atlas.registry.AllFiles Rooted := by
  refine Tended.allFiles isLasting_rooted rooted_ofTree ?_ hc
  intro b entry hentry f hf
  have hlinks := List.all_eq_true.1 b.linksByName_snapshot entry hentry
  exact ⟨FileSnapshot.queuesTexts_restore hf hlinks, .inr ⟨_, _, .restored hf⟩⟩

/-- A scan of a tended index comes to a report unless discovery fails or the refresh of a name that
it finds comes to no result.  Then every literal path in an indexed file leads to what it stands
for, as seen from the name under which the file was made and, if it was taken over, from where its
directive led when it was written down. -/
theorem Tended.link_of_scan {c : Course} (hc : c.Tended) {w : World}
    {subPaths : Option (List String)} {width : Nat} {b : Atlas}
    {result : Except ScanFault ScanReport} (hscan : c.atlas.Scans w subPaths width (b, result)) :
    (∃ fault, c.atlas.discover w.disk subPaths = .error fault ∧
      result = .error (.discovery fault)) ∨
    (∃ names, c.atlas.discover w.disk subPaths = .ok names ∧
      (∃ name ∈ names, ¬ c.atlas.Settles w name) ∧ ∃ crash, result = .error (.crashed crash)) ∨
    (∃ report, result = .ok report) ∧
      ∀ k n g i inc path, b.get? k = some n → b.file? n = some g → g.directive? i = some inc →
        inc.path? = some path →
        (∃ origin before, g.Stems origin before) ∧
          ∀ origin before, g.Stems origin before →
            inc.link = Link.ofHit (b.registry.follow origin (before i) path) := by
  have hrooted := hscan.allFiles isLasting_rooted rooted_ofTree hc.rooted
  have htexts : c.atlas.QueuesTexts := fun _ n f _ hf => (hc.rooted n f hf).texts
  rcases hscan.outcome hc.sound.registry htexts with ⟨fault, hfault, hout⟩ |
    ⟨names, hnames, ⟨hunsettled, hraised⟩ | ⟨-, s, b', missed, note, hgood, -, -, hb', hout⟩⟩
  · cases hout
    exact .inl ⟨fault, hfault, rfl⟩
  · exact .inr (.inl ⟨names, hnames, hunsettled, hraised⟩)
  · cases hout
    refine .inr (.inr ⟨⟨_, rfl⟩, fun k n g i inc path hk hg hi hpath => ⟨?_, ?_⟩⟩)
    · rcases (hrooted n g hg).stems with hnone | hstems
      · rw [hnone i] at hi
        cases hi
      · exact hstems
    · intro origin before hstems
      exact Atlas.link_of_relinkEach hgood.tidy hb' hk hg hi hpath hstems

end Course

/-! ## Directives that stray from the name of their file -/

namespace Atlas

/-- Every literal path leads to what it stands for, as seen from the present name of its file. -/
def LinkedAsNamed (b : Atlas) : Prop :=
  ∀ k n g i inc path, b.get? k = some n → b.file? n = some g → g.directive? i = some inc →
    inc.path? = some path → inc.link = Link.ofHit (b.registry.follow g.name .null path)

/-- Whether the directive with a number in the file of a name leads to something else. -/
def strays (b : Atlas) (name : String) (i : Nat) : Bool :=
  (b.get? name).any fun n => (b.file? n).any fun g => (g.directive? i).any fun inc =>
    inc.path?.any fun path => inc.link ≠ Link.ofHit (b.registry.follow g.name .null path)

theorem strays_iff {b : Atlas} {name : String} {i : Nat} :
    b.strays name i = true ↔ ∃ n g inc path, b.get? name = some n ∧ b.file? n = some g ∧
      g.directive? i = some inc ∧ inc.path? = some path ∧
        inc.link ≠ Link.ofHit (b.registry.follow g.name .null path) := by
  simp only [strays, Option.any_eq_true, decide_eq_true_eq]
  constructor
  · rintro ⟨n, hn, g, hg, inc, hinc, path, hpath, hlink⟩
    exact ⟨n, g, inc, path, hn, hg, hinc, hpath, hlink⟩
  · rintro ⟨n, g, inc, path, hn, hg, hinc, hpath, hlink⟩
    exact ⟨n, hn, g, hg, inc, hinc, path, hpath, hlink⟩

theorem not_linkedAsNamed_of_strays {b : Atlas} {name : String} {i : Nat}
    (h : b.strays name i = true) : ¬ b.LinkedAsNamed := by
  intro hnamed
  obtain ⟨n, g, inc, path, hn, hg, hinc, hpath, hlink⟩ := strays_iff.1 h
  exact hlink (hnamed name n g i inc path hn hg hinc hpath)

end Atlas

namespace Course

/-- Two sources, each of which includes the first one by its path from the root. -/
def shelfWorld : World where
  disk := { root := .directory [("src", .directory [("lib", .directory
    [("a.php", .file [49] default), ("lib", .directory [("a.php", .file [50] default)])])])] }
  codecs := .common
  parser _ _ := .ok (.list [.object [("kind", .str "include"), ("target", .str "lib/a.php")]])

/-- The first source was parsed, before the second one was there. -/
def shelf : Course :=
  (fresh "/src" {}).performAll
    [.parse { name := "lib/a.php" }, .begin 0 shelfWorld,
      .finish 0 (.parsed shelfWorld.parser { text := "1", content := [49], mtime := default })]

theorem tended_shelf : shelf.Tended := by
  refine (Tended.fresh "/src" {}).performAll ?_
  simp [Move.IsOwn]

/-- Its file was renamed. -/
def movedShelf : Course := shelf.perform (.rename "lib/a.php" "c.php")

/-- It took over its own snapshot. -/
def restoredShelf : Course := shelf.perform (.adopt shelf.atlas.snapshot.toValue)

/-- Whether a scan of both sources gets to its end and leaves a directive that strays. -/
def scanStrays (a : Atlas) (name : String) (i : Nat) : Bool :=
  match a.discover shelfWorld.disk none with
  | .error _ => false
  | .ok names => Scanning.NoneWaits shelfWorld names.length a 0 names ∧
      (a.scan shelfWorld none).2.isOk ∧ (a.scan shelfWorld none).1.strays name i

theorem scans_of_scanStrays {a : Atlas} {name : String} {i : Nat}
    (h : scanStrays a name i = true) : ∃ b report, a.Scans shelfWorld none 1 (b, .ok report) ∧
      b.strays name i = true := by
  rw [scanStrays] at h
  cases hnames : a.discover shelfWorld.disk none with
  | error fault =>
    rw [hnames] at h
    cases h
  | ok names =>
    simp only [hnames, decide_eq_true_eq] at h
    obtain ⟨hall, hok, hstrays⟩ := h
    have hscan : a.Scans shelfWorld none 1 (a.scan shelfWorld none) := by
      refine Atlas.scans_scan Nat.one_pos fun found hfound => ?_
      cases hnames.symm.trans hfound
      exact hall
    match hout : a.scan shelfWorld none with
    | (b, .ok report) =>
      rw [hout] at hscan hstrays
      exact ⟨b, report, hscan, hstrays⟩
    | (b, .error fault) =>
      rw [hout] at hok
      cases hok

theorem scanStrays_movedShelf : scanStrays movedShelf.atlas "c.php" 2 = true := by
  decide +kernel

/-- The renamed file is scanned, and its directive leads where its first name makes it lead. -/
theorem link_of_scan_movedShelf : movedShelf.Tended ∧ ∃ b report,
    movedShelf.atlas.Scans shelfWorld none 1 (b, .ok report) ∧ ∃ n g inc path,
      b.get? "c.php" = some n ∧ b.file? n = some g ∧ g.directive? 2 = some inc ∧
      inc.path? = some path ∧ ∃ origin before, g.Stems origin before ∧
        inc.link = Link.ofHit (b.registry.follow origin (before 2) path) := by
  have htended : movedShelf.Tended := tended_shelf.perform _ trivial
  obtain ⟨b, report, hscan, hstrays⟩ := scans_of_scanStrays scanStrays_movedShelf
  obtain ⟨n, g, inc, path, hn, hg, hinc, hpath, -⟩ := Atlas.strays_iff.1 hstrays
  rcases htended.link_of_scan hscan with ⟨fault, -, hfault⟩ | ⟨names, -, -, crash, hcrash⟩ |
    ⟨-, hlinks⟩
  · cases hfault
  · cases hcrash
  · obtain ⟨⟨origin, before, hstems⟩, hlink⟩ := hlinks "c.php" n g 2 inc path hn hg hinc hpath
    exact ⟨htended, b, report, hscan, n, g, inc, path, hn, hg, hinc, hpath, origin, before, hstems,
      hlink origin before hstems⟩

/-- What is written down of its file. -/
def shelfSnapshot : FileSnapshot := (shelf.atlas.snapshot.files.map Prod.snd).headD default

theorem files_shelf : shelf.atlas.snapshot.files = [("lib/a.php", shelfSnapshot)] := by
  have hkeys : shelf.atlas.snapshot.files.keys = ["lib/a.php"] := by decide +kernel
  rw [shelfSnapshot]
  generalize shelf.atlas.snapshot.files = files at *
  match files, hkeys with
  | [(_, _)], rfl => rfl

/-- The index after it took over the file. -/
def restocked (f : SourceFile) : Atlas :=
  let a := shelf.atlas.replaced shelf.atlas.snapshot [("lib/a.php", f)]
  match a.relinkEach a.registry.loaded 0 with
  | (a, .error _) => a
  | (a, .ok missed) => a.note (.cacheLoaded 1 missed)

/-- Sorting does not compute in a closed term, but the entities stand in order already. -/
theorem restore_shelfSnapshot : ∃ f, shelfSnapshot.restore = .ok f ∧
    scanStrays (restocked f) "lib/a.php" 2 = true := by
  have hany : shelfSnapshot.restore.toOption.any
      (fun f => scanStrays (restocked f) "lib/a.php" 2) = true := by
    unfold FileSnapshot.restore FileSnapshot.outline?
    rw [FileSnapshot.inOrder_of_pairwise (by decide +kernel)]
    decide +kernel
  cases hf : shelfSnapshot.restore with
  | error fault =>
    rw [hf] at hany
    cases hany
  | ok f =>
    rw [hf, Except.toOption, Option.any_some] at hany
    exact ⟨f, rfl, hany⟩

theorem scanStrays_restoredShelf : scanStrays restoredShelf.atlas "lib/a.php" 2 = true := by
  obtain ⟨f, hf, hstrays⟩ := restore_shelfSnapshot
  have hfiles : restoreAll shelf.atlas.snapshot.files = .ok [("lib/a.php", f)] := by
    rw [files_shelf, restoreAll, hf]
    rfl
  have hatlas : restoredShelf.atlas = restocked f := by
    obtain ⟨b, missed, hlinked⟩ :=
      shelf.atlas.relinkEach_replaced hfiles shelf.atlas.linksByName_snapshot
    have hrestocked : restocked f = b.note (.cacheLoaded 1 missed) := by
      simp only [restocked, hlinked]
    unfold Atlas.replaced at hlinked
    show (shelf.atlas.adopt shelf.atlas.snapshot.toValue).1 = _
    rw [shelf.atlas.adopt_of_check rfl (AtlasSnapshot.check_toValue _), Atlas.takeOver, hfiles,
      hrestocked]
    simp only [hlinked]
    rfl
  rw [hatlas]
  exact hstrays

/-- Neither after a renaming nor after a snapshot was taken over need a directive lead to what its
path stands for, as seen from the name of its file. -/
theorem not_linkedAsNamed_shelf :
    (movedShelf.Tended ∧ ∃ b report,
      movedShelf.atlas.Scans shelfWorld none 1 (b, .ok report) ∧ ¬ b.LinkedAsNamed) ∧
    restoredShelf.Tended ∧ ∃ b report,
      restoredShelf.atlas.Scans shelfWorld none 1 (b, .ok report) ∧ ¬ b.LinkedAsNamed := by
  constructor
  · obtain ⟨b, report, hscan, hstrays⟩ := scans_of_scanStrays scanStrays_movedShelf
    exact ⟨tended_shelf.perform _ trivial, b, report, hscan,
      Atlas.not_linkedAsNamed_of_strays hstrays⟩
  · obtain ⟨b, report, hscan, hstrays⟩ := scans_of_scanStrays scanStrays_restoredShelf
    exact ⟨tended_shelf.perform _ ⟨shelf.atlas, rfl⟩, b, report, hscan,
      Atlas.not_linkedAsNamed_of_strays hstrays⟩

end Course

end SymbolAtlas
