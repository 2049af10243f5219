import Mathlib
import SymbolAtlas.Proofs.Atlas.ScanOrder

/-!
# Indexes that are up to date

An index is up to date with a world on some names if under each of them it shows what a load makes
of the world, a file or a failure, and knows no other name (`Atlas.CurrentOn`).  A scan brings an
index up to date with what it finds, as long as the files that it keeps are those that loads would
make (`Atlas.CurrentOn.scan`).  Indexes that are up to date with one world on the same names agree,
however they came about (`Atlas.Refreshed.agree`).
-/

namespace SymbolAtlas

/-! ## Amounts of what is indexed -/

namespace Tally

/-- The part of a tally that the indexed files make up. -/
def held : Tally →+ Tally where
  toFun t := { loaded := t.loaded, symbols := t.symbols, size := t.size }
  map_zero' := rfl
  map_add' _ _ := Tally.ext rfl rfl rfl rfl rfl rfl

/-- What the outcome of a load amounts to. -/
def ofProduct : Except OpenFault (SourceFile × List Refusal) → Tally
  | .ok product => ofFile product.1
  | .error _ => 0

theorem ofFile_relinked {f g : SourceFile} (h : f.Relinked g) : ofFile g = ofFile f := by
  rw [ofFile, ofFile, h.upToLinks.symbolCount_eq, h.upToLinks.size]

end Tally

/-! ## Names that are up to date -/

/-- The plan to load a name of which nothing is known. -/
def LoadPlan.ofName (k : String) : LoadPlan :=
  { request := { name := k } }

/-- A registry shows under a name what a load came to. -/
inductive Registry.Shows (r : Registry) (k : String) :
    Except OpenFault (SourceFile × List Refusal) → Prop
  | file {f g : SourceFile} {refusals : List Refusal} {n : Nat}
      (hentry : r.entries.get? k = some (.loaded n)) (hfailure : r.failures.get? k = none)
      (hfile : r.files[n]? = some g) (hrelinked : f.Relinked g) : Shows r k (.ok (f, refusals))
  | failed {failure : Failure} (hentry : r.entries.get? k = none)
      (hfailure : r.failures.get? k = some failure) : Shows r k (.error (.failed failure))

namespace Registry.Shows

variable {r : Registry} {k : String} {p : Except OpenFault (SourceFile × List Refusal)}

theorem ne_crashed (h : r.Shows k p) (crash : Crash) : p ≠ .error (.crashed crash) := by
  rintro rfl
  cases h

theorem not_loading (h : r.Shows k p) (load : Nat) :
    r.entries.get? k ≠ some (.loading load) := by
  intro hload
  cases h with
  | file hentry => cases hentry.symm.trans hload
  | failed hentry => cases hentry.symm.trans hload

/-- An indexed file is what the load came to. -/
theorem of_loaded (h : r.Shows k p) {n : Nat} (hn : r.entries.get? k = some (.loaded n)) :
    ∃ f refusals g, p = .ok (f, refusals) ∧ r.files[n]? = some g ∧ f.Relinked g := by
  cases h with
  | file hentry _ hfile hrelinked =>
    cases hentry.symm.trans hn
    exact ⟨_, _, _, rfl, hfile, hrelinked⟩
  | failed hentry => cases hentry.symm.trans hn

theorem relink (h : r.Shows k p) (n : Nat) : (r.relink n).1.Shows k p := by
  cases h with
  | @file f g _ m hentry hfailure hfile hrelinked =>
    have hlinked : (r.relink n).1.files[m]? =
        some (if n = m then (g.relink r.resolveCandidate).1 else g) := by
      rw [files_relink, hfile, Option.map_some]
    refine .file (entries_relink r n ▸ hentry) (failures_relink r n ▸ hfailure) hlinked ?_
    split
    · exact hrelinked.relink _
    · exact hrelinked
  | failed hentry hfailure =>
    exact .failed (entries_relink r n ▸ hentry) (failures_relink r n ▸ hfailure)

end Registry.Shows

namespace Atlas

open Registry

variable {a b b₁ b₂ : Atlas} {w : World} {k : String}

/-! ## Loads of a name -/

theorem Untouched.shows {p : Except OpenFault (SourceFile × List Refusal)}
    (h : Untouched a b k) (hshows : a.registry.Shows k p) : b.registry.Shows k p := by
  cases hshows with
  | file hentry hfailure hfile hrelinked =>
    exact .file (h.entry.trans hentry) (h.failure.trans hfailure)
      ((h.file _ hentry).trans hfile) hrelinked
  | failed hentry hfailure => exact .failed (h.entry.trans hentry) (h.failure.trans hfailure)

theorem SameGround.trans {c : Atlas} (h : SameGround a b) (h' : SameGround b c) :
    SameGround a c :=
  ⟨h'.settings.trans h.settings, h'.site.trans h.site⟩

theorem SameGround.product (h : SameGround a b) (w : World) (plan : LoadPlan) :
    b.product w plan = a.product w plan := by
  simp only [Atlas.product, h.source]

/-- It makes no difference whether the disk is asked before a load or by it. -/
theorem product_of_stat {stat : FileStat} (hnul : (a.pathOf k).hasNul = false)
    (hstat : w.disk.stat (a.pathOf k) = .ok stat) (previous : Option Nat) :
    a.product w { request := { name := k, stat := some stat }, previous := previous } =
      a.product w (.ofName k) := by
  have hasked : a.statOf w.disk { name := k } = .ok stat := by
    simp only [statOf, hnul, hstat]
    rfl
  have hsource : a.source w
      { request := { name := k, stat := some stat }, previous := previous } =
        a.source w (.ofName k) := by
    simp only [source, LoadPlan.ofName, hasked]
    rfl
  rw [product, product, hsource]
  rfl

/-- A load of a name asks the disk for nothing but what is at its path. -/
theorem product_congr_disk {d : Disk} (hasked : d.stat (a.pathOf k) = w.disk.stat (a.pathOf k))
    (hread : d.read (a.pathOf k) = w.disk.read (a.pathOf k)) :
    a.product { w with disk := d } (.ofName k) = a.product w (.ofName k) := by
  have hstat : a.statOf d { name := k } = a.statOf w.disk { name := k } := by
    simp only [statOf, hasked]
  have hcontent : a.contentOf d (.ofName k) = a.contentOf w.disk (.ofName k) := by
    simp only [contentOf, LoadPlan.ofName, hread]
    rfl
  have hsource : a.source { w with disk := d } (.ofName k) = a.source w (.ofName k) := by
    rw [source, source, hcontent]
    simp only [LoadPlan.ofName, hstat]
  simp only [product, hsource]

theorem source_eq_ok {opened : OpenedSource} (h : a.source w (.ofName k) = .ok opened) :
    (a.pathOf k).hasNul = false ∧ w.disk.read (a.pathOf k) = .ok opened.content ∧
      ∃ stat, w.disk.stat (a.pathOf k) = .ok stat ∧ stat.mtime = opened.mtime := by
  unfold source at h
  obtain ⟨stat, hstat, h⟩ := bind_eq_ok.1 h
  simp only at h
  split at h
  · cases h
  obtain ⟨content, hcontent, h⟩ := bind_eq_ok.1 h
  obtain ⟨text, -, h⟩ := bind_eq_ok.1 h
  cases h
  simp only [contentOf, statOf, LoadPlan.ofName] at hcontent hstat
  cases hnul : (a.pathOf k).hasNul with
  | true =>
    simp only [hnul, ↓reduceIte] at hstat
    cases hstat
  | false =>
    simp only [hnul, Bool.false_eq_true, ↓reduceIte] at hcontent hstat
    refine ⟨rfl, ?_, stat, ?_, rfl⟩
    · cases hread : w.disk.read (a.pathOf k) with
      | error fault =>
        rw [hread] at hcontent
        cases hcontent
      | ok read =>
        rw [hread] at hcontent
        cases hcontent
        rfl
    · cases hasked : w.disk.stat (a.pathOf k) with
      | error fault =>
        rw [hasked] at hstat
        cases hstat
      | ok told =>
        rw [hasked] at hstat
        cases hstat
        rfl

/-- A load that comes to a file has asked the disk for it. -/
theorem asked_of_product {f : SourceFile} {refusals : List Refusal}
    (h : a.product w (.ofName k) = .ok (f, refusals)) : ∃ content stat,
      w.disk.read (a.pathOf k) = .ok content ∧ w.disk.stat (a.pathOf k) = .ok stat ∧
      f.mtime = some stat.mtime ∧ f.size = some (content.length : Int) := by
  unfold product at h
  split at h
  · cases h
  · rename_i opened hopened
    obtain ⟨-, hread, stat, hasked, hmtime⟩ := source_eq_ok hopened
    split at h
    · cases h
    · rename_i tree _
      have hf : f = _ := (congrArg Prod.fst (Except.ok.inj h)).symm
      have hsame := SourceFile.upToLinks_ofTree k tree (some (Sha256.hex opened.content))
        (some opened.mtime) (some (opened.content.length : Int))
      exact ⟨_, stat, hread, hasked, hf ▸ hsame.mtime.trans (congrArg some hmtime.symm),
        hf ▸ hsame.size⟩

/-! ## Verdicts that size and time of change decide -/

theorem product_of_hasNul (w : World) (hnul : (a.pathOf k).hasNul = true) :
    a.product w (.ofName k) = .error (.crashed .nulInPath) := by
  simp only [product, source, LoadPlan.ofName, statOf, hnul]
  rfl

theorem verdict_of_unknown (w : World) (hk : a.registry.entries.get? k = none) :
    a.verdict w k = a.verdictOf w (.ofName k) := by
  simp only [verdict, decideRefresh, decideParse, hk, LoadPlan.ofName]

section Verdicts

variable (hstat : a.settings.index.cacheByFileHash = false)

include hstat

/-- An indexed file is kept if it agrees with the disk, and else loaded as if it were not known. -/
theorem verdict_of_loaded (w : World) {n : Nat}
    (hn : a.registry.entries.get? k = some (.loaded n)) :
    (a.verdict w k = .stuck ∧ (a.pathOf k).hasNul = true) ∨
    (∃ plan, a.verdict w k = a.verdictOf w plan ∧ a.product w plan = a.product w (.ofName k) ∧
      ∀ stat, w.disk.stat (a.pathOf k) = .ok stat →
        (a.file? n).any (agrees · stat) = false) ∨
    (a.verdict w k = .kept n ∧ ∃ stat, w.disk.stat (a.pathOf k) = .ok stat ∧
      (a.file? n).any (agrees · stat) = true) := by
  have hdecide : a.decideRefresh w.disk { name := k } = a.decideByStat w.disk { name := k } n := by
    simp only [decideRefresh, hn, hstat]
    rfl
  unfold decideByStat at hdecide
  simp only at hdecide
  cases hnul : (a.pathOf k).hasNul with
  | true =>
    rw [hnul, if_pos rfl] at hdecide
    exact .inl ⟨by rw [verdict, hdecide], rfl⟩
  | false =>
    rw [hnul, if_neg Bool.false_ne_true] at hdecide
    cases hasked : w.disk.stat (a.pathOf k) with
    | error fault =>
      rw [hasked] at hdecide
      exact .inr (.inl ⟨{ request := { name := k }, previous := some n },
        by rw [verdict, hdecide], rfl, fun _ h => by cases h⟩)
    | ok stat =>
      rw [hasked] at hdecide
      simp only at hdecide
      split at hdecide
      · rename_i hagrees
        exact .inr (.inr ⟨by rw [verdict, hdecide], stat, rfl, hagrees⟩)
      · rename_i hdiffers
        refine .inr (.inl ⟨{ request := { name := k, stat := some stat }, previous := some n },
          by rw [verdict, hdecide], product_of_stat hnul hasked _, fun other hother => ?_⟩)
        cases hother
        exact Bool.not_eq_true _ ▸ hdiffers

/-- A name of which no load is under way comes to a result if its load does. -/
theorem verdict_isResult (hloading : ∀ load, a.registry.entries.get? k ≠ some (.loading load))
    (hcrash : ∀ crash, a.product w (.ofName k) ≠ .error (.crashed crash)) :
    (a.verdict w k).IsResult := by
  have hload : ∀ plan, a.product w plan = a.product w (.ofName k) →
      (a.verdictOf w plan).IsResult := by
    intro plan hplan
    rw [verdictOf, hplan]
    split
    · trivial
    · rename_i crash hproduct
      exact absurd hproduct (hcrash crash)
    · trivial
  cases hentry : a.registry.entries.get? k with
  | none =>
    rw [verdict_of_unknown w hentry]
    exact hload _ rfl
  | some entry =>
    cases entry with
    | loading load => exact absurd hentry (hloading load)
    | loaded n =>
      rcases verdict_of_loaded hstat w hentry with ⟨-, hnul⟩ |
        ⟨plan, hverdict, hplan, -⟩ | ⟨hverdict, -⟩
      · exact absurd (product_of_hasNul w hnul) (hcrash .nulInPath)
      · rw [hverdict]
        exact hload plan hplan
      · rw [hverdict]
        trivial

/-- The load of a name that comes to no result crashes, unless one is under way. -/
theorem product_of_not_isResult
    (hloading : ∀ load, a.registry.entries.get? k ≠ some (.loading load))
    (h : ¬ (a.verdict w k).IsResult) :
    ∃ crash, a.product w (.ofName k) = .error (.crashed crash) := by
  by_contra hnone
  exact h (verdict_isResult hstat hloading fun crash hcrash => hnone ⟨crash, hcrash⟩)

/-- A name whose verdict has come true is up to date if a file that was kept already was. -/
theorem shows_of_fulfilled (hground : SameGround a b) (hresult : (a.verdict w k).IsResult)
    (hkeep : ∀ n, a.verdict w k = .kept n → a.registry.Shows k (a.product w (.ofName k)))
    (h : (a.verdict w k).Fulfilled a b k) :
    b.registry.Shows k (b.product w (.ofName k)) := by
  rw [hground.product]
  have hload : ∀ plan, a.verdict w k = a.verdictOf w plan →
      a.product w plan = a.product w (.ofName k) →
      b.registry.Shows k (a.product w (.ofName k)) := by
    intro plan hverdict hplan
    rw [hverdict, verdictOf, hplan] at h hresult
    cases hproduct : a.product w (.ofName k) with
    | ok product =>
      rw [hproduct] at h
      obtain ⟨hfailure, n, g, hentry, hfile, hrelinked, -⟩ := h
      exact .file hentry hfailure hfile hrelinked
    | error fault =>
      rw [hproduct] at h hresult
      cases fault with
      | failed failure => exact .failed h.1 h.2
      | crashed crash => exact absurd hresult id
  cases hentry : a.registry.entries.get? k with
  | none => exact hload _ (verdict_of_unknown w hentry) rfl
  | some entry =>
    cases entry with
    | loading load =>
      have hstuck : a.verdict w k = .stuck := by
        simp only [verdict, decideRefresh, decideParse, hentry]
      rw [hstuck] at hresult
      exact absurd hresult id
    | loaded n =>
      rcases verdict_of_loaded hstat w hentry with ⟨hstuck, -⟩ | ⟨plan, hverdict, hplan, -⟩ |
        ⟨hverdict, -⟩
      · rw [hstuck] at hresult
        exact absurd hresult id
      · exact hload plan hverdict hplan
      · rw [hverdict] at h
        exact h.shows (hkeep n hverdict)

end Verdicts

/-! ## Counts -/

theorem held_worth (a : Atlas) (previous : Option Nat) :
    Tally.held (a.worth previous) = a.worth previous := by
  unfold worth
  cases previous.bind a.file? <;> rfl

theorem worth_of_shows {p : Except OpenFault (SourceFile × List Refusal)}
    (h : b.registry.Shows k p) : b.worth (b.get? k) = Tally.ofProduct p := by
  cases h with
  | file hentry _ hfile hrelinked =>
    rw [worth, Atlas.get?, get?_of_entry hentry, Option.bind_some, file?, hfile]
    exact Tally.ofFile_relinked hrelinked
  | failed hentry =>
    rw [worth, Atlas.get?, get?_of_no_entry hentry]
    rfl

theorem get?_of_plan {plan : LoadPlan}
    (hplan : a.decideRefresh w.disk { name := k } = .load plan) : a.get? k = plan.previous := by
  have hallows := a.allows_decideRefresh w.disk { name := k }
  rw [hplan] at hallows
  have hprecedes : a.registry.entries.get? k = plan.previous.map .loaded := hallows.2
  rw [Atlas.get?, Registry.get?, hprecedes]
  cases plan.previous <;> rfl

theorem get?_of_verdict {previous : Option Nat}
    (h : (∃ f, a.verdict w k = .parsed previous f) ∨
      ∃ failure, a.verdict w k = .failed previous failure) : a.get? k = previous := by
  unfold verdict at h
  split at h
  · rcases h with ⟨f, h⟩ | ⟨failure, h⟩ <;> cases h
  · rename_i plan hplan
    unfold verdictOf at h
    split at h
    · rcases h with ⟨f, h⟩ | ⟨failure, h⟩
      · cases h
      · cases h
        exact get?_of_plan hplan
    · rcases h with ⟨f, h⟩ | ⟨failure, h⟩ <;> cases h
    · rcases h with ⟨f, h⟩ | ⟨failure, h⟩
      · cases h
        exact get?_of_plan hplan
      · cases h
  · rcases h with ⟨f, h⟩ | ⟨failure, h⟩ <;> cases h
  · rcases h with ⟨f, h⟩ | ⟨failure, h⟩ <;> cases h

/-- The toll of a name is the difference that it makes to what is indexed. -/
theorem held_toll (hresult : (a.verdict w k).IsResult) (h : (a.verdict w k).Fulfilled a b k) :
    Tally.held ((a.verdict w k).toll a) = b.worth (b.get? k) - a.worth (a.get? k) := by
  have hname : ∀ previous : Option Nat,
      Tally.held (previous.elim Tally.oneName fun _ => 0) = 0 := by
    intro previous
    cases previous <;> rfl
  cases hverdict : a.verdict w k with
  | kept n =>
    rw [hverdict] at h
    have hentry := entry_of_kept hverdict
    have hold : a.get? k = some n := get?_of_entry hentry
    have hnew : b.get? k = some n := h.get?_eq.trans hold
    rw [hold, hnew, worth, worth, Option.bind_some, Option.bind_some, h.file n hentry, sub_self]
    rfl
  | parsed previous f =>
    have hprevious : a.get? k = previous := get?_of_verdict (.inl ⟨f, hverdict⟩)
    rw [hverdict] at h
    obtain ⟨-, n, g, hentry, hfile, hrelinked, -⟩ := h
    have hnew : b.worth (b.get? k) = Tally.ofFile f := by
      rw [worth, Atlas.get?, get?_of_entry hentry, Option.bind_some, hfile]
      exact Tally.ofFile_relinked hrelinked
    rw [hprevious, hnew, Verdict.toll, map_sub, map_add, hname, zero_add, held_worth]
    rfl
  | failed previous failure =>
    have hprevious : a.get? k = previous := get?_of_verdict (.inr ⟨failure, hverdict⟩)
    rw [hverdict] at h
    have hnew : b.worth (b.get? k) = 0 := by
      rw [worth, Atlas.get?, get?_of_no_entry h.1]
      rfl
    rw [hprevious, hnew, Verdict.toll, map_sub, map_add, hname, zero_add, held_worth]
    rfl
  | abandoned previous crash =>
    rw [hverdict] at hresult
    exact absurd hresult id
  | stuck =>
    rw [hverdict] at hresult
    exact absurd hresult id

/-! ## Indexes that are up to date -/

/-- The names that a scan of the whole directory finds; if discovery fails, none. -/
def found (a : Atlas) (disk : Disk) : List String :=
  match a.discover disk none with
  | .ok names => names
  | .error _ => []

/-- An index shows under given names what loads make of a world, knows no other names, and counts
what it shows. -/
structure CurrentOn (w : World) (names : List String) (b : Atlas) : Prop where
  tidy : b.registry.Tidy
  shows : ∀ k ∈ names, b.registry.Shows k (b.product w (.ofName k))
  unknown : ∀ k, k ∉ names →
    b.registry.entries.get? k = none ∧ b.registry.failures.get? k = none
  held : Tally.held b.registry.tally =
    ∑ k ∈ names.toFinset, Tally.ofProduct (b.product w (.ofName k))

namespace CurrentOn

variable {names : List String}

/-- An empty index is up to date on no names. -/
theorem empty (w : World) (directory : Path) (settings : Settings) (realpath : String → String) :
    CurrentOn w [] (Atlas.empty directory settings realpath) where
  tidy := tidy_empty _
  shows := fun _ hk => absurd hk List.not_mem_nil
  unknown := fun _ _ => ⟨rfl, rfl⟩
  held := rfl

theorem shows_of_get? (h : b.CurrentOn w names) {n : Nat} (hn : b.get? k = some n) :
    k ∈ names ∧ ∃ f refusals g, b.product w (.ofName k) = .ok (f, refusals) ∧
      b.file? n = some g ∧ f.Relinked g := by
  have hentry := Registry.entry_of_get? hn
  by_cases hk : k ∈ names
  · exact ⟨hk, (h.shows k hk).of_loaded hentry⟩
  · cases (h.unknown k hk).1.symm.trans hentry

/-- No load is under way. -/
theorem not_loading (h : b.CurrentOn w names) (k : String) (load : Nat) :
    b.registry.entries.get? k ≠ some (.loading load) := by
  intro hload
  by_cases hk : k ∈ names
  · exact (h.shows k hk).not_loading load hload
  · cases (h.unknown k hk).1.symm.trans hload

/-- Every refresh is decided. -/
theorem verdict_ne_stuck (h : b.CurrentOn w names)
    (hstat : b.settings.index.cacheByFileHash = false) (w' : World) (k : String) :
    b.verdict w' k ≠ .stuck := by
  cases hentry : b.registry.entries.get? k with
  | none =>
    rw [verdict_of_unknown w' hentry]
    exact verdictOf_ne_stuck
  | some entry =>
    cases entry with
    | loading load => exact absurd hentry (h.not_loading k load)
    | loaded n =>
      rcases verdict_of_loaded hstat w' hentry with ⟨-, hnul⟩ | ⟨plan, hverdict, -⟩ | ⟨hverdict, -⟩
      · -- a file whose path cannot be opened was never loaded
        obtain ⟨-, f, refusals, -, hproduct, -⟩ := h.shows_of_get? (get?_of_entry hentry)
        cases hproduct.symm.trans (product_of_hasNul w hnul)
      · rw [hverdict]
        exact verdictOf_ne_stuck
      · rw [hverdict]
        exact fun hstuck => by cases hstuck

theorem worth_eq_zero (h : b.CurrentOn w names) (hk : k ∉ names) : b.worth (b.get? k) = 0 := by
  rw [worth, Atlas.get?, get?_of_no_entry (h.unknown k hk).1]
  rfl

/-- Files that come from trees queue texts. -/
theorem queuesTexts (h : b.CurrentOn w names) : b.QueuesTexts := by
  intro k n g hn hg
  obtain ⟨-, f, refusals, g', hproduct, hg', hrelinked⟩ := h.shows_of_get? hn
  cases hg.symm.trans hg'
  obtain ⟨tree, contentHash, mtime, size, rfl⟩ := product_eq_ok hproduct
  exact (SourceFile.queuesTexts_ofTree _ tree contentHash mtime size).relinked hrelinked

/-- Looking up all directives again keeps an index up to date. -/
theorem relinkEach (h : b.CurrentOn w names) {c : Atlas} {missed : Nat}
    (hc : b.relinkEach b.registry.loaded 0 = (c, .ok missed)) :
    c.CurrentOn w names ∧ SameGround b c := by
  obtain ⟨hbooks, -, -⟩ := relinkEach_eq_ok h.tidy.nodup_loaded hc
  have htidy := tidy_relinkEach h.tidy b.registry.loaded 0
  have hfailures := b.failures_relinkEach b.registry.loaded 0
  have hshows : ∀ k ∈ names,
      (b.relinkEach b.registry.loaded 0).1.registry.Shows k (b.product w (.ofName k)) :=
    fun k hk => registry_relinkEach_keeps
      (P := fun r => r.Shows k (b.product w (.ofName k))) (fun _ n hr => hr.relink n)
      b.registry.loaded 0 (h.shows k hk)
  rw [hc] at htidy hfailures hshows
  have hground : SameGround b c := ⟨hbooks.settings, hbooks.site⟩
  refine ⟨⟨htidy, fun k hk => ?_, fun k hk => ?_, ?_⟩, hground⟩
  · rw [hground.product]
    exact hshows k hk
  · rw [hbooks.entries, show c.registry.failures = b.registry.failures from hfailures]
    exact h.unknown k hk
  · rw [hbooks.tally, h.held]
    exact Finset.sum_congr rfl fun _ _ => by rw [hground.product]

/-- Two indexes that are up to date on the same names have the same files and failures. -/
theorem concur (h₁ : b₁.CurrentOn w names) (h₂ : b₂.CurrentOn w names)
    (hground : SameGround b₁ b₂) : Concur b₁.registry b₂.registry where
  site := hground.site
  files := by
    intro k
    by_cases hk : k ∈ names
    · have hshows₁ := h₁.shows k hk
      have hshows₂ := h₂.shows k hk
      rw [hground.product] at hshows₂
      generalize hproduct : b₁.product w (.ofName k) = p at hshows₁ hshows₂
      cases hshows₁ with
      | file hentry₁ _ hfile₁ hrelinked₁ =>
        cases hshows₂ with
        | file hentry₂ _ hfile₂ hrelinked₂ =>
          obtain ⟨tree, contentHash, mtime, size, hf⟩ := product_eq_ok hproduct
          exact .both (get?_of_entry hentry₁) (get?_of_entry hentry₂) hfile₁ hfile₂
            (.inr ⟨k, hf ▸ SourceFile.Made.parsed tree contentHash mtime size⟩) hrelinked₁
            hrelinked₂
      | failed hentry₁ =>
        cases hshows₂ with
        | failed hentry₂ =>
          exact .neither (get?_of_no_entry hentry₁) (get?_of_no_entry hentry₂)
    · exact .neither (get?_of_no_entry (h₁.unknown k hk).1) (get?_of_no_entry (h₂.unknown k hk).1)

theorem failures_eq (h₁ : b₁.CurrentOn w names) (h₂ : b₂.CurrentOn w names)
    (hground : SameGround b₁ b₂) (k : String) :
    b₂.registry.failures.get? k = b₁.registry.failures.get? k := by
  by_cases hk : k ∈ names
  · have hshows₁ := h₁.shows k hk
    have hshows₂ := h₂.shows k hk
    rw [hground.product] at hshows₂
    generalize b₁.product w (.ofName k) = p at hshows₁ hshows₂
    cases hshows₁ with
    | file _ hfailure₁ =>
      cases hshows₂ with
      | file _ hfailure₂ => exact hfailure₂.trans hfailure₁.symm
    | failed _ hfailure₁ =>
      cases hshows₂ with
      | failed _ hfailure₂ => exact hfailure₂.trans hfailure₁.symm
  · exact (h₂.unknown k hk).2.trans (h₁.unknown k hk).2.symm

theorem held_eq (h₁ : b₁.CurrentOn w names) (h₂ : b₂.CurrentOn w names)
    (hground : SameGround b₁ b₂) :
    Tally.held b₂.registry.tally = Tally.held b₁.registry.tally := by
  rw [h₁.held, h₂.held]
  exact Finset.sum_congr rfl fun _ _ => by rw [hground.product]

/-- The errands of a scan bring an index up to date, if they include all names that are known and
what is kept is as a load would make it. -/
theorem fulfilled {w₀ : World} (h : a.CurrentOn w₀ names)
    (hstat : a.settings.index.cacheByFileHash = false) {names' : List String} (hd : names'.Nodup)
    (hsub : ∀ k ∈ names, k ∈ names')
    (hkeep : ∀ k ∈ names, ∀ n, a.verdict w k = .kept n →
      a.registry.Shows k (a.product w (.ofName k)))
    {s : Scanning} (hgood : Scanning.Good w a names' s) (hended : s.Ended)
    (hcrash : s.report.crash = none) : s.atlas.CurrentOn w names' := by
  have hresults := (hgood.crash_end hended).1 hcrash
  have hshows : ∀ k ∈ names', s.atlas.registry.Shows k (s.atlas.product w (.ofName k)) := by
    intro k hk
    refine shows_of_fulfilled hstat hgood.ground (hresults k hk) (fun n hn => ?_)
      (hgood.fulfilled hended hk)
    by_cases hold : k ∈ names
    · exact hkeep k hold n hn
    · cases (h.unknown k hold).1.symm.trans (entry_of_kept hn)
  have hwas : Tally.held a.registry.tally = ∑ k ∈ names'.toFinset, a.worth (a.get? k) := by
    rw [h.held]
    refine Finset.sum_subset_zero_on_sdiff (fun k hk => ?_) (fun k hk => ?_) (fun k hk => ?_)
    · exact List.mem_toFinset.2 (hsub k (List.mem_toFinset.1 hk))
    · rw [Finset.mem_sdiff, List.mem_toFinset, List.mem_toFinset] at hk
      exact h.worth_eq_zero hk.2
    · exact (worth_of_shows (h.shows k (List.mem_toFinset.1 hk))).symm
  refine ⟨hgood.tidy, hshows, fun k hk => ?_, ?_⟩
  · have huntouched := hgood.untouched_end hended hk
    have hunknown := h.unknown k fun hold => hk (hsub k hold)
    exact ⟨huntouched.entry.trans hunknown.1, huntouched.failure.trans hunknown.2⟩
  · -- what was counted before is replaced name by name
    have hdiff : Tally.held (names'.map fun k => (a.verdict w k).toll a).sum =
        ∑ k ∈ names'.toFinset, (s.atlas.worth (s.atlas.get? k) - a.worth (a.get? k)) := by
      rw [map_list_sum, List.map_map, List.sum_toFinset _ hd]
      refine congrArg List.sum (List.map_congr_left fun k hk => ?_)
      exact held_toll (hresults k hk) (hgood.fulfilled hended hk)
    rw [hgood.tally_end hended, map_add, hwas, hdiff, Finset.sum_sub_distrib, add_sub_cancel]
    exact Finset.sum_congr rfl fun k hk => worth_of_shows (hshows k (List.mem_toFinset.1 hk))

end CurrentOn

/-- An index that is up to date, whose directives were looked up after all else. -/
def Refreshed (w : World) (names : List String) (a : Atlas) : Prop :=
  ∃ (b c : Atlas) (missed : Nat), b.CurrentOn w names ∧
    b.relinkEach b.registry.loaded 0 = (c, .ok missed) ∧
    a.registry = c.registry ∧ a.settings = c.settings

/-- Two indexes have the same content. -/
structure Agree (a b : Atlas) : Prop where
  snapshots : ∀ name, Ledger.get? b.snapshot.files name = Ledger.get? a.snapshot.files name
  failures : ∀ name, b.registry.failures.get? name = a.registry.failures.get? name
  loaded : b.registry.tally.loaded = a.registry.tally.loaded
  symbols : b.registry.tally.symbols = a.registry.tally.symbols
  size : b.registry.tally.size = a.registry.tally.size

namespace Refreshed

variable {names : List String}

theorem current (h : a.Refreshed w names) : a.CurrentOn w names := by
  obtain ⟨b, c, missed, hb, hc, hregistry, hsettings⟩ := h
  have hcurrent := (hb.relinkEach hc).1
  have hground : SameGround c a := ⟨hsettings, by rw [hregistry]⟩
  refine ⟨hregistry ▸ hcurrent.tidy, fun k hk => ?_, fun k hk => ?_, ?_⟩
  · rw [hground.product, hregistry]
    exact hcurrent.shows k hk
  · rw [hregistry]
    exact hcurrent.unknown k hk
  · rw [hregistry, hcurrent.held]
    exact Finset.sum_congr rfl fun _ _ => by rw [hground.product]

/-- Indexes that are up to date on the same names, and were looked up last, agree. -/
theorem agree {a₁ a₂ : Atlas} (h₁ : a₁.Refreshed w names) (h₂ : a₂.Refreshed w names)
    (hground : SameGround a₁ a₂) : a₁.Agree a₂ := by
  have hfailures := h₁.current.failures_eq h₂.current hground
  have hheld := h₁.current.held_eq h₂.current hground
  have htidy₁ := h₁.current.tidy
  have htidy₂ := h₂.current.tidy
  obtain ⟨b₁, c₁, missed₁, hb₁, hc₁, hregistry₁, hsettings₁⟩ := h₁
  obtain ⟨b₂, c₂, missed₂, hb₂, hc₂, hregistry₂, hsettings₂⟩ := h₂
  have hground' : SameGround b₁ b₂ := by
    have hleft := (hb₁.relinkEach hc₁).2
    have hright := (hb₂.relinkEach hc₂).2
    refine ⟨?_, ?_⟩
    · rw [← hright.settings, ← hsettings₂, hground.settings, hsettings₁, hleft.settings]
    · rw [← hright.site, ← hregistry₂, hground.site, hregistry₁, hleft.site]
  have hloaded := congrArg Tally.loaded hheld
  have hsymbols := congrArg Tally.symbols hheld
  have hsize := congrArg Tally.size hheld
  refine ⟨fun name => ?_, hfailures, hloaded, hsymbols, hsize⟩
  have hshown : ∀ {x y : Atlas}, x.registry = y.registry →
      (x.get? name).bind x.fileSnapshot? = (y.get? name).bind y.fileSnapshot? := by
    intro x y hxy
    unfold Atlas.get? fileSnapshot? file?
    rw [hxy]
  rw [get?_files_snapshot htidy₁, get?_files_snapshot htidy₂, hshown hregistry₁,
    hshown hregistry₂]
  exact snapshot_of_concur (hb₁.concur hb₂ hground') hb₁.tidy hb₂.tidy hc₁ hc₂ name

end Refreshed

/-- A scan of the whole directory that does not raise brings an index up to date with what it
finds, if that includes all names that are known and what is kept is as a load would make it. -/
theorem CurrentOn.scan {w₀ : World} {names : List String} (h : a.CurrentOn w₀ names)
    (hstat : a.settings.index.cacheByFileHash = false)
    (hsub : ∀ k ∈ names, k ∈ a.found w.disk)
    (hkeep : ∀ k ∈ names, ∀ n, a.verdict w k = .kept n →
      a.registry.Shows k (a.product w (.ofName k)))
    {width : Nat} {out : Atlas × Except ScanFault ScanReport} (hscan : a.Scans w none width out)
    (hback : ∀ crash, out.2 ≠ .error (.crashed crash)) :
    out.1.Refreshed w (a.found w.disk) ∧ SameGround a out.1 := by
  rcases hscan.outcome h.tidy h.queuesTexts with ⟨fault, hfault, rfl⟩ |
    ⟨names', hnames, ⟨-, crash, hraised⟩ |
      ⟨-, s, b, missed, n, hgood, hended, hcrash, hb, rfl⟩⟩
  · -- nothing is found, so nothing was known
    have hnone : a.found w.disk = [] := by rw [found, hfault]
    rw [hnone] at hsub ⊢
    have hempty : names = [] := List.eq_nil_iff_forall_not_mem.2 fun k hk =>
      absurd (hsub k hk) List.not_mem_nil
    subst hempty
    have hcurrent : a.CurrentOn w [] := by
      refine ⟨h.tidy, fun _ hk => absurd hk List.not_mem_nil, h.unknown, ?_⟩
      rw [h.held, List.toFinset_nil, Finset.sum_empty, Finset.sum_empty]
    have hloaded : a.registry.loaded = [] := by
      refine List.eq_nil_iff_forall_not_mem.2 fun n hn => ?_
      obtain ⟨k, hk⟩ := h.tidy.get?_of_mem_loaded hn
      exact absurd (h.shows_of_get? hk).1 List.not_mem_nil
    exact ⟨⟨a, a, 0, hcurrent, by rw [hloaded, Atlas.relinkEach], rfl, rfl⟩, rfl, rfl⟩
  · exact absurd hraised (hback crash)
  · have hfound : a.found w.disk = names' := by rw [found, hnames]
    rw [hfound] at hsub ⊢
    have hcurrent := h.fulfilled hstat (nodup_discover hnames) hsub hkeep hgood hended hcrash
    have hground := hgood.ground.trans (hcurrent.relinkEach hb).2
    exact ⟨⟨s.atlas, b, missed, hcurrent, hb, rfl, rfl⟩, hground.settings, hground.site⟩

end Atlas

end SymbolAtlas
