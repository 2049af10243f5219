import Mathlib
import SymbolAtlas.Proofs.Atlas.ScanProgress

/-!
# Scans do not depend on their order

Two scans of the same sources that set out from the same atlas, in the same world and with whatever
width, come to the same index, whichever steps they take in which order: under every name they show
the same snapshot and the same failure, their counts are the same, and so are the numbers in their
reports.  Each of them accounts for every name, and announces the names one after the other.  Both
raise if there is a name whose refresh comes to no result (`Course.scans_agree`); an encoding under
which nothing can be read has this effect (`Course.scan_voidSite`).
-/

namespace SymbolAtlas

/-! ## Found names -/

namespace Discovery

theorem nodup_addNames {directory : Path} {patterns : List String} {sources : List Path}
    {found names : List String} (hd : found.Nodup)
    (h : addNames directory patterns found sources = .ok names) : names.Nodup := by
  induction sources generalizing found with
  | nil =>
    cases h
    exact hd
  | cons path rest ih =>
    rw [addNames] at h
    split at h
    · split at h
      · cases h
      · rename_i relative _
        refine ih ?_ h
        split
        · exact hd
        · rename_i hnew
          refine hd.append (List.nodup_singleton _) (List.disjoint_singleton.2 ?_)
          simpa using hnew
    · exact ih hd h

theorem nodup_addAll {disk : Disk} {directory : Path} {settings : IndexSettings}
    {starts : List Path} {found names : List String} (hd : found.Nodup)
    (h : addAll disk directory settings found starts = .ok names) : names.Nodup := by
  induction starts generalizing found with
  | nil =>
    cases h
    exact hd
  | cons start rest ih =>
    rw [addAll] at h
    obtain ⟨sources, -, h⟩ := bind_eq_ok.1 h
    obtain ⟨more, hmore, h⟩ := bind_eq_ok.1 h
    exact ih (nodup_addNames hd hmore) h

end Discovery

namespace Atlas

open Registry SourceFile

theorem nodup_discover {a : Atlas} {disk : Disk} {subPaths : Option (List String)}
    {names : List String} (h : a.discover disk subPaths = .ok names) : names.Nodup :=
  Discovery.nodup_addAll List.nodup_nil h

/-! ## Verdicts that have come true twice -/

variable {w : World} {a b₁ b₂ : Atlas} {k : String}

theorem get?_of_entry {b : Atlas} {n : Nat}
    (h : b.registry.entries.get? k = some (.loaded n)) : b.registry.get? k = some n := by
  rw [Registry.get?, h]

theorem get?_of_no_entry {b : Atlas} (h : b.registry.entries.get? k = none) :
    b.registry.get? k = none := by
  rw [Registry.get?, h]

theorem Untouched.get?_eq {b : Atlas} (h : Untouched a b k) :
    b.registry.get? k = a.registry.get? k := by
  rw [Registry.get?, Registry.get?, h.entry]

theorem verdict_eq_parsed {previous : Option Nat} {f : SourceFile}
    (h : a.verdict w k = .parsed previous f) : ∃ tree contentHash mtime size,
      f = (ofTree k tree contentHash mtime size).1 := by
  have hallows := a.allows_decideRefresh w.disk { name := k }
  unfold verdict at h
  split at h
  · cases h
  · rename_i plan hplan
    rw [hplan] at hallows
    unfold verdictOf at h
    split at h
    · cases h
    · cases h
    · rename_i refusals hproduct
      cases h
      rw [← (show plan.request.name = k from hallows.1)]
      exact product_eq_ok hproduct
  · cases h
  · cases h

/-- What is untouched in two indexes is the same in both. -/
theorem Untouched.concurAt (ha : a.registry.Tidy) (htraced : a.registry.AllFiles Traced)
    (h₁ : Untouched a b₁ k) (h₂ : Untouched a b₂ k) : ConcurAt b₁.registry b₂.registry k := by
  cases hn : a.registry.get? k with
  | none => exact .neither (h₁.get?_eq.trans hn) (h₂.get?_eq.trans hn)
  | some n =>
    have hentry := entry_of_get? hn
    obtain ⟨f, hf, -⟩ := ha.named hentry
    exact .both (h₁.get?_eq.trans hn) (h₂.get?_eq.trans hn) ((h₁.file n hentry).trans hf)
      ((h₂.file n hentry).trans hf) (htraced n f hf) .refl .refl

/-- A verdict that has come true in two indexes tells what is known of its name in both. -/
theorem concurAt_of_fulfilled (ha : a.registry.Tidy) (htraced : a.registry.AllFiles Traced)
    (hresult : (a.verdict w k).IsResult)
    (h₁ : (a.verdict w k).Fulfilled a b₁ k) (h₂ : (a.verdict w k).Fulfilled a b₂ k) :
    ConcurAt b₁.registry b₂.registry k ∧
      b₂.registry.failures.get? k = b₁.registry.failures.get? k := by
  cases hverdict : a.verdict w k with
  | kept n =>
    rw [hverdict] at h₁ h₂
    exact ⟨Untouched.concurAt ha htraced h₁ h₂, h₂.failure.trans h₁.failure.symm⟩
  | parsed previous f =>
    obtain ⟨tree, contentHash, mtime, size, hf⟩ := verdict_eq_parsed hverdict
    rw [hverdict] at h₁ h₂
    obtain ⟨hfailure₁, n₁, g₁, hn₁, hg₁, hrelinked₁, -⟩ := h₁
    obtain ⟨hfailure₂, n₂, g₂, hn₂, hg₂, hrelinked₂, -⟩ := h₂
    have hmade : f.Traced := .inr ⟨k, hf ▸ .parsed tree contentHash mtime size⟩
    exact ⟨.both (get?_of_entry hn₁) (get?_of_entry hn₂) hg₁ hg₂ hmade hrelinked₁ hrelinked₂,
      hfailure₂.trans hfailure₁.symm⟩
  | failed previous failure =>
    rw [hverdict] at h₁ h₂
    exact ⟨.neither (get?_of_no_entry h₁.1) (get?_of_no_entry h₂.1), h₂.2.trans h₁.2.symm⟩
  | abandoned previous crash =>
    rw [hverdict] at hresult
    exact absurd hresult id
  | stuck =>
    rw [hverdict] at hresult
    exact absurd hresult id

/-- A file that was kept or comes from a tree queues texts. -/
theorem queuesTexts_of_fulfilled {b : Atlas} (htexts : a.QueuesTexts)
    (hresult : (a.verdict w k).IsResult)
    (h : (a.verdict w k).Fulfilled a b k) {n : Nat} {f : SourceFile} (hn : b.get? k = some n)
    (hf : b.file? n = some f) : f.QueuesTexts := by
  have hn : b.registry.get? k = some n := hn
  cases hverdict : a.verdict w k with
  | kept m =>
    rw [hverdict] at h
    have hold := h.get?_eq.symm.trans hn
    exact htexts k n f hold ((h.file n (entry_of_get? hold)).symm.trans hf)
  | parsed previous g =>
    obtain ⟨tree, contentHash, mtime, size, hg⟩ := verdict_eq_parsed hverdict
    rw [hverdict] at h
    obtain ⟨-, m, f', hm, hf', hrelinked, -⟩ := h
    cases hn.symm.trans (get?_of_entry hm)
    cases hf.symm.trans hf'
    exact (hg ▸ queuesTexts_ofTree k tree contentHash mtime size : g.QueuesTexts).relinked
      hrelinked
  | failed previous failure =>
    rw [hverdict] at h
    cases hn.symm.trans (get?_of_no_entry h.1)
  | abandoned previous crash =>
    rw [hverdict] at hresult
    exact absurd hresult id
  | stuck =>
    rw [hverdict] at hresult
    exact absurd hresult id

/-! ## Names that settle -/

/-- Whether a refresh of a name alone comes to a result. -/
def Settles (a : Atlas) (w : World) (name : String) : Prop :=
  (a.refresh w { name := name }).2.IsResult

instance (a : Atlas) (w : World) (name : String) : Decidable (a.Settles w name) :=
  inferInstanceAs (Decidable (a.refresh w { name := name }).2.IsResult)

/-- A refresh that is not interrupted comes to what the verdict says. -/
theorem answers_refresh (ha : a.registry.Tidy) (w : World) (k : String) :
    Answers w a (a.refresh w { name := k }).1 k (a.refresh w { name := k }).2 := by
  have hstart := moves_approach (w := w) ha ⟨rfl, rfl⟩ (Untouched.refl a k)
  obtain ⟨-, -, -, hstands⟩ := complete_keeps (w := w)
    (P := fun b stage => b.registry.Tidy ∧ SameGround a b ∧
      a.registry.files.size ≤ b.registry.files.size ∧ Stands w a b k stage)
    (fun b stage hstage ⟨hb, hground, hsize, hstands⟩ => by
      have hmoves := moves_advance ha hb hground hsize hstage hstands
      exact ⟨hmoves.tidy, ⟨hmoves.settings.trans hground.settings,
        hmoves.spares.site.trans hground.site⟩, hsize.trans hmoves.size, hmoves.stands⟩)
    ⟨hstart.tidy, ⟨hstart.settings, hstart.spares.site⟩, hstart.size, hstart.stands⟩
  rw [complete_approach] at hstands
  cases hstands with
  | answered h => exact h

theorem settles_iff (ha : a.registry.Tidy) : a.Settles w k ↔ (a.verdict w k).IsResult :=
  (answers_refresh ha w k).isResult_iff

end Atlas

/-! ## Two ends -/

namespace Scanning

open Atlas Registry SourceFile

variable {w : World} {a : Atlas} {names : List String} {s₁ s₂ : Scanning}

theorem Good.concur (ha : a.registry.Tidy) (htraced : a.registry.AllFiles Traced)
    (hresults : ∀ k ∈ names, (a.verdict w k).IsResult) (h₁ : Good w a names s₁)
    (hended₁ : s₁.Ended) (h₂ : Good w a names s₂) (hended₂ : s₂.Ended) :
    Concur s₁.atlas.registry s₂.atlas.registry where
  site := h₂.ground.site.trans h₁.ground.site.symm
  files := by
    intro k
    by_cases hk : k ∈ names
    · exact (concurAt_of_fulfilled ha htraced (hresults k hk) (h₁.fulfilled hended₁ hk)
        (h₂.fulfilled hended₂ hk)).1
    · exact (h₁.untouched_end hended₁ hk).concurAt ha htraced (h₂.untouched_end hended₂ hk)

theorem Good.failures_eq (ha : a.registry.Tidy) (htraced : a.registry.AllFiles Traced)
    (hresults : ∀ k ∈ names, (a.verdict w k).IsResult) (h₁ : Good w a names s₁)
    (hended₁ : s₁.Ended) (h₂ : Good w a names s₂) (hended₂ : s₂.Ended) (k : String) :
    s₂.atlas.registry.failures.get? k = s₁.atlas.registry.failures.get? k := by
  by_cases hk : k ∈ names
  · exact (concurAt_of_fulfilled ha htraced (hresults k hk) (h₁.fulfilled hended₁ hk)
      (h₂.fulfilled hended₂ hk)).2
  · exact (h₂.untouched_end hended₂ hk).failure.trans
      (h₁.untouched_end hended₁ hk).failure.symm

theorem Good.queuesTexts {s : Scanning} (htexts : a.QueuesTexts)
    (hresults : ∀ k ∈ names, (a.verdict w k).IsResult) (h : Good w a names s)
    (hended : s.Ended) : s.atlas.QueuesTexts := by
  intro k n f hn hf
  by_cases hk : k ∈ names
  · exact queuesTexts_of_fulfilled htexts (hresults k hk) (h.fulfilled hended hk) hn hf
  · have huntouched := h.untouched_end hended hk
    have hold := huntouched.get?_eq.symm.trans hn
    exact htexts k n f hold ((huntouched.file n (entry_of_get? hold)).symm.trans hf)

end Scanning

/-! ## Scans agree -/

/-- A queue that takes any number of events holds all that were published. -/
theorem Feed.held_foldl_publish {ε : Type} {feed : Feed ε} {queue : Nat} {s : Subscription ε}
    (h : feed.queues[queue]? = some s) (hactive : s.active = true) (hroom : s.capacity ≤ 0)
    (events : List ε) : (events.foldl publish feed).held queue = s.events ++ events := by
  induction events generalizing feed s with
  | nil => rw [List.foldl_nil, List.append_nil, held, h]
  | cons event rest ih =>
    have hreceives : s.receive event = { s with events := s.events ++ [event] } := by
      have hfull : s.isFull = false := by
        rw [Subscription.isFull, decide_eq_false (Int.not_lt.2 hroom), Bool.false_and]
      rw [Subscription.receive, hactive, hfull]
      rfl
    have hlater : (feed.publish event).queues[queue]? =
        some { s with events := s.events ++ [event] } := by
      rw [publish, Array.getElem?_map, h, Option.map_some, hreceives]
    rw [List.foldl_cons, ih hlater hactive hroom, List.append_assoc, List.singleton_append]

namespace Atlas

/-- Two indexes, with the reports of the scans that they come from, show the same. -/
structure ShowSame (b₁ b₂ : Atlas) (report₁ report₂ : ScanReport) : Prop where
  snapshots : ∀ name, Ledger.get? b₂.snapshot.files name = Ledger.get? b₁.snapshot.files name
  failures : ∀ name, b₂.registry.failures.get? name = b₁.registry.failures.get? name
  tally : b₂.registry.tally = b₁.registry.tally
  parsed : report₂.parsed = report₁.parsed
  kept : report₂.kept = report₁.kept
  failed : report₂.failures.Perm report₁.failures

/-- The report of a scan accounts for all of its names, and the scan has announced how many of them
were done. -/
structure Accounts (a b : Atlas) (names : List String) (report : ScanReport) : Prop where
  total : report.parsed + report.kept + report.failures.length = names.length
  progress : ∃ events : List Event, b.feed = events.foldl Feed.publish a.feed ∧
    (events.filter (·.kind = .progress)).map Event.progress =
      (List.range names.length).map fun i => some (i + 1, names.length)

theorem feed_relinkEach (a : Atlas) (ns : List Nat) (missed : Nat) :
    (a.relinkEach ns missed).1.feed = a.feed :=
  relinkEach_keeps (P := fun b => b.feed = a.feed)
    (fun b n hb => (b.feed_relink n).trans hb) ns missed rfl

theorem failures_relinkEach (a : Atlas) (ns : List Nat) (missed : Nat) :
    (a.relinkEach ns missed).1.registry.failures = a.registry.failures :=
  registry_relinkEach_keeps (P := fun r => r.failures = a.registry.failures)
    (fun r n hr => (r.failures_relink n).trans hr) ns missed rfl

theorem tidy_relinkEach {a : Atlas} (ha : a.registry.Tidy) (ns : List Nat) (missed : Nat) :
    (a.relinkEach ns missed).1.registry.Tidy :=
  registry_relinkEach_keeps (fun _ n hr => hr.relink n) ns missed ha

end Atlas

namespace Scanning

open Atlas Registry

variable {w : World} {a : Atlas} {names : List String} {s s₁ s₂ : Scanning}

/-- At the end all directives can be looked up. -/
theorem Good.close_ok (htexts : a.QueuesTexts) (h : Good w a names s) (hended : s.Ended)
    (hcrash : s.report.crash = none) :
    ∃ b missed, s.atlas.relinkEach s.atlas.registry.loaded 0 = (b, .ok missed) ∧
      s.close names.length = (b.note (.scanComplete names.length s.report.parsed s.report.kept
        s.report.failures.length), .ok s.report) := by
  have hresults := (h.crash_end hended).1 hcrash
  obtain ⟨b, missed, hb⟩ := (h.queuesTexts htexts hresults hended).relinkEach_ok h.tidy
  exact ⟨b, missed, hb, by rw [close, conclude, hcrash, hb]⟩

theorem Good.accounts_close (h : Good w a names s) (hended : s.Ended)
    (hcrash : s.report.crash = none) {b : Atlas} {missed : Nat}
    (hb : s.atlas.relinkEach s.atlas.registry.loaded 0 = (b, .ok missed)) (n : Note) :
    Accounts a (b.note n) names s.report where
  total := h.total_end hended hcrash
  progress := by
    have hfeed := s.atlas.feed_relinkEach s.atlas.registry.loaded 0
    rw [hb] at hfeed
    obtain ⟨events, hevents, hprogress⟩ := h.feed.progress
    rw [(h.settled_perm hended hcrash).length_eq] at hprogress
    exact ⟨events, hfeed.trans hevents, hprogress⟩

/-- A scan that has come to its end raises if and only if a name does not settle. -/
theorem Good.raises_close (ha : a.registry.Tidy) (h : Good w a names s) (hended : s.Ended)
    (hunsettled : ∃ k ∈ names, ¬ a.Settles w k) :
    ∃ crash, (s.close names.length).2 = .error (.crashed crash) := by
  obtain ⟨k, hk, hunsettled⟩ := hunsettled
  cases hcrash : s.report.crash with
  | none => exact absurd ((settles_iff ha).2 ((h.crash_end hended).1 hcrash k hk)) hunsettled
  | some crash => exact ⟨crash, by rw [close, conclude, hcrash]⟩

/-- Where an errand has crashed, a name does not settle. -/
theorem Good.unsettled_of_crash (ha : a.registry.Tidy) (h : Good w a names s) {crash : Crash}
    (hcrash : s.report.crash = some crash) : ∃ k ∈ names, ¬ a.Settles w k := by
  have hdropped : s.dropped ≠ [] := fun hnone => by
    rw [h.crash.2 hnone] at hcrash
    cases hcrash
  obtain ⟨k, hk⟩ := List.exists_mem_of_ne_nil _ hdropped
  exact ⟨k, h.mem_of_dropped hk, fun hsettles => h.dropped k hk ((settles_iff ha).1 hsettles)⟩

/-- Two ends of scans that set out from one atlas for the same names show the same. -/
theorem Good.showSame (ha : a.registry.Tidy) (htraced : a.registry.AllFiles SourceFile.Traced)
    (h₁ : Good w a names s₁) (hended₁ : s₁.Ended) (hcrash₁ : s₁.report.crash = none)
    (h₂ : Good w a names s₂) (hended₂ : s₂.Ended) (hcrash₂ : s₂.report.crash = none)
    {b₁ b₂ : Atlas} {missed₁ missed₂ : Nat}
    (hb₁ : s₁.atlas.relinkEach s₁.atlas.registry.loaded 0 = (b₁, .ok missed₁))
    (hb₂ : s₂.atlas.relinkEach s₂.atlas.registry.loaded 0 = (b₂, .ok missed₂)) (n₁ n₂ : Note) :
    ShowSame (b₁.note n₁) (b₂.note n₂) s₁.report s₂.report where
  snapshots := by
    intro name
    have htidy₁ := tidy_relinkEach h₁.tidy s₁.atlas.registry.loaded 0
    have htidy₂ := tidy_relinkEach h₂.tidy s₂.atlas.registry.loaded 0
    rw [hb₁] at htidy₁
    rw [hb₂] at htidy₂
    have hconcur := h₁.concur ha htraced ((h₁.crash_end hended₁).1 hcrash₁) hended₁ h₂ hended₂
    have hsame := snapshot_of_concur hconcur h₁.tidy h₂.tidy hb₁ hb₂ name
    exact (get?_files_snapshot htidy₂ name).trans
      (hsame.trans (get?_files_snapshot htidy₁ name).symm)
  failures := by
    intro name
    have hfailures₁ := s₁.atlas.failures_relinkEach s₁.atlas.registry.loaded 0
    have hfailures₂ := s₂.atlas.failures_relinkEach s₂.atlas.registry.loaded 0
    rw [hb₁] at hfailures₁
    rw [hb₂] at hfailures₂
    show b₂.registry.failures.get? name = b₁.registry.failures.get? name
    rw [hfailures₁, hfailures₂]
    exact h₁.failures_eq ha htraced ((h₁.crash_end hended₁).1 hcrash₁) hended₁ h₂ hended₂ name
  tally := by
    obtain ⟨hbooks₁, -, -⟩ := relinkEach_eq_ok h₁.tidy.nodup_loaded hb₁
    obtain ⟨hbooks₂, -, -⟩ := relinkEach_eq_ok h₂.tidy.nodup_loaded hb₂
    exact (hbooks₂.tally.trans (h₂.tally_end hended₂)).trans
      (hbooks₁.tally.trans (h₁.tally_end hended₁)).symm
  parsed := (h₂.parsed_end hended₂ hcrash₂).trans (h₁.parsed_end hended₁ hcrash₁).symm
  kept := (h₂.kept_end hended₂ hcrash₂).trans (h₁.kept_end hended₁ hcrash₁).symm
  failed := (h₂.failures_end hended₂ hcrash₂).trans (h₁.failures_end hended₁ hcrash₁).symm

end Scanning

namespace Atlas

variable {w : World} {a b : Atlas} {subPaths : Option (List String)} {width : Nat}
  {out : Atlas × Except ScanFault ScanReport}

/-- A scan stops at a fault of discovery, or raises since a name does not settle, or ends with all
names settled and all directives looked up again. -/
theorem Scans.outcome (h : a.Scans w subPaths width out) (ha : a.registry.Tidy)
    (htexts : a.QueuesTexts) :
    (∃ fault, a.discover w.disk subPaths = .error fault ∧ out = (a, .error (.discovery fault))) ∨
    ∃ names, a.discover w.disk subPaths = .ok names ∧
      (((∃ k ∈ names, ¬ a.Settles w k) ∧ ∃ crash, out.2 = .error (.crashed crash)) ∨
      ((∀ k ∈ names, a.Settles w k) ∧ ∃ (s : Scanning) (b : Atlas) (missed : Nat) (n : Note),
        Scanning.Good w a names s ∧ s.Ended ∧ s.report.crash = none ∧
        s.atlas.relinkEach s.atlas.registry.loaded 0 = (b, .ok missed) ∧
        out = (b.note n, .ok s.report))) := by
  cases h with
  | undiscovered hfault => exact .inl ⟨_, hfault, rfl⟩
  | @ended names s hnames hrun hended =>
    have hgood := hrun.good ha (nodup_discover hnames)
    refine .inr ⟨names, hnames, ?_⟩
    by_cases hsome : ∃ k ∈ names, ¬ a.Settles w k
    · exact .inl ⟨hsome, hgood.raises_close ha hended hsome⟩
    · have hall : ∀ k ∈ names, a.Settles w k := fun k hk =>
        by_contra fun hunsettled => hsome ⟨k, hk, hunsettled⟩
      have hcrash := (hgood.crash_end hended).2 fun k hk => (settles_iff ha).1 (hall k hk)
      obtain ⟨b, missed, hb, hclose⟩ := hgood.close_ok htexts hended hcrash
      exact .inr ⟨hall, s, b, missed, _, hgood, hended, hcrash, hb, hclose⟩
  | @raised names s crash hnames hrun hcrash =>
    have hgood := hrun.good ha (nodup_discover hnames)
    exact .inr ⟨names, hnames, .inl ⟨hgood.unsettled_of_crash ha hcrash, crash, rfl⟩⟩

/-- Whoever hears all events hears how many names were done, one after the other. -/
theorem Accounts.heard {names : List String} {report : ScanReport}
    (h : a.Accounts b names report) {queue : Nat} {s : Subscription Event}
    (hqueue : a.feed.queues[queue]? = some s) (hactive : s.active = true) (hroom : s.capacity ≤ 0)
    (hempty : s.events = []) :
    ((b.feed.held queue).filter (·.kind = .progress)).map Event.progress =
      (List.range names.length).map fun i => some (i + 1, names.length) := by
  obtain ⟨events, hfeed, hprogress⟩ := h.progress
  rw [hfeed, Feed.held_foldl_publish hqueue hactive hroom, hempty, List.nil_append]
  exact hprogress

end Atlas

namespace Course

/-- Scans of the same sources that set out from the same index, with nothing else going on and
whoever listens, come to the same, whatever their widths and the order of their steps. -/
theorem scans_agree {c : Course} (hc : c.Reachable) {a : Atlas}
    (ha : a.registry = c.atlas.registry) (htexts : a.QueuesTexts) {w : World}
    {subPaths : Option (List String)} {width₁ width₂ : Nat}
    {out₁ out₂ : Atlas × Except ScanFault ScanReport}
    (h₁ : a.Scans w subPaths width₁ out₁) (h₂ : a.Scans w subPaths width₂ out₂) :
    (∃ fault, a.discover w.disk subPaths = .error fault ∧
      out₁ = (a, .error (.discovery fault)) ∧ out₂ = (a, .error (.discovery fault))) ∨
    ∃ names, a.discover w.disk subPaths = .ok names ∧
      (((∃ name ∈ names, ¬ a.Settles w name) ∧ (∃ crash, out₁.2 = .error (.crashed crash)) ∧
        ∃ crash, out₂.2 = .error (.crashed crash)) ∨
      ((∀ name ∈ names, a.Settles w name) ∧ ∃ b₁ b₂ report₁ report₂,
        out₁ = (b₁, .ok report₁) ∧ out₂ = (b₂, .ok report₂) ∧
        Atlas.ShowSame b₁ b₂ report₁ report₂ ∧
        a.Accounts b₁ names report₁ ∧ a.Accounts b₂ names report₂)) := by
  have htidy : a.registry.Tidy := ha ▸ hc.sound.registry
  have htraced : a.registry.AllFiles SourceFile.Traced := ha ▸ hc.traced
  rcases h₁.outcome htidy htexts with ⟨fault, hfault, rfl⟩ | ⟨names, hnames, hcome₁⟩
  · rcases h₂.outcome htidy htexts with ⟨fault₂, hfault₂, rfl⟩ | ⟨names, hnames, -⟩
    · cases hfault.symm.trans hfault₂
      exact .inl ⟨fault, hfault, rfl, rfl⟩
    · cases hfault.symm.trans hnames
  · rcases h₂.outcome htidy htexts with ⟨fault, hfault, -⟩ | ⟨names₂, hnames₂, hcome₂⟩
    · cases hfault.symm.trans hnames
    cases hnames.symm.trans hnames₂
    refine .inr ⟨names, hnames, ?_⟩
    rcases hcome₁ with ⟨hsome, hraised₁⟩ |
      ⟨hall, s₁, b₁, missed₁, n₁, hgood₁, hended₁, hcrash₁, hb₁, rfl⟩
    · rcases hcome₂ with ⟨-, hraised₂⟩ | ⟨hall, -⟩
      · exact .inl ⟨hsome, hraised₁, hraised₂⟩
      · obtain ⟨k, hk, hunsettled⟩ := hsome
        exact absurd (hall k hk) hunsettled
    · rcases hcome₂ with ⟨⟨k, hk, hunsettled⟩, -⟩ |
        ⟨-, s₂, b₂, missed₂, n₂, hgood₂, hended₂, hcrash₂, hb₂, rfl⟩
      · exact absurd (hall k hk) hunsettled
      · exact .inr ⟨hall, b₁.note n₁, b₂.note n₂, s₁.report, s₂.report, rfl, rfl,
          hgood₁.showSame htidy htraced hended₁ hcrash₁ hgood₂ hended₂ hcrash₂ hb₁ hb₂ n₁ n₂,
          hgood₁.accounts_close hended₁ hcrash₁ hb₁ n₁,
          hgood₂.accounts_close hended₂ hcrash₂ hb₂ n₂⟩

/-- Two sources, each of which includes the second one. -/
def pairWorld : World where
  disk := { root := .directory [("src", .directory
    [("a.php", .file [49] default), ("b.php", .file [50] default)])] }
  codecs := .common
  parser _ _ := .ok (.list [.object [("kind", .str "include"), ("target", .str "b.php")]])

/-- An index that knows neither of them. -/
def pair : Course := fresh "/src" {}

/-- The index with somebody who listens. -/
def heardPair : Atlas :=
  { pair.atlas with feed := (pair.atlas.feed.subscribe (some 0)).1 }

theorem discover_pair : heardPair.discover pairWorld.disk none = .ok ["a.php", "b.php"] := by
  cbv

/-- Both errands set out, and the second one comes back first. -/
theorem run_swapped : ∃ s : Scanning,
    Scanning.Run pairWorld 2 2 { atlas := heardPair, waiting := ["a.php", "b.php"] } s ∧
      s.Ended ∧ s.settled = ["b.php", "a.php"] := by
  have hfirst : Scanning.Step pairWorld 2 2 _ _ :=
    .enter heardPair [] "a.php" ["b.php"] [] [] {} [] Nat.two_pos
  have hset := (Scanning.Run.step .refl hfirst).step
    (.enter _ [] "b.php" [] [_] [] {} [] Nat.one_lt_two)
  have hdone := hset.trans (Scanning.run_complete _ _ _ _ _ _ _)
  have hback := hdone.step (.reply _ _ [] _ _ _ _ _ _ _ (by decide +kernel))
  have hrest := hback.trans (Scanning.run_complete _ _ _ _ _ _ _)
  exact ⟨_, hrest.step (.reply _ _ [] _ _ _ _ _ _ _ (by decide +kernel)), ⟨rfl, rfl⟩, rfl⟩

/-- The two sources are scanned one by one, and then, in another scan, at once.  The listener hears
of both sources each time. -/
theorem scans_agree_swapped : ∃ s : Scanning, s.settled = ["b.php", "a.php"] ∧
    ∃ b₁ b₂ report₁ report₂, heardPair.scan pairWorld none = (b₁, .ok report₁) ∧
      s.close 2 = (b₂, .ok report₂) ∧ Atlas.ShowSame b₁ b₂ report₁ report₂ ∧
      ((b₁.feed.held 0).filter (·.kind = .progress)).map Event.progress =
        [some (1, 2), some (2, 2)] ∧
      ((b₂.feed.held 0).filter (·.kind = .progress)).map Event.progress =
        [some (1, 2), some (2, 2)] := by
  obtain ⟨s, hrun, hended, hsettled⟩ := run_swapped
  have htexts : heardPair.QueuesTexts := by
    intro k n f hn
    cases hn
  have honeByOne : heardPair.Scans pairWorld none 1 (heardPair.scan pairWorld none) := by
    refine Atlas.scans_scan Nat.one_pos fun names hnames => ?_
    cases discover_pair.symm.trans hnames
    decide +kernel
  have hsettles : ∀ name ∈ ["a.php", "b.php"], heardPair.Settles pairWorld name := by
    decide +kernel
  have hatOnce : heardPair.Scans pairWorld none 2 (s.close 2) := .ended discover_pair hrun hended
  have hsame : heardPair.registry = pair.atlas.registry := rfl
  rcases scans_agree (.fresh "/src" {}) hsame htexts honeByOne hatOnce with
    ⟨fault, hfault, -⟩ | ⟨names, hnames, hcome⟩
  · cases discover_pair.symm.trans hfault
  cases discover_pair.symm.trans hnames
  rcases hcome with ⟨⟨name, hname, hunsettled⟩, -⟩ |
    ⟨-, b₁, b₂, report₁, report₂, hout₁, hout₂, hsame, haccounts₁, haccounts₂⟩
  · exact absurd (hsettles name hname) hunsettled
  · have hqueue : heardPair.feed.queues[0]? = some { capacity := 0 } := rfl
    exact ⟨s, hsettled, b₁, b₂, report₁, report₂, hout₁, hout₂, hsame,
      haccounts₁.heard hqueue rfl (Int.le_refl 0) rfl,
      haccounts₂.heard hqueue rfl (Int.le_refl 0) rfl⟩

/-- A source, to be read in an encoding under which nothing can be read. -/
def voidSite : World where
  disk := { root := .directory [("src", .directory
    [("a.php", .file [91, 93] (.finite false 1 0))])] }
  codecs := .common
  parser _ _ := .ok (.list [])

/-- An index that has read nothing yet. -/
def void : Course := fresh "/src" { index := { encoding := "undefined" } }

theorem discover_voidSite : void.atlas.discover voidSite.disk none = .ok ["a.php"] := by cbv

theorem scans_voidSite : void.atlas.Scans voidSite none 1 (void.atlas.scan voidSite none) := by
  refine Atlas.scans_scan Nat.one_pos fun names hfound => ?_
  cases discover_voidSite.symm.trans hfound
  decide +kernel

/-- That the only source cannot be read is not counted in a report, but raised. -/
theorem scan_voidSite :
    void.atlas.discover voidSite.disk none = .ok ["a.php"] ∧
    void.atlas.Scans voidSite none 1 (void.atlas.scan voidSite none) ∧
    (void.atlas.scan voidSite none).1.registry.crashes =
      [(0, .decoding (Codec.undefined "undefined"))] ∧
    ∃ crash, (void.atlas.scan voidSite none).2 = .error (.crashed crash) := by
  have htexts : void.atlas.QueuesTexts := by
    intro k n f hn
    cases hn
  refine ⟨discover_voidSite, scans_voidSite, by decide +kernel, ?_⟩
  rcases scans_voidSite.outcome (Registry.tidy_empty _) htexts with ⟨fault, hfault, -⟩ |
    ⟨names, hfound, ⟨-, hraised⟩ | ⟨hall, -⟩⟩
  · cases discover_voidSite.symm.trans hfault
  · exact hraised
  · cases discover_voidSite.symm.trans hfound
    exact absurd (hall "a.php" List.mem_cons_self) (by decide +kernel)

end Course

end SymbolAtlas
