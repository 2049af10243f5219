import Mathlib
import SymbolAtlas.Proofs.Atlas.Errands

/-!
# How a scan stands

At any point of a scan every name waits, has an errand on its way, or its errand has come back with
what its verdict says; what was added to the counts so far is the sum of what these amount to; the
report tells of the names that have come to a result, and every one of them has been announced in
turn (`Scanning.Good`).  Each step keeps this, whichever it is (`Scanning.Good.step`), so at the end
nothing depends on the order of the steps (`Scanning.Good.fulfilled`).
-/

namespace SymbolAtlas

namespace Verdict

def isParsed : Verdict → Bool
  | .parsed _ _ => true
  | _ => false

def isKept : Verdict → Bool
  | .kept _ => true
  | _ => false

def failure? : Verdict → Option Failure
  | .failed _ failure => some failure
  | _ => none

theorem one_result {v : Verdict} (h : v.IsResult) :
    (if v.isParsed then 1 else 0) + (if v.isKept then 1 else 0) + v.failure?.toList.length = 1 := by
  cases v with
  | abandoned previous crash => exact absurd h id
  | stuck => exact absurd h id
  | _ => rfl

/-- Names whose verdicts are results are parsed, kept or failed. -/
theorem count_results {verdict : String → Verdict} {names : List String}
    (h : ∀ k ∈ names, (verdict k).IsResult) :
    names.countP (fun k => (verdict k).isParsed) + names.countP (fun k => (verdict k).isKept) +
      (names.filterMap fun k => (verdict k).failure?.map fun failure => (k, failure)).length =
      names.length := by
  induction names with
  | nil => rfl
  | cons k rest ih =>
    obtain ⟨hk, hrest⟩ := List.forall_mem_cons.1 h
    have hcount := ih hrest
    have hone := one_result hk
    rw [List.countP_cons, List.countP_cons, List.filterMap_cons, List.length_cons]
    cases hfailure : (verdict k).failure? with
    | none =>
      rw [hfailure] at hone
      simp only [Option.map_none, Option.toList_none, List.length_nil] at hone ⊢
      omega
    | some failure =>
      rw [hfailure] at hone
      simp only [Option.map_some, Option.toList_some, List.length_cons, List.length_nil] at hone ⊢
      omega

/-- The verdict on a name has come true. -/
def Fulfilled (a b : Atlas) (k : String) : Verdict → Prop
  | .kept _ => Atlas.Untouched a b k
  | .parsed _ f => b.registry.failures.get? k = none ∧
      ∃ n g, b.registry.entries.get? k = some (.loaded n) ∧ b.file? n = some g ∧ f.Relinked g ∧
        a.registry.files.size ≤ n
  | .failed _ failure => b.registry.entries.get? k = none ∧
      b.registry.failures.get? k = some failure
  | .abandoned _ _ => ∃ load, b.registry.entries.get? k = some (.loading load) ∧
      (b.registry.crash? load).isSome
  | .stuck => Atlas.Untouched a b k

end Verdict

namespace Atlas

variable {w : World} {a b : Atlas} {k : String}

theorem Answers.fulfilled {outcome : Outcome} (h : Answers w a b k outcome) :
    (a.verdict w k).Fulfilled a b k := by
  cases h with
  | kept hverdict h =>
    rw [hverdict]
    exact h
  | parsed hverdict hentry hfailure hfile _ hrelinked hnew =>
    rw [hverdict]
    exact ⟨hfailure, _, _, hentry, hfile, hrelinked, hnew⟩
  | failed hverdict hentry hfailure =>
    rw [hverdict]
    exact ⟨hentry, hfailure⟩
  | abandoned hverdict hentry hcrash =>
    rw [hverdict]
    exact ⟨_, hentry, hcrash⟩
  | stuck hverdict _ h =>
    rw [hverdict]
    exact h

/-- A name has come to a result if its verdict is one. -/
theorem Answers.isResult_iff {outcome : Outcome} (h : Answers w a b k outcome) :
    outcome.IsResult ↔ (a.verdict w k).IsResult := by
  cases h with
  | kept hverdict h => exact iff_of_true trivial (hverdict ▸ trivial)
  | parsed hverdict => exact iff_of_true trivial (hverdict ▸ trivial)
  | failed hverdict => exact iff_of_true trivial (hverdict ▸ trivial)
  | abandoned hverdict => exact iff_of_false id (hverdict ▸ id)
  | stuck hverdict houtcome => exact iff_of_false houtcome (hverdict ▸ id)

theorem entry_of_kept {n : Nat} (h : a.verdict w k = .kept n) :
    a.registry.entries.get? k = some (.loaded n) := by
  have hallows := a.allows_decideRefresh w.disk { name := k }
  unfold verdict at h
  split at h
  · rename_i m hm
    cases h
    rw [hm] at hallows
    exact hallows
  · exact absurd h verdictOf_ne_kept
  · cases h
  · cases h

end Atlas

/-! ## Reports -/

/-- A report tells of the names that have settled. -/
structure ScanReport.Tells (w : World) (a : Atlas) (settled : List String) (report : ScanReport) :
    Prop where
  parsed : report.parsed = settled.countP fun k => (a.verdict w k).isParsed
  kept : report.kept = settled.countP fun k => (a.verdict w k).isKept
  failures : report.failures =
    settled.filterMap fun k => (a.verdict w k).failure?.map fun failure => (k, failure)
  files : ∀ k ∈ settled, ∀ n, a.verdict w k = .kept n → n ∈ report.files

namespace ScanReport.Tells

variable {w : World} {a b : Atlas} {settled : List String} {report : ScanReport} {k : String}

theorem get?_failures (h : report.Tells w a settled) (hk : k ∉ settled) :
    report.failures.get? k = none := by
  rw [Ledger.get?_eq_none_iff, h.failures, Ledger.keys, List.mem_map]
  rintro ⟨entry, hentry, rfl⟩
  obtain ⟨j, hj, hfailure⟩ := List.mem_filterMap.1 hentry
  obtain ⟨failure, -, rfl⟩ := Option.map_eq_some_iff.1 hfailure
  exact hk hj

/-- One more name has settled, and the report tells of it what its verdict says. -/
theorem snoc (h : report.Tells w a settled) {report' : ScanReport} {v : Verdict}
    (hverdict : a.verdict w k = v)
    (hparsed : report'.parsed = report.parsed + if v.isParsed then 1 else 0)
    (hkept : report'.kept = report.kept + if v.isKept then 1 else 0)
    (hfailures : report'.failures =
      report.failures ++ (v.failure?.map fun failure => (k, failure)).toList)
    (hold : ∀ n ∈ report.files, n ∈ report'.files) (hnew : ∀ n, v = .kept n → n ∈ report'.files) :
    report'.Tells w a (settled ++ [k]) := by
  subst hverdict
  refine ⟨?_, ?_, ?_, fun j hj n hn => ?_⟩
  · rw [hparsed, h.parsed, List.countP_append, List.countP_singleton]
  · rw [hkept, h.kept, List.countP_append, List.countP_singleton]
  · rw [hfailures, h.failures, List.filterMap_append, List.filterMap_cons, List.filterMap_nil]
    cases (a.verdict w k).failure? <;> rfl
  · rcases List.mem_append.1 hj with hj | hj
    · exact hold n (h.files j hj n hn)
    · exact hnew n (List.mem_singleton.1 hj ▸ hn)

/-- The result of one more name is added. -/
theorem add (h : report.Tells w a settled) (ha : a.registry.Tidy) (hk : k ∉ settled)
    {outcome : Outcome} (hanswers : Atlas.Answers w a b k outcome) (houtcome : outcome.IsResult) :
    (report.add k (a.registry.entries.get? k) outcome).Tells w a (settled ++ [k]) := by
  cases hanswers with
  | @kept n hverdict _ =>
    rw [ScanReport.add, if_pos (Atlas.entry_of_kept hverdict)]
    refine h.snoc hverdict rfl rfl (List.append_nil _).symm
      (fun m hm => List.mem_append_left _ hm) fun m hm => ?_
    cases hm
    exact List.mem_append_right _ (List.mem_singleton_self _)
  | @parsed previous f g n hverdict _ _ _ _ _ hnew =>
    have hother : a.registry.entries.get? k ≠ some (.loaded n) := fun hn =>
      absurd (ha.lt_size hn) (Nat.not_lt.2 hnew)
    rw [ScanReport.add, if_neg hother]
    exact h.snoc hverdict rfl rfl (List.append_nil _).symm
      (fun m hm => List.mem_append_left _ hm) fun m hm => by cases hm
  | @failed previous failure hverdict _ _ =>
    have hset : report.failures.set k failure = report.failures ++ [(k, failure)] :=
      Ledger.set_of_get?_eq_none (h.get?_failures hk) failure
    exact h.snoc hverdict rfl rfl hset (fun m hm => hm) fun m hm => by cases hm
  | abandoned => exact absurd houtcome id
  | stuck _ hno => exact absurd houtcome hno

/-- A crash changes nothing of what is told. -/
theorem crash (h : report.Tells w a settled) (k : String) (before : Option Entry) (crash : Crash) :
    (report.add k before (.crashed crash)).Tells w a settled :=
  ⟨h.parsed, h.kept, h.failures, h.files⟩

end ScanReport.Tells

namespace ScanReport

theorem crash_add {report : ScanReport} {outcome : Outcome} (h : outcome.IsResult) (name : String)
    (before : Option Entry) : (report.add name before outcome).crash = report.crash := by
  cases outcome with
  | file n =>
    simp only [add]
    split <;> rfl
  | failed failure => rfl
  | crashed crash => exact absurd h id
  | waiting load => exact absurd h id

end ScanReport

/-! ## Announcements -/

/-- Between two states of a feed the names have been announced, one after the other. -/
def Feed.Announces (total : Nat) (settled : List String) (before after : Feed Event) : Prop :=
  ∃ events : List Event, after = events.foldl Feed.publish before ∧
    (events.filter (·.kind = .progress)).map (fun e => (e.name, e.progress)) =
      settled.zipIdx.map fun x => (x.1, some (x.2 + 1, total))

namespace Feed.Announces

variable {total : Nat} {settled : List String} {before after : Feed Event}

theorem nil (feed : Feed Event) : Announces total [] feed feed :=
  ⟨[], rfl, rfl⟩

/-- Events of other kinds may come in between. -/
theorem others (h : Announces total settled before after) {events : List Event}
    (hkind : ∀ e ∈ events, e.kind ≠ .progress) :
    Announces total settled before (events.foldl Feed.publish after) := by
  obtain ⟨earlier, rfl, hearlier⟩ := h
  have hnone : events.filter (·.kind = .progress) = [] :=
    List.filter_eq_nil_iff.2 fun e he => by simpa using hkind e he
  refine ⟨earlier ++ events, (List.foldl_append ..).symm, ?_⟩
  rw [List.filter_append, hnone, List.append_nil]
  exact hearlier

theorem announce (h : Announces total settled before after) (name : String) :
    Announces total (settled ++ [name]) before (after.publish
      { kind := .progress, name := name, progress := some (settled.length + 1, total) }) := by
  obtain ⟨earlier, rfl, hearlier⟩ := h
  have hone : ∀ event, (earlier ++ [event]).foldl Feed.publish before =
      (earlier.foldl Feed.publish before).publish event := fun event => List.foldl_append
  refine ⟨_, (hone _).symm, ?_⟩
  rw [List.filter_append, List.map_append, hearlier, List.zipIdx_append, List.map_append]
  simp

/-- The announcements count up to the number of names. -/
theorem progress (h : Announces total settled before after) :
    ∃ events : List Event, after = events.foldl Feed.publish before ∧
      (events.filter (·.kind = .progress)).map Event.progress =
        (List.range settled.length).map fun i => some (i + 1, total) := by
  obtain ⟨events, hafter, hevents⟩ := h
  refine ⟨events, hafter, ?_⟩
  have hsnd := congrArg (List.map Prod.snd) hevents
  rw [List.map_map, List.map_map] at hsnd
  have hindices : settled.zipIdx.map Prod.snd = List.range settled.length := by
    rw [List.zipIdx_map_snd, List.range_eq_range']
  rw [← hindices, List.map_map]
  exact hsnd

end Feed.Announces

/-! ## Scans under way -/

namespace Scanning

open Atlas

/-- The names whose errands have come back. -/
def back (s : Scanning) : List String :=
  s.settled ++ s.dropped

/-- How a scan stands that has set out from an atlas for some names. -/
structure Good (w : World) (a : Atlas) (names : List String) (s : Scanning) : Prop where
  tidy : s.atlas.registry.Tidy
  size : a.registry.files.size ≤ s.atlas.registry.files.size
  ground : SameGround a s.atlas
  everyName : (s.waiting ++ (s.active.map Errand.name ++ s.back)).Perm names
  untouched : ∀ k, k ∉ s.active.map Errand.name → k ∉ s.back → Untouched a s.atlas k
  active : ∀ e ∈ s.active,
    e.before = a.registry.entries.get? e.name ∧ Stands w a s.atlas e.name e.stage
  answers : ∀ k ∈ s.back, ∃ outcome, Answers w a s.atlas k outcome
  settled : ∀ k ∈ s.settled, (a.verdict w k).IsResult
  dropped : ∀ k ∈ s.dropped, ¬ (a.verdict w k).IsResult
  tally : s.atlas.registry.tally = a.registry.tally +
    ((s.active.map fun e => e.stage.toll a w e.name).sum +
      (s.back.map fun k => (a.verdict w k).toll a).sum)
  report : s.report.Tells w a s.settled
  crash : s.report.crash = none ↔ s.dropped = []
  parses : ∃ more, s.atlas.parses = a.parses ++ more ∧ ∀ j ∈ more, ∀ n, a.verdict w j ≠ .kept n
  feed : Feed.Announces names.length s.settled a.feed s.atlas.feed

variable {w : World} {a : Atlas} {names : List String} {s t : Scanning}

theorem Good.mem_of_active (h : Good w a names s) {e : Errand} (he : e ∈ s.active) :
    e.name ∈ names :=
  h.everyName.subset
    (List.mem_append_right _ (List.mem_append_left _ (List.mem_map_of_mem he)))

theorem Good.mem_of_dropped (h : Good w a names s) {k : String} (hk : k ∈ s.dropped) :
    k ∈ names :=
  h.everyName.subset
    (List.mem_append_right _ (List.mem_append_right _ (List.mem_append_right _ hk)))

theorem good_start (ha : a.registry.Tidy) (names : List String) :
    Good w a names { atlas := a, waiting := names } where
  tidy := ha
  size := Nat.le_refl _
  ground := ⟨rfl, rfl⟩
  everyName := by simp [back]
  untouched := fun k _ _ => .refl a k
  active := fun e he => absurd he List.not_mem_nil
  answers := fun k hk => absurd hk List.not_mem_nil
  settled := fun k hk => absurd hk List.not_mem_nil
  dropped := fun k hk => absurd hk List.not_mem_nil
  tally := by simp [back]
  report := ⟨rfl, rfl, rfl, fun k hk => absurd hk List.not_mem_nil⟩
  crash := iff_of_true rfl rfl
  parses := ⟨[], (List.append_nil _).symm, by simp⟩
  feed := .nil _

/-- The errand for a name gets to another stage. -/
theorem Good.move (h : Good w a names s) (ha : a.registry.Tidy) (hd : names.Nodup) {k : String}
    {paid : Tally} {b : Atlas} {stage : Stage} (hmoves : Moves w a k paid s.atlas b stage)
    {waiting : List String} {front rest : List Errand}
    (hnames : (waiting ++ ((front ++ ⟨k, a.registry.entries.get? k, stage⟩ :: rest).map
      Errand.name ++ s.back)).Perm names)
    (hactive : ∀ e ∈ front ++ rest, e ∈ s.active)
    (hothers : ∀ e ∈ s.active, e.name ≠ k → e ∈ front ++ rest)
    (hpaid : (s.active.map fun e => e.stage.toll a w e.name).sum =
      paid + ((front ++ rest).map fun e => e.stage.toll a w e.name).sum) :
    Good w a names ⟨b, waiting, front ++ ⟨k, a.registry.entries.get? k, stage⟩ :: rest, s.settled,
      s.report, s.dropped⟩ := by
  -- the name is the errand's alone
  have hnodup := (List.nodup_append.1 (hnames.nodup_iff.2 hd)).2.1
  rw [List.map_append, List.map_cons, List.append_assoc, List.cons_append, List.nodup_middle,
    List.nodup_cons, ← List.append_assoc, ← List.map_append, List.mem_append, not_or,
    List.mem_map] at hnodup
  obtain ⟨⟨hactiveName, hbackName⟩, -⟩ := hnodup
  have hname : ∀ e ∈ front ++ rest, e.name ≠ k := fun e he hek => hactiveName ⟨e, he, hek⟩
  exact {
    tidy := hmoves.tidy
    size := h.size.trans hmoves.size
    ground := ⟨hmoves.settings.trans h.ground.settings,
      hmoves.spares.site.trans h.ground.site⟩
    everyName := hnames
    untouched := by
      intro j hj hjback
      simp only [List.map_append, List.map_cons, List.mem_append, List.mem_cons, not_or] at hj
      obtain ⟨hjfront, hjk, hjrest⟩ := hj
      refine (h.untouched j ?_ hjback).spared ha hmoves.spares hjk
      rw [List.mem_map]
      rintro ⟨e, he, rfl⟩
      rcases List.mem_append.1 (hothers e he hjk) with hmem | hmem
      · exact hjfront (List.mem_map_of_mem hmem)
      · exact hjrest (List.mem_map_of_mem hmem)
    active := by
      intro e he
      have hcases : e = ⟨k, a.registry.entries.get? k, stage⟩ ∨ e ∈ front ++ rest := by
        simp only [List.mem_append, List.mem_cons] at he ⊢
        tauto
      rcases hcases with rfl | he
      · exact ⟨rfl, hmoves.stands⟩
      · obtain ⟨hbefore, hstage⟩ := h.active e (hactive e he)
        exact ⟨hbefore, hstage.spared ha hmoves.spares (hname e he)⟩
    answers := by
      intro j hj
      obtain ⟨outcome, houtcome⟩ := h.answers j hj
      have hjk : j ≠ k := by
        rintro rfl
        exact hbackName hj
      exact ⟨outcome, houtcome.spared ha hmoves.spares hjk⟩
    settled := h.settled
    dropped := h.dropped
    tally := by
      show b.registry.tally = a.registry.tally + (_ + (s.back.map _).sum)
      rw [hmoves.tally, h.tally, hpaid]
      simp only [List.map_append, List.map_cons, List.sum_append, List.sum_cons]
      abel
    report := h.report
    crash := h.crash
    parses := by
      obtain ⟨earlier, hearlier, hold⟩ := h.parses
      obtain ⟨more, hmore, hnew⟩ := hmoves.parses
      refine ⟨earlier ++ more, by rw [hmore, hearlier, List.append_assoc], fun j hj => ?_⟩
      rcases List.mem_append.1 hj with hj | hj
      · exact hold j hj
      · exact hnew j hj
    feed := by
      obtain ⟨events, hkind, hfeed⟩ := hmoves.feed
      rw [hfeed]
      exact h.feed.others hkind }

/-- The errand for a waiting name sets out. -/
theorem Good.enter {b : Atlas} {front rest settled dropped : List String} {name : String}
    {active : List Errand} {report : ScanReport}
    (h : Good w a names ⟨b, front ++ name :: rest, active, settled, report, dropped⟩)
    (ha : a.registry.Tidy) (hd : names.Nodup) :
    Good w a names ⟨(b.approach w.disk name).1, front ++ rest,
      ⟨name, b.registry.entries.get? name, (b.approach w.disk name).2⟩ :: active, settled, report,
      dropped⟩ := by
  have hperm : (name :: (front ++ rest ++ (active.map Errand.name ++ (settled ++ dropped)))).Perm
      names :=
    (List.perm_middle.symm.append_right _).trans h.everyName
  obtain ⟨hname, -⟩ := List.nodup_cons.1 (hperm.nodup_iff.2 hd)
  simp only [List.mem_append (s := front ++ rest), List.mem_append (s := active.map _),
    not_or] at hname
  have huntouched : Untouched a b name := h.untouched name hname.2.1 hname.2.2
  have hmoves : Moves w a name 0 b (b.approach w.disk name).1 (b.approach w.disk name).2 :=
    moves_approach h.tidy h.ground huntouched
  have hnames : (front ++ rest ++ ((active.map Errand.name).cons name ++
      (settled ++ dropped))).Perm names :=
    List.perm_middle.trans hperm
  rw [show b.registry.entries.get? name = a.registry.entries.get? name from huntouched.entry]
  exact @Good.move _ _ _ _ h ha hd _ _ _ _ hmoves _ [] active hnames (fun e he => he)
    (fun e he _ => he) (zero_add _).symm

/-- An errand that has no answer yet gets one step further. -/
theorem Good.advance {b : Atlas} {waiting settled dropped : List String} {front rest : List Errand}
    {e : Errand} {report : ScanReport}
    (h : Good w a names ⟨b, waiting, front ++ e :: rest, settled, report, dropped⟩)
    (ha : a.registry.Tidy) (hd : names.Nodup) (hstage : ¬ e.stage.IsAnswered) :
    Good w a names ⟨(b.advance w e.stage).1, waiting,
      front ++ { e with stage := (b.advance w e.stage).2 } :: rest, settled, report, dropped⟩ := by
  obtain ⟨name, before, stage⟩ := e
  have hmem : (⟨name, before, stage⟩ : Errand) ∈ front ++ ⟨name, before, stage⟩ :: rest :=
    List.mem_append_right _ List.mem_cons_self
  obtain ⟨hbefore, hstands⟩ := h.active _ hmem
  have hmoves := moves_advance ha h.tidy h.ground h.size hstage hstands
  cases (show before = a.registry.entries.get? name from hbefore)
  have hnames : (waiting ++ ((front ++ ⟨name, a.registry.entries.get? name,
      (b.advance w stage).2⟩ :: rest).map Errand.name ++ (settled ++ dropped))).Perm names := by
    have hsame := h.everyName
    simp only [back, List.map_append, List.map_cons] at hsame ⊢
    exact hsame
  refine h.move ha hd hmoves hnames ?_ ?_ ?_
  · intro e he
    simp only [List.mem_append, List.mem_cons] at he ⊢
    tauto
  · intro e he hne
    simp only [List.mem_append, List.mem_cons] at he ⊢
    rcases he with he | rfl | he
    · exact .inl he
    · exact absurd rfl hne
    · exact .inr he
  · simp only [List.map_append, List.map_cons, List.sum_append, List.sum_cons]
    abel

/-- An errand comes back with its answer. -/
theorem Good.comeBack {b b' : Atlas} {waiting settled settled' dropped dropped' : List String}
    {front rest : List Errand} {name : String} {before : Option Entry} {outcome : Outcome}
    {report report' : ScanReport}
    (h : Good w a names
      ⟨b, waiting, front ++ ⟨name, before, .answered outcome⟩ :: rest, settled, report, dropped⟩)
    (hregistry : b'.registry = b.registry) (hsettings : b'.settings = b.settings)
    (hparses : b'.parses = b.parses)
    (hback : (settled' ++ dropped').Perm (name :: (settled ++ dropped)))
    (hsettled : ∀ k ∈ settled', (a.verdict w k).IsResult)
    (hdropped : ∀ k ∈ dropped', ¬ (a.verdict w k).IsResult)
    (hreport : report'.Tells w a settled') (hcrash : report'.crash = none ↔ dropped' = [])
    (hfeed : Feed.Announces names.length settled' a.feed b'.feed) :
    Good w a names ⟨b', waiting, front ++ rest, settled', report', dropped'⟩ := by
  have hmem : (⟨name, before, .answered outcome⟩ : Errand) ∈
      front ++ ⟨name, before, .answered outcome⟩ :: rest :=
    List.mem_append_right _ List.mem_cons_self
  have hanswers : Answers w a b name outcome := by
    have hstands := (h.active _ hmem).2
    cases hstands with
    | answered h => exact h
  exact {
    tidy := hregistry ▸ h.tidy
    size := hregistry ▸ h.size
    ground := ⟨hsettings.trans h.ground.settings, hregistry ▸ h.ground.site⟩
    everyName := by
      refine List.Perm.trans ?_ h.everyName
      simp only [back, List.map_append, List.map_cons]
      refine List.Perm.append_left _ ((hback.append_left _).trans ?_)
      exact List.perm_middle.trans (List.perm_middle.symm.append_right _)
    untouched := by
      intro k hk hkback
      have hkback : k ∉ name :: (settled ++ dropped) := fun hmem => hkback (hback.mem_iff.2 hmem)
      rw [List.mem_cons, not_or] at hkback
      have hkept : Untouched a b k := by
        refine h.untouched k ?_ hkback.2
        simp only [List.map_append, List.map_cons, List.mem_append, List.mem_cons, not_or] at hk ⊢
        exact ⟨hk.1, hkback.1, hk.2⟩
      exact hkept.congr hregistry
    active := by
      intro e he
      have hold : e ∈ front ++ ⟨name, before, .answered outcome⟩ :: rest := by
        simp only [List.mem_append, List.mem_cons] at he ⊢
        tauto
      exact ⟨(h.active e hold).1, (h.active e hold).2.congr hregistry⟩
    answers := by
      intro k hk
      rcases List.mem_cons.1 (hback.mem_iff.1 hk) with rfl | hk
      · exact ⟨outcome, hanswers.congr hregistry⟩
      · obtain ⟨other, hother⟩ := h.answers k hk
        exact ⟨other, hother.congr hregistry⟩
    settled := hsettled
    dropped := hdropped
    tally := by
      rw [hregistry, h.tally]
      simp only [back]
      rw [(hback.map _).sum_eq]
      simp only [List.map_append, List.map_cons, List.sum_append, List.sum_cons, Stage.toll]
      abel
    report := hreport
    crash := hcrash
    parses := hparses ▸ h.parses
    feed := hfeed }

/-- An errand comes back with a result, and its name has settled. -/
theorem Good.reply {b : Atlas} {waiting settled dropped : List String} {front rest : List Errand}
    {name : String} {before : Option Entry} {outcome : Outcome} {report : ScanReport}
    (h : Good w a names
      ⟨b, waiting, front ++ ⟨name, before, .answered outcome⟩ :: rest, settled, report, dropped⟩)
    (ha : a.registry.Tidy) (hd : names.Nodup) (houtcome : outcome.IsResult) :
    Good w a names ⟨b.tell
      { kind := .progress, name := name, progress := some (settled.length + 1, names.length) },
      waiting, front ++ rest, settled ++ [name], report.add name before outcome, dropped⟩ := by
  obtain ⟨hbefore, hstands⟩ :=
    h.active ⟨name, before, .answered outcome⟩ (List.mem_append_right _ List.mem_cons_self)
  have hanswers : Answers w a b name outcome := by
    cases hstands with
    | answered h => exact h
  have hsettled : name ∉ settled := by
    have hnodup := (List.nodup_append.1 (h.everyName.nodup_iff.2 hd)).2.1
    intro hmem
    refine (List.nodup_append.1 hnodup).2.2 name ?_ name (List.mem_append_left _ hmem) rfl
    simp
  refine h.comeBack rfl rfl rfl ?_ ?_ h.dropped ?_ ?_ (h.feed.announce name)
  · rw [List.append_assoc]
    exact List.perm_middle
  · intro k hk
    rcases List.mem_append.1 hk with hk | hk
    · exact h.settled k hk
    · rw [List.mem_singleton.1 hk]
      exact hanswers.isResult_iff.1 houtcome
  · rw [show before = a.registry.entries.get? name from hbefore]
    exact h.report.add ha hsettled hanswers houtcome
  · rw [ScanReport.crash_add houtcome]
    exact h.crash

/-- An errand that has crashed is dropped. -/
theorem Good.drop {b : Atlas} {waiting settled dropped : List String} {front rest : List Errand}
    {name : String} {before : Option Entry} {crash : Crash} {report : ScanReport}
    (h : Good w a names ⟨b, waiting, front ++ ⟨name, before, .answered (.crashed crash)⟩ :: rest,
      settled, report, dropped⟩) :
    Good w a names ⟨b, waiting, front ++ rest, settled, report.add name before (.crashed crash),
      dropped ++ [name]⟩ := by
  have hstands := (h.active ⟨name, before, .answered (.crashed crash)⟩
    (List.mem_append_right _ List.mem_cons_self)).2
  have hanswers : Answers w a b name (.crashed crash) := by
    cases hstands with
    | answered h => exact h
  have hcrash : (report.add name before (.crashed crash)).crash ≠ none := by
    unfold ScanReport.add
    cases report.crash <;> simp
  refine h.comeBack rfl rfl rfl ?_ h.settled ?_ (h.report.crash name before crash) ?_ h.feed
  · rw [← List.append_assoc]
    exact List.perm_append_singleton name _
  · intro k hk
    rcases List.mem_append.1 hk with hk | hk
    · exact h.dropped k hk
    · rw [List.mem_singleton.1 hk, ← hanswers.isResult_iff]
      exact id
  · exact iff_of_false hcrash (by simp)

/-- Every step of a scan keeps it going as it should. -/
theorem Good.step (h : Good w a names s) (ha : a.registry.Tidy) (hd : names.Nodup) {width : Nat}
    (hstep : Step w width names.length s t) : Good w a names t := by
  cases hstep with
  | enter b front name rest active settled report dropped hroom => exact h.enter ha hd
  | advance b waiting front e rest settled report dropped hstage => exact h.advance ha hd hstage
  | reply b waiting front name before outcome rest settled report dropped houtcome =>
    exact h.reply ha hd houtcome
  | drop b waiting front name before crash rest settled report dropped => exact h.drop

/-- A scan stands as it should all the time. -/
theorem Run.good (ha : a.registry.Tidy) (hd : names.Nodup) {width : Nat}
    (h : Run w width names.length { atlas := a, waiting := names } s) : Good w a names s := by
  induction h with
  | refl => exact good_start ha names
  | step _ hstep ih => exact ih.step ha hd hstep

/-- A scan that need not wait for somebody else can go on to its end from any point. -/
theorem Good.exists_end (h : Good w a names s) (ha : a.registry.Tidy) (hd : names.Nodup)
    {width : Nat} (hwidth : 0 < width) (hfree : ∀ k ∈ names, a.verdict w k ≠ .stuck) :
    ∃ t, Run w width names.length s t ∧ t.Ended := by
  induction hweight : s.weight using Nat.strong_induction_on generalizing s with
  | _ weight ih =>
    by_cases hended : s.Ended
    · exact ⟨s, .refl, hended⟩
    · have hmoving : s.active = [] ∨ ∃ e ∈ s.active, ∀ outcome, e.stage = .answered outcome →
          ¬ outcome.IsWaiting := by
        cases hactive : s.active with
        | nil => exact .inl rfl
        | cons e rest =>
          refine .inr ⟨e, List.mem_cons_self, fun outcome hstage => ?_⟩
          have hmem : e ∈ s.active := hactive ▸ List.mem_cons_self
          have hname : e.name ∈ names := h.mem_of_active hmem
          have hstands := (h.active e hmem).2
          rw [hstage] at hstands
          cases hstands with
          | answered hanswers =>
            cases hanswers with
            | stuck hstuck => exact absurd hstuck (hfree e.name hname)
            | _ => exact id
      obtain ⟨t, hstep⟩ := @exists_step w width names.length hwidth s hended hmoving
      obtain ⟨u, hrun, hu⟩ :=
        ih t.weight (hweight ▸ hstep.weight_lt) (h.step ha hd hstep) rfl
      exact ⟨u, Run.trans (.step .refl hstep) hrun, hu⟩

/-! ## The end of a scan -/

namespace Good

section Back

variable (h : Good w a names s) (hended : s.Ended)

include h hended

theorem back_perm : s.back.Perm names := by
  have hperm := h.everyName
  rwa [hended.1, hended.2] at hperm

/-- The verdict on every name has come true. -/
theorem fulfilled {k : String} (hk : k ∈ names) : (a.verdict w k).Fulfilled a s.atlas k := by
  obtain ⟨outcome, hanswers⟩ := h.answers k ((h.back_perm hended).mem_iff.2 hk)
  exact hanswers.fulfilled

/-- Names that discovery did not find are as they were. -/
theorem untouched_end {k : String} (hk : k ∉ names) : Untouched a s.atlas k := by
  refine h.untouched k ?_ fun hback => hk ((h.back_perm hended).mem_iff.1 hback)
  rw [hended.2]
  exact List.not_mem_nil

theorem tally_end : s.atlas.registry.tally =
    a.registry.tally + (names.map fun k => (a.verdict w k).toll a).sum := by
  rw [h.tally, hended.2, List.map_nil, List.sum_nil, zero_add,
    ((h.back_perm hended).map _).sum_eq]

/-- No errand has crashed if and only if all names have come to results. -/
theorem crash_end : s.report.crash = none ↔ ∀ k ∈ names, (a.verdict w k).IsResult := by
  rw [h.crash]
  constructor
  · intro hnone k hk
    have hback := (h.back_perm hended).mem_iff.2 hk
    rw [back, hnone, List.append_nil] at hback
    exact h.settled k hback
  · intro hresults
    refine List.eq_nil_iff_forall_not_mem.2 fun k hk => h.dropped k hk (hresults k ?_)
    exact (h.back_perm hended).subset (List.mem_append_right _ hk)

end Back

section Settled

variable (h : Good w a names s) (hended : s.Ended) (hcrash : s.report.crash = none)

include h hended hcrash

theorem settled_perm : s.settled.Perm names := by
  have hperm := h.back_perm hended
  rwa [back, h.crash.1 hcrash, List.append_nil] at hperm

theorem parsed_end : s.report.parsed = names.countP fun k => (a.verdict w k).isParsed := by
  rw [h.report.parsed, (h.settled_perm hended hcrash).countP_eq]

theorem kept_end : s.report.kept = names.countP fun k => (a.verdict w k).isKept := by
  rw [h.report.kept, (h.settled_perm hended hcrash).countP_eq]

theorem failures_end : s.report.failures.Perm
    (names.filterMap fun k => (a.verdict w k).failure?.map fun failure => (k, failure)) := by
  rw [h.report.failures]
  exact (h.settled_perm hended hcrash).filterMap _

/-- Every name was parsed, kept, or failed. -/
theorem total_end :
    s.report.parsed + s.report.kept + s.report.failures.length = names.length := by
  rw [h.parsed_end hended hcrash, h.kept_end hended hcrash,
    (h.failures_end hended hcrash).length_eq]
  exact Verdict.count_results ((h.crash_end hended).1 hcrash)

end Settled

end Good

end Scanning

end SymbolAtlas
