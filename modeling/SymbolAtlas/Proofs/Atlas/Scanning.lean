import Mathlib
import SymbolAtlas.Atlas.Scan

/-!
# Scans in any order

A scan sends an errand for every name that discovery finds.  At most so many errands as the width
of the scan are on their way at once; which of them takes its next step, and which name comes next,
is open.  An errand looks at the disk if it has to, has a load started, waits while the load opens
its source and settles, and then comes back with a result, which is announced and added to the
report.  An errand that crashes is dropped, and from then on the scan may raise, whether or not the
other errands have come back; they go on in any case.  An errand that waits for the load of somebody
else is held.

Every scan comes to an end unless that happens (`Scanning.Step.weight_lt`, `Scanning.exists_step`),
and going through the names one by one is one of the ways (`Atlas.scans_scan`).
-/

namespace SymbolAtlas

/-- How far an errand has come. -/
inductive Stage where
  /-- The disk has to answer. -/
  | inspecting (i : Atlas.Inspection)
  /-- A load was started for it. -/
  | started (load : Load)
  /-- Its load has opened the source, or could not. -/
  | working (load : Load) (source : Except OpenFault OpenedSource)
  | answered (outcome : Outcome)

/-- The refresh of one name in a scan, with what was entered under the name when it set out. -/
structure Errand where
  name : String
  before : Option Entry
  stage : Stage

/-- Whether an outcome is a result. -/
def Outcome.IsResult : Outcome → Prop
  | .file _ => True
  | .failed _ => True
  | .crashed _ => False
  | .waiting _ => False

instance (outcome : Outcome) : Decidable outcome.IsResult :=
  match outcome with
  | .file _ => .isTrue trivial
  | .failed _ => .isTrue trivial
  | .crashed _ => .isFalse id
  | .waiting _ => .isFalse id

/-- Whether an outcome is that a load of somebody else is under way. -/
def Outcome.IsWaiting : Outcome → Prop
  | .waiting _ => True
  | _ => False

instance (outcome : Outcome) : Decidable outcome.IsWaiting :=
  match outcome with
  | .waiting _ => .isTrue trivial
  | .file _ => .isFalse id
  | .failed _ => .isFalse id
  | .crashed _ => .isFalse id

/-- Whether an errand has its answer. -/
def Stage.IsAnswered : Stage → Prop
  | .answered _ => True
  | _ => False

namespace Atlas

/-- What a decision leads to at once. -/
def pursue (a : Atlas) (name : String) : Decision → Atlas × Stage
  | .join load => (a, .answered (a.joinOutcome load))
  | .keep n => ((a.keep name n).1, .answered (a.keep name n).2)
  | .crash crash => (a, .answered (.crashed crash))
  | .load plan => ((a.start plan).1, .started (a.start plan).2)

/-- The first step of an errand. -/
def approach (a : Atlas) (disk : Disk) (name : String) : Atlas × Stage :=
  match a.inspection? { name := name } with
  | some i => (a, .inspecting i)
  | none => a.pursue name (a.decideRefresh disk { name := name })

/-- The first step of a refresh. -/
def visit (a : Atlas) (disk : Disk) (request : Request) : Atlas × Stage :=
  match a.inspection? request with
  | some i => (a, .inspecting i)
  | none => a.pursue request.name (a.decideRefresh disk request)

theorem approach_eq_visit (a : Atlas) (disk : Disk) (name : String) :
    a.approach disk name = a.visit disk { name := name } := rfl

/-- The next step of an errand. -/
def advance (a : Atlas) (w : World) : Stage → Atlas × Stage
  | .inspecting i => a.pursue i.request.name (a.decideInspected w.disk i)
  | .started load =>
    ((a.openSource w load).1, .working load (a.openSource w load).2)
  | .working load (.ok opened) =>
    ((a.settle w.parser load opened).1, .answered (a.settle w.parser load opened).2)
  | .working load (.error fault) =>
    ((a.settleUnopened load fault).1, .answered (a.settleUnopened load fault).2)
  | .answered outcome => (a, .answered outcome)

end Atlas

/-- A scan under way. -/
structure Scanning where
  atlas : Atlas
  /-- The names whose errands have not set out. -/
  waiting : List String
  active : List Errand := []
  /-- The names whose errands have come back with a result, in order. -/
  settled : List String := []
  report : ScanReport := {}
  /-- The names whose errands have crashed, in order. -/
  dropped : List String := []

namespace Scanning

/-- The steps of a scan of `total` names. -/
inductive Step (w : World) (width total : Nat) : Scanning → Scanning → Prop
  | enter (a : Atlas) (front : List String) (name : String) (rest : List String)
      (active : List Errand) (settled : List String) (report : ScanReport)
      (dropped : List String) (hroom : active.length < width) :
      Step w width total ⟨a, front ++ name :: rest, active, settled, report, dropped⟩
        ⟨(a.approach w.disk name).1, front ++ rest,
          ⟨name, a.registry.entries.get? name, (a.approach w.disk name).2⟩ :: active,
          settled, report, dropped⟩
  | advance (a : Atlas) (waiting : List String) (front : List Errand) (e : Errand)
      (rest : List Errand) (settled : List String) (report : ScanReport) (dropped : List String)
      (hstage : ¬ e.stage.IsAnswered) :
      Step w width total ⟨a, waiting, front ++ e :: rest, settled, report, dropped⟩
        ⟨(a.advance w e.stage).1, waiting,
          front ++ { e with stage := (a.advance w e.stage).2 } :: rest, settled, report, dropped⟩
  | reply (a : Atlas) (waiting : List String) (front : List Errand) (name : String)
      (before : Option Entry) (outcome : Outcome) (rest : List Errand) (settled : List String)
      (report : ScanReport) (dropped : List String) (houtcome : outcome.IsResult) :
      Step w width total
        ⟨a, waiting, front ++ ⟨name, before, .answered outcome⟩ :: rest, settled, report, dropped⟩
        ⟨a.tell { kind := .progress, name := name, progress := some (settled.length + 1, total) },
          waiting, front ++ rest, settled ++ [name], report.add name before outcome, dropped⟩
  | drop (a : Atlas) (waiting : List String) (front : List Errand) (name : String)
      (before : Option Entry) (crash : Crash) (rest : List Errand) (settled : List String)
      (report : ScanReport) (dropped : List String) :
      Step w width total
        ⟨a, waiting, front ++ ⟨name, before, .answered (.crashed crash)⟩ :: rest, settled, report,
          dropped⟩
        ⟨a, waiting, front ++ rest, settled, report.add name before (.crashed crash),
          dropped ++ [name]⟩

/-- What steps lead to. -/
inductive Run (w : World) (width total : Nat) (s : Scanning) : Scanning → Prop
  | refl : Run w width total s s
  | step {t t' : Scanning} (hrun : Run w width total s t) (hstep : Step w width total t t') :
      Run w width total s t'

theorem Run.trans {w : World} {width total : Nat} {s t u : Scanning}
    (h : Run w width total s t) (h' : Run w width total t u) : Run w width total s u := by
  induction h' with
  | refl => exact h
  | step _ hstep ih => exact ih.step hstep

/-- All errands have come back. -/
def Ended (s : Scanning) : Prop := s.waiting = [] ∧ s.active = []

/-- The end of a scan of `total` names. -/
def close (s : Scanning) (total : Nat) : Atlas × Except ScanFault ScanReport :=
  s.atlas.conclude total s.report

end Scanning

/-- What a scan of the sources that sub-paths lead to may come to, if so many errands as `width` may
be on their way at once.  A scan with a crashed errand raises, as soon as that or later. -/
inductive Atlas.Scans (w : World) (subPaths : Option (List String)) (width : Nat) (a : Atlas) :
    Atlas × Except ScanFault ScanReport → Prop
  | undiscovered {fault : DiscoveryFault} (h : a.discover w.disk subPaths = .error fault) :
      Scans w subPaths width a (a, .error (.discovery fault))
  | ended {names : List String} {s : Scanning} (h : a.discover w.disk subPaths = .ok names)
      (hrun : Scanning.Run w width names.length { atlas := a, waiting := names } s)
      (hended : s.Ended) : Scans w subPaths width a (s.close names.length)
  | raised {names : List String} {s : Scanning} {crash : Crash}
      (h : a.discover w.disk subPaths = .ok names)
      (hrun : Scanning.Run w width names.length { atlas := a, waiting := names } s)
      (hcrash : s.report.crash = some crash) :
      Scans w subPaths width a (s.atlas, .error (.crashed crash))

/-! ## Every scan ends -/

/-- How many steps an errand has still to take, at most. -/
def Stage.weight : Stage → Nat
  | .inspecting _ => 4
  | .started _ => 3
  | .working _ _ => 2
  | .answered _ => 1

namespace Scanning

/-- How many steps a scan has still to take, at most. -/
def weight (s : Scanning) : Nat :=
  5 * s.waiting.length + (s.active.map fun e => e.stage.weight).sum

theorem weight_pursue_le (a : Atlas) (name : String) (d : Decision) :
    (a.pursue name d).2.weight ≤ 3 := by
  cases d <;> simp [Atlas.pursue, Stage.weight]

theorem weight_advance_lt (a : Atlas) (w : World) {stage : Stage} (h : ¬ stage.IsAnswered) :
    (a.advance w stage).2.weight < stage.weight := by
  cases stage with
  | inspecting i => exact Nat.lt_succ_of_le (weight_pursue_le a _ _)
  | started load => exact Nat.lt_succ_self 2
  | working load source => cases source <;> exact Nat.lt_succ_self 1
  | answered outcome => exact absurd trivial h

/-- A step brings a scan closer to its end. -/
theorem Step.weight_lt {w : World} {width total : Nat} {s t : Scanning}
    (h : Step w width total s t) : t.weight < s.weight := by
  cases h with
  | enter a front name rest active settled report dropped hroom =>
    have happroach : (a.approach w.disk name).2.weight ≤ 4 := by
      unfold Atlas.approach
      split
      · exact Nat.le_refl 4
      · exact Nat.le_succ_of_le (weight_pursue_le a name _)
    simp only [weight, List.length_append, List.length_cons, List.map_cons, List.sum_cons]
    omega
  | advance a waiting front e rest settled report dropped hstage =>
    have hlt := weight_advance_lt a w hstage
    simp only [weight, List.map_append, List.map_cons, List.sum_append, List.sum_cons]
    omega
  | reply a waiting front name before outcome rest settled report dropped houtcome =>
    simp only [weight, List.map_append, List.map_cons, List.sum_append, List.sum_cons,
      Stage.weight]
    omega
  | drop a waiting front name before crash rest settled report dropped =>
    simp only [weight, List.map_append, List.map_cons, List.sum_append, List.sum_cons,
      Stage.weight]
    omega

/-- A scan that has not ended goes on, unless each of its errands is held. -/
theorem exists_step {w : World} {width total : Nat} (hwidth : 0 < width) {s : Scanning}
    (hended : ¬ s.Ended)
    (hfree : s.active = [] ∨ ∃ e ∈ s.active, ∀ outcome, e.stage = .answered outcome →
      ¬ outcome.IsWaiting) : ∃ t, Step w width total s t := by
  obtain ⟨a, waiting, active, settled, report, dropped⟩ := s
  rcases hfree with hnone | ⟨e, he, hfree⟩
  · cases waiting with
    | nil => exact absurd ⟨rfl, hnone⟩ hended
    | cons name rest =>
      cases hnone
      exact ⟨_, .enter a [] name rest [] settled report dropped hwidth⟩
  · obtain ⟨front, rest, rfl⟩ := List.append_of_mem he
    by_cases hstage : e.stage.IsAnswered
    · obtain ⟨name, before, stage⟩ := e
      cases stage with
      | answered outcome =>
        cases outcome with
        | file n => exact ⟨_, .reply a waiting front name before (.file n) rest settled report
            dropped trivial⟩
        | failed failure => exact ⟨_, .reply a waiting front name before (.failed failure) rest
            settled report dropped trivial⟩
        | crashed crash =>
          exact ⟨_, .drop a waiting front name before crash rest settled report dropped⟩
        | waiting load => exact absurd trivial (hfree _ rfl)
      | _ => exact absurd hstage id
    · exact ⟨_, .advance a waiting front e rest settled report dropped hstage⟩

end Scanning

/-! ## One by one -/

namespace Atlas

/-- An errand takes all its steps at once. -/
def complete (a : Atlas) (w : World) : Stage → Atlas × Outcome
  | .inspecting i => a.carryOut w i.request.name (a.decideInspected w.disk i)
  | .started load => a.run w load
  | .working load (.ok opened) => a.settle w.parser load opened
  | .working load (.error fault) => a.settleUnopened load fault
  | .answered outcome => (a, outcome)

theorem complete_pursue (a : Atlas) (w : World) (name : String) (d : Decision) :
    (a.pursue name d).1.complete w (a.pursue name d).2 = a.carryOut w name d := by
  cases d <;> rfl

theorem complete_advance (a : Atlas) (w : World) (stage : Stage) :
    (a.advance w stage).1.complete w (a.advance w stage).2 = a.complete w stage := by
  cases stage with
  | inspecting i => exact a.complete_pursue w _ _
  | started load =>
    simp only [advance, complete, run]
    rcases hopened : a.openSource w load with ⟨b, source⟩
    cases source <;> rfl
  | working load source => cases source <;> rfl
  | answered outcome => rfl

theorem complete_visit (a : Atlas) (w : World) (request : Request) :
    (a.visit w.disk request).1.complete w (a.visit w.disk request).2 = a.refresh w request := by
  unfold visit
  split
  · rename_i i hi
    rw [refresh, decideRefresh_of_inspection? hi, complete, (inspected_of_inspection? hi).1]
  · exact a.complete_pursue w request.name _

theorem complete_approach (a : Atlas) (w : World) (name : String) :
    (a.approach w.disk name).1.complete w (a.approach w.disk name).2 =
      a.refresh w { name := name } := by
  rw [approach_eq_visit]
  exact a.complete_visit w { name := name }

/-- What is kept from stage to stage still holds at the answer. -/
theorem complete_keeps {P : Atlas → Stage → Prop} {w : World}
    (hstep : ∀ a stage, ¬ stage.IsAnswered → P a stage →
      P (a.advance w stage).1 (a.advance w stage).2)
    {a : Atlas} {stage : Stage} (h : P a stage) :
    P (a.complete w stage).1 (.answered (a.complete w stage).2) := by
  induction hweight : stage.weight using Nat.strong_induction_on generalizing a stage with
  | _ weight ih =>
    by_cases hstage : stage.IsAnswered
    · cases stage with
      | answered outcome => exact h
      | _ => exact absurd hstage id
    · have hlater := ih _ (hweight ▸ Scanning.weight_advance_lt a w hstage)
        (hstep a stage hstage h) rfl
      rwa [complete_advance] at hlater

end Atlas

namespace Scanning

variable {w : World} {width total : Nat}

/-- An errand may go all its way while the others wait. -/
theorem run_complete (a : Atlas) (waiting : List String) (e : Errand) (rest : List Errand)
    (settled : List String) (report : ScanReport) (dropped : List String) :
    Run w width total ⟨a, waiting, e :: rest, settled, report, dropped⟩
      ⟨(a.complete w e.stage).1, waiting,
        { e with stage := .answered (a.complete w e.stage).2 } :: rest, settled, report,
        dropped⟩ := by
  refine Atlas.complete_keeps (P := fun b stage => Run w width total
    ⟨a, waiting, e :: rest, settled, report, dropped⟩
    ⟨b, waiting, { e with stage := stage } :: rest, settled, report, dropped⟩) ?_ .refl
  intro b stage hstage hrun
  exact hrun.step
    (.advance b waiting [] { e with stage := stage } rest settled report dropped hstage)

/-- No name has to wait for the load of somebody else when the names are refreshed one after the
other. -/
def NoneWaits (w : World) (total : Nat) : Atlas → Nat → List String → Prop
  | _, _, [] => True
  | a, done, name :: rest =>
    match a.refresh w { name := name } with
    | (_, .waiting _) => False
    | (a, .crashed _) => NoneWaits w total a done rest
    | (a, _) => NoneWaits w total (a.tell
        { kind := .progress, name := name, progress := some (done + 1, total) }) (done + 1) rest

instance decidableNoneWaits (w : World) (total : Nat) :
    (a : Atlas) → (done : Nat) → (names : List String) → Decidable (NoneWaits w total a done names)
  | _, _, [] => .isTrue trivial
  | a, done, name :: rest =>
    match h : a.refresh w { name := name } with
    | (_, .waiting _) => .isFalse (by simp [NoneWaits, h])
    | (b, .crashed _) =>
      @decidable_of_iff _ _ (by rw [NoneWaits, h]) (decidableNoneWaits w total b done rest)
    | (b, .file _) =>
      @decidable_of_iff _ _ (by rw [NoneWaits, h]) (decidableNoneWaits w total (b.tell
        { kind := .progress, name := name, progress := some (done + 1, total) }) (done + 1) rest)
    | (b, .failed _) =>
      @decidable_of_iff _ _ (by rw [NoneWaits, h]) (decidableNoneWaits w total (b.tell
        { kind := .progress, name := name, progress := some (done + 1, total) }) (done + 1) rest)

/-- Errands may set out one after the other. -/
theorem run_refreshEach (hwidth : 0 < width) (names : List String) (a : Atlas)
    (settled : List String) (report : ScanReport) (dropped : List String)
    (h : NoneWaits w total a settled.length names) : ∃ settled' dropped',
    Run w width total ⟨a, names, [], settled, report, dropped⟩
      ⟨(Atlas.refreshEach w total a report settled.length names).1, [], [], settled',
        (Atlas.refreshEach w total a report settled.length names).2, dropped'⟩ := by
  induction names generalizing a settled report dropped with
  | nil => exact ⟨settled, dropped, .refl⟩
  | cons name rest ih =>
    have henter : Run w width total ⟨a, name :: rest, [], settled, report, dropped⟩ _ :=
      .step .refl (.enter a [] name rest [] settled report dropped hwidth)
    have hwalk : Run w width total _ _ := run_complete (a.approach w.disk name).1 rest
      ⟨name, a.registry.entries.get? name, (a.approach w.disk name).2⟩ [] settled report dropped
    rw [Atlas.complete_approach] at hwalk
    have hout := henter.trans hwalk
    rw [Atlas.refreshEach]
    rw [NoneWaits] at h
    rcases hrefresh : a.refresh w { name := name } with ⟨b, outcome⟩
    rw [hrefresh] at h hout
    have hreply (houtcome : outcome.IsResult) :
        Run w width total ⟨a, name :: rest, [], settled, report, dropped⟩ ⟨b.tell
          { kind := .progress, name := name, progress := some (settled.length + 1, total) }, rest,
          [], settled ++ [name], report.add name (a.registry.entries.get? name) outcome, dropped⟩ :=
      hout.step (.reply b rest [] name _ outcome [] settled report dropped houtcome)
    have hlength : (settled ++ [name]).length = settled.length + 1 := List.length_append
    have hlater := fun b report => ih b (settled ++ [name]) report dropped
    rw [hlength] at hlater
    cases outcome with
    | file n =>
      obtain ⟨settled', dropped', hrun⟩ := hlater _ _ h
      exact ⟨settled', dropped', (hreply trivial).trans hrun⟩
    | failed failure =>
      obtain ⟨settled', dropped', hrun⟩ := hlater _ _ h
      exact ⟨settled', dropped', (hreply trivial).trans hrun⟩
    | crashed crash =>
      have hdrop : Step w width total _ _ := .drop b rest [] name (a.registry.entries.get? name)
        crash [] settled report dropped
      obtain ⟨settled', dropped', hrun⟩ := ih b settled
        (report.add name (a.registry.entries.get? name) (.crashed crash)) (dropped ++ [name]) h
      exact ⟨settled', dropped', (hout.step hdrop).trans hrun⟩
    | waiting load => exact absurd h id

end Scanning

/-- Refreshing the names one by one is a scan, whatever its width. -/
theorem Atlas.scans_scan {a : Atlas} {w : World} {subPaths : Option (List String)} {width : Nat}
    (hwidth : 0 < width)
    (h : ∀ names, a.discover w.disk subPaths = .ok names →
      Scanning.NoneWaits w names.length a 0 names) :
    a.Scans w subPaths width (a.scan w subPaths) := by
  unfold Atlas.scan
  split
  · rename_i fault hfault
    exact .undiscovered hfault
  · rename_i names hnames
    obtain ⟨settled, dropped, hrun⟩ :=
      Scanning.run_refreshEach hwidth names a [] {} [] (h names hnames)
    exact .ended hnames hrun ⟨rfl, rfl⟩

end SymbolAtlas
