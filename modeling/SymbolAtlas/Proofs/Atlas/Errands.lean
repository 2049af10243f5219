import Mathlib
import SymbolAtlas.Proofs.Atlas.Agreement
import SymbolAtlas.Proofs.Atlas.Scanning
import SymbolAtlas.Proofs.Registry.Sparing

/-!
# What an errand comes to

What becomes of a name in a scan is settled when the scan begins: its file is kept, or is replaced
by the file that a tree describes, or fails, or its load comes to no result (`Atlas.verdict`).
Nothing that happens to other names makes a difference, since it spares all that the errand looks
at.  `Atlas.Stands` says how an errand
stands at each of its stages, and `Atlas.moves_approach` and `Atlas.moves_advance` that it gets from
one to the next.
-/

namespace SymbolAtlas

/-- What becomes of a name. -/
inductive Verdict where
  | kept (n : Nat)
  /-- A file takes the place of another one, or of none. -/
  | parsed (previous : Option Nat) (f : SourceFile)
  | failed (previous : Option Nat) (failure : Failure)
  /-- A load comes to no result. -/
  | abandoned (previous : Option Nat) (crash : Crash)
  /-- Nothing is kept, and no load is started either. -/
  | stuck

/-- Whether a verdict is a result. -/
def Verdict.IsResult : Verdict → Prop
  | .kept _ => True
  | .parsed _ _ => True
  | .failed _ _ => True
  | .abandoned _ _ => False
  | .stuck => False

namespace Atlas

/-- What a load makes of its source: a file with the nodes that were refused. -/
def product (a : Atlas) (w : World) (plan : LoadPlan) :
    Except OpenFault (SourceFile × List Refusal) :=
  match a.source w plan with
  | .error fault => .error fault
  | .ok opened =>
    match w.parser opened.text plan.request.name with
    | .error reason => .error (.failed (.parseFailed plan.request.name reason))
    | .ok tree =>
      .ok (SourceFile.ofTree plan.request.name tree (some (Sha256.hex opened.content))
        (some opened.mtime) (some opened.content.length))

/-- What becomes of a name if a load is planned. -/
def verdictOf (a : Atlas) (w : World) (plan : LoadPlan) : Verdict :=
  match a.product w plan with
  | .error (.failed failure) => .failed plan.previous failure
  | .error (.crashed crash) => .abandoned plan.previous crash
  | .ok (f, _) => .parsed plan.previous f

theorem verdictOf_ne_kept {a : Atlas} {w : World} {plan : LoadPlan} {n : Nat} :
    a.verdictOf w plan ≠ .kept n := by
  unfold verdictOf
  split <;> exact fun h => by cases h

theorem verdictOf_ne_stuck {a : Atlas} {w : World} {plan : LoadPlan} :
    a.verdictOf w plan ≠ .stuck := by
  unfold verdictOf
  split <;> exact fun h => by cases h

/-- What becomes of a name that is refreshed. -/
def verdict (a : Atlas) (w : World) (name : String) : Verdict :=
  match a.decideRefresh w.disk { name := name } with
  | .keep n => .kept n
  | .load plan => a.verdictOf w plan
  | .join _ => .stuck
  | .crash _ => .stuck

/-! ## Amounts -/

/-- What a file that is to be replaced amounts to. -/
def worth (a : Atlas) (previous : Option Nat) : Tally :=
  (previous.bind a.file?).elim 0 Tally.ofFile

end Atlas

/-- What a load amounts to when it is started. -/
def LoadPlan.toll (plan : LoadPlan) : Tally :=
  plan.previous.elim Tally.oneName fun _ => 0

/-- What the change of a name amounts to. -/
def Verdict.toll (a : Atlas) : Verdict → Tally
  | .kept _ => 0
  | .parsed previous f =>
    previous.elim Tally.oneName (fun _ => 0) + Tally.ofFile f - a.worth previous
  | .failed previous _ =>
    previous.elim Tally.oneName (fun _ => 0) + Tally.oneError - a.worth previous
  | .abandoned previous _ => previous.elim Tally.oneName fun _ => 0
  | .stuck => 0

/-- What the change of a name amounts to so far. -/
def Stage.toll (a : Atlas) (w : World) (name : String) : Stage → Tally
  | .inspecting _ => 0
  | .started load => load.plan.toll
  | .working load _ => load.plan.toll + Tally.oneLoading
  | .answered _ => (a.verdict w name).toll a

namespace Atlas

/-! ## What is common to all errands -/

/-- The atlases stand at the same site and have the same settings. -/
structure SameGround (a b : Atlas) : Prop where
  settings : b.settings = a.settings
  site : b.registry.toSite = a.registry.toSite

/-- What is known of a name, and the file that is indexed under it, are as they were. -/
structure Untouched (a b : Atlas) (k : String) : Prop where
  entry : b.registry.entries.get? k = a.registry.entries.get? k
  failure : b.registry.failures.get? k = a.registry.failures.get? k
  file : ∀ n, a.registry.entries.get? k = some (.loaded n) → b.file? n = a.file? n

variable {w : World} {a b b' : Atlas} {k : String}

theorem SameGround.pathOf (h : SameGround a b) : b.pathOf k = a.pathOf k := by
  rw [Atlas.pathOf, Atlas.pathOf, h.site]

theorem SameGround.source (h : SameGround a b) (w : World) (plan : LoadPlan) :
    b.source w plan = a.source w plan := by
  have hstat : b.statOf w.disk = a.statOf w.disk := by
    funext request
    simp only [statOf, h.pathOf]
  have hcontent : b.contentOf w.disk = a.contentOf w.disk := by
    funext plan
    simp only [contentOf, h.pathOf]
  have hencoding : b.encodingOf = a.encodingOf := by
    funext request
    unfold encodingOf
    rw [h.settings]
  have htext : b.textOf = a.textOf := by
    funext codecs request content
    simp only [textOf, hencoding]
  rw [Atlas.source, hstat, hcontent, htext, h.settings]
  rfl

theorem Untouched.refl (a : Atlas) (k : String) : Untouched a a k :=
  ⟨rfl, rfl, fun _ _ => rfl⟩

theorem Untouched.decideRefresh (h : Untouched a b k) (hground : SameGround a b) (disk : Disk) :
    b.decideRefresh disk { name := k } = a.decideRefresh disk { name := k } := by
  unfold Atlas.decideRefresh
  simp only [h.entry, hground.settings]
  split
  · rename_i n hn
    have hfile := h.file n hn
    simp only [decideByContent, decideByStat, hground.pathOf, hfile]
  · simp only [decideParse, h.entry]

theorem Untouched.inspection? (h : Untouched a b k) (hground : SameGround a b) :
    b.inspection? { name := k } = a.inspection? { name := k } := by
  unfold Atlas.inspection?
  simp only [h.entry, hground.settings]

/-- What is known of other names stays untouched. -/
theorem Untouched.spared (h : Untouched a b k) (ha : a.registry.Tidy) {name : String}
    (hspares : b.registry.Spares name b'.registry) (hk : k ≠ name) : Untouched a b' k where
  entry := (hspares.entries hk).trans h.entry
  failure := (hspares.failures hk).trans h.failure
  file := by
    intro n hn
    obtain ⟨f, hf, hbears⟩ := ha.named hn
    have hkept : b.file? n = some f := (h.file n hn).trans hf
    exact (hspares.files hkept (hbears.name_eq ▸ hk)).trans hf.symm

/-! ## Stages -/

/-- A load of a name is under way as it was planned. -/
structure Loading (w : World) (a b : Atlas) (k : String) (load : Load) : Prop where
  plan : a.decideRefresh w.disk { name := k } = .load load.plan
  entry : b.registry.entries.get? k = some (.loading load.number)
  replaced : b.registry.replaced.get? k = load.plan.previous
  file : ∀ n, load.plan.previous = some n → b.file? n = a.file? n

/-- What a name has come to. -/
inductive Answers (w : World) (a b : Atlas) (k : String) : Outcome → Prop
  | kept {n : Nat} (hverdict : a.verdict w k = .kept n) (h : Untouched a b k) :
      Answers w a b k (.file n)
  | parsed {previous : Option Nat} {f g : SourceFile} {n : Nat}
      (hverdict : a.verdict w k = .parsed previous f)
      (hentry : b.registry.entries.get? k = some (.loaded n))
      (hfailure : b.registry.failures.get? k = none) (hfile : b.file? n = some g)
      (hbears : g.Bears k) (hrelinked : f.Relinked g) (hnew : a.registry.files.size ≤ n) :
      Answers w a b k (.file n)
  | failed {previous : Option Nat} {failure : Failure}
      (hverdict : a.verdict w k = .failed previous failure)
      (hentry : b.registry.entries.get? k = none)
      (hfailure : b.registry.failures.get? k = some failure) : Answers w a b k (.failed failure)
  | abandoned {previous : Option Nat} {crash : Crash} {load : Nat}
      (hverdict : a.verdict w k = .abandoned previous crash)
      (hentry : b.registry.entries.get? k = some (.loading load))
      (hcrash : (b.registry.crash? load).isSome) : Answers w a b k (.crashed crash)
  | stuck {outcome : Outcome} (hverdict : a.verdict w k = .stuck)
      (houtcome : ¬ outcome.IsResult) (h : Untouched a b k) : Answers w a b k outcome

/-- How the errand of a name stands. -/
inductive Stands (w : World) (a b : Atlas) (k : String) : Stage → Prop
  | inspecting {i : Inspection} (hi : a.inspection? { name := k } = some i)
      (h : Untouched a b k) : Stands w a b k (.inspecting i)
  | started {load : Load} (h : Loading w a b k load) : Stands w a b k (.started load)
  | working {load : Load} (h : Loading w a b k load) :
      Stands w a b k (.working load (a.source w load.plan))
  | answered {outcome : Outcome} (h : Answers w a b k outcome) : Stands w a b k (.answered outcome)

namespace Loading

variable {load : Load} (h : Loading w a b k load)

include h

theorem name_eq : load.name = k := by
  have hallows := a.allows_decideRefresh w.disk { name := k }
  rw [h.plan] at hallows
  exact hallows.1

theorem precedes : a.registry.entries.get? k = load.plan.previous.map .loaded := by
  have hallows := a.allows_decideRefresh w.disk { name := k }
  rw [h.plan] at hallows
  exact hallows.2

theorem verdict_eq : a.verdict w k = a.verdictOf w load.plan := by
  rw [verdict, h.plan]

theorem awaits : b.registry.awaits k load.number = true :=
  decide_eq_true h.entry

/-- The file that is to be replaced bears the name. -/
theorem bears (ha : a.registry.Tidy) {n : Nat} (hn : load.plan.previous = some n) :
    ∃ f, a.file? n = some f ∧ b.file? n = some f ∧ f.Bears k := by
  have hentry := h.precedes
  rw [hn] at hentry
  obtain ⟨f, hf, hbears⟩ := ha.named hentry
  exact ⟨f, hf, (h.file n hn).trans hf, hbears⟩

theorem name_of_replaced (ha : a.registry.Tidy) {n : Nat} {f : SourceFile}
    (hn : b.registry.replaced.get? k = some n) (hf : b.registry.files[n]? = some f) :
    f.name = k := by
  obtain ⟨g, -, hg, hbears⟩ := h.bears ha (h.replaced ▸ hn)
  cases (show some f = some g from hf.symm.trans hg)
  exact hbears.name_eq

theorem owed_eq : b.registry.owed k = a.worth load.plan.previous := by
  rw [Registry.owed, h.replaced, worth]
  cases hn : load.plan.previous with
  | none => rfl
  | some n => exact congrArg (fun f => f.elim 0 Tally.ofFile) (h.file n hn)

theorem spared (ha : a.registry.Tidy) {name : String}
    (hspares : b.registry.Spares name b'.registry) (hk : k ≠ name) : Loading w a b' k load where
  plan := h.plan
  entry := (hspares.entries hk).trans h.entry
  replaced := (hspares.replaced hk).trans h.replaced
  file := by
    intro n hn
    obtain ⟨f, hfa, hf, hbears⟩ := h.bears ha hn
    exact (hspares.files hf (hbears.name_eq ▸ hk)).trans hfa.symm

end Loading

theorem Answers.spared {outcome : Outcome} (h : Answers w a b k outcome) (ha : a.registry.Tidy)
    {name : String} (hspares : b.registry.Spares name b'.registry) (hk : k ≠ name) :
    Answers w a b' k outcome := by
  cases h with
  | kept hverdict h => exact .kept hverdict (h.spared ha hspares hk)
  | parsed hverdict hentry hfailure hfile hbears hrelinked hnew =>
    exact .parsed hverdict ((hspares.entries hk).trans hentry)
      ((hspares.failures hk).trans hfailure) (hspares.files hfile (hbears.name_eq ▸ hk)) hbears
      hrelinked hnew
  | failed hverdict hentry hfailure =>
    exact .failed hverdict ((hspares.entries hk).trans hentry)
      ((hspares.failures hk).trans hfailure)
  | abandoned hverdict hentry hcrash =>
    exact .abandoned hverdict ((hspares.entries hk).trans hentry) (hspares.crashed hcrash)
  | stuck hverdict houtcome h => exact .stuck hverdict houtcome (h.spared ha hspares hk)

theorem Stands.spared {stage : Stage} (h : Stands w a b k stage) (ha : a.registry.Tidy)
    {name : String} (hspares : b.registry.Spares name b'.registry) (hk : k ≠ name) :
    Stands w a b' k stage := by
  cases h with
  | inspecting hi h => exact .inspecting hi (h.spared ha hspares hk)
  | started h => exact .started (h.spared ha hspares hk)
  | working h => exact .working (h.spared ha hspares hk)
  | answered h => exact .answered (h.spared ha hspares hk)

section Congr

variable (hr : b'.registry = b.registry)

include hr

theorem Untouched.congr (h : Untouched a b k) : Untouched a b' k where
  entry := hr ▸ h.entry
  failure := hr ▸ h.failure
  file := by
    intro n hn
    rw [file?, hr]
    exact h.file n hn

theorem Loading.congr {load : Load} (h : Loading w a b k load) : Loading w a b' k load where
  plan := h.plan
  entry := hr ▸ h.entry
  replaced := hr ▸ h.replaced
  file := by
    intro n hn
    rw [file?, hr]
    exact h.file n hn

theorem Answers.congr {outcome : Outcome} (h : Answers w a b k outcome) :
    Answers w a b' k outcome := by
  cases h with
  | kept hverdict h => exact .kept hverdict (h.congr hr)
  | @parsed previous f g n hverdict hentry hfailure hfile hbears hrelinked hnew =>
    have hfile : b'.file? n = some g := by rwa [file?, hr]
    exact .parsed hverdict (hr ▸ hentry) (hr ▸ hfailure) hfile hbears hrelinked hnew
  | failed hverdict hentry hfailure => exact .failed hverdict (hr ▸ hentry) (hr ▸ hfailure)
  | abandoned hverdict hentry hcrash => exact .abandoned hverdict (hr ▸ hentry) (hr ▸ hcrash)
  | stuck hverdict houtcome h => exact .stuck hverdict houtcome (h.congr hr)

theorem Stands.congr {stage : Stage} (h : Stands w a b k stage) : Stands w a b' k stage := by
  cases h with
  | inspecting hi h => exact .inspecting hi (h.congr hr)
  | started h => exact .started (h.congr hr)
  | working h => exact .working (h.congr hr)
  | answered h => exact .answered (h.congr hr)

end Congr

/-! ## Steps -/

/-- An errand for a name gets to a stage: other names are spared, and it stands as it should, with
its toll paid.  What is kept does not go to the parser. -/
structure Moves (w : World) (a : Atlas) (k : String) (paid : Tally) (b b' : Atlas)
    (stage : Stage) : Prop where
  settings : b'.settings = b.settings
  spares : b.registry.Spares k b'.registry
  tidy : b'.registry.Tidy
  size : b.registry.files.size ≤ b'.registry.files.size
  stands : Stands w a b' k stage
  tally : b'.registry.tally = b.registry.tally - paid + stage.toll a w k
  parses : ∃ more, b'.parses = b.parses ++ more ∧ ∀ j ∈ more, ∀ n, a.verdict w j ≠ .kept n
  feed : ∃ events : List Event, (∀ e ∈ events, e.kind ≠ .progress) ∧
    b'.feed = events.foldl Feed.publish b.feed

/-- Most steps leave the registry alone. -/
theorem Moves.of_registry_eq {paid : Tally} {stage : Stage} (hb : b.registry.Tidy)
    (hsettings : b'.settings = b.settings) (hregistry : b'.registry = b.registry)
    (hparses : b'.parses = b.parses)
    (hstands : Stands w a b' k stage) (htoll : stage.toll a w k = paid)
    (hfeed : ∃ events : List Event, (∀ e ∈ events, e.kind ≠ .progress) ∧
      b'.feed = events.foldl Feed.publish b.feed) : Moves w a k paid b b' stage where
  settings := hsettings
  spares := hregistry ▸ .refl k b.registry
  tidy := hregistry ▸ hb
  size := Nat.le_of_eq (by rw [hregistry])
  stands := hstands
  tally := by rw [hregistry, htoll, sub_add_cancel]
  parses := ⟨[], by rw [hparses, List.append_nil], by simp⟩
  feed := hfeed

theorem feed_relink (a : Atlas) (n : Nat) : (a.relink n).1.feed = a.feed := by
  unfold relink
  split <;> rfl

theorem parses_relink (a : Atlas) (n : Nat) : (a.relink n).1.parses = a.parses := by
  unfold relink
  split <;> rfl

theorem snd_openSource (b : Atlas) (w : World) (load : Load) :
    (b.openSource w load).2 = b.source w load.plan := by
  have hground : SameGround b
      ((b.onRegistry Registry.begin).tell { kind := .read, name := load.name }) := ⟨rfl, rfl⟩
  unfold openSource
  simp only [hground.source]
  split
  · rename_i h
    exact h.symm
  · rename_i h
    exact h.symm

/-- A source that was opened, or was not, settles as the product of its load says. -/
theorem advance_working (a b : Atlas) (w : World) (load : Load) :
    b.advance w (.working load (a.source w load.plan)) =
      match a.product w load.plan with
      | .error (.failed failure) => ((b.fail load failure).1, .answered (b.fail load failure).2)
      | .error (.crashed crash) => ((b.abandon load crash).1, .answered (b.abandon load crash).2)
      | .ok (f, refusals) =>
        (((b.noteAll (refusals.map Note.nodeSkipped)).succeed load f).1,
          .answered ((b.noteAll (refusals.map Note.nodeSkipped)).succeed load f).2) := by
  unfold product
  cases a.source w load.plan with
  | error fault => cases fault <;> rfl
  | ok opened =>
    simp only [advance, settle, Load.name]
    cases w.parser opened.text load.plan.request.name <;> rfl

theorem product_eq_ok {plan : LoadPlan} {f : SourceFile} {refusals : List Refusal}
    (h : a.product w plan = .ok (f, refusals)) : ∃ tree contentHash mtime size,
      f = (SourceFile.ofTree plan.request.name tree contentHash mtime size).1 := by
  unfold product at h
  split at h
  · cases h
  · split at h
    · cases h
    · rename_i tree _
      exact ⟨tree, _, _, _, congrArg Prod.fst (Except.ok.inj h).symm⟩

section Steps

variable (ha : a.registry.Tidy) (hb : b.registry.Tidy) (hground : SameGround a b)

include hb

theorem loading_start {plan : LoadPlan} (h : Untouched a b k)
    (hplan : a.decideRefresh w.disk { name := k } = .load plan) :
    Loading w a (b.start plan).1 k (b.start plan).2 where
  plan := hplan
  entry := by
    obtain ⟨hname, -⟩ : a.Allows k (.load plan) := hplan ▸ a.allows_decideRefresh w.disk _
    show (b.registry.start plan.request.name plan.previous).1.entries.get? k = some (.loading _)
    rw [hname, Registry.get?_start, if_pos rfl]
    exact congrArg (fun l => some (Entry.loading l)) (Registry.snd_start ..).symm
  replaced := by
    obtain ⟨hname, hprecedes⟩ : a.Allows k (.load plan) :=
      hplan ▸ a.allows_decideRefresh w.disk _
    show (b.registry.start plan.request.name plan.previous).1.replaced.get? k = plan.previous
    cases hprevious : plan.previous with
    | none =>
      rw [Registry.Precedes, hprevious, ← h.entry] at hprecedes
      exact hb.replaced_eq_none (by simp [hprecedes])
    | some n =>
      rw [hname]
      exact Ledger.get?_set_self _ _ _
  file := by
    obtain ⟨-, hprecedes⟩ : a.Allows k (.load plan) := hplan ▸ a.allows_decideRefresh w.disk _
    intro n hn
    have hprevious : plan.previous = some n := hn
    rw [Registry.Precedes, hprevious] at hprecedes
    show (b.registry.start plan.request.name plan.previous).1.files[n]? = _
    rw [Registry.files_start]
    exact h.file n hprecedes

theorem moves_pursue (h : Untouched a b k) :
    Moves w a k 0 b (b.pursue k (a.decideRefresh w.disk { name := k })).1
      (b.pursue k (a.decideRefresh w.disk { name := k })).2 := by
  have hallows := a.allows_decideRefresh w.disk { name := k }
  cases hd : a.decideRefresh w.disk { name := k } with
  | join load =>
    have hverdict : a.verdict w k = .stuck := by rw [verdict, hd]
    have houtcome : ¬ (b.joinOutcome load).IsResult := by
      unfold joinOutcome
      split <;> exact id
    exact .of_registry_eq hb rfl rfl rfl (.answered (.stuck hverdict houtcome h))
      (congrArg (Verdict.toll a) hverdict) ⟨[], by simp, rfl⟩
  | crash crash =>
    have hverdict : a.verdict w k = .stuck := by rw [verdict, hd]
    exact .of_registry_eq hb rfl rfl rfl (.answered (.stuck hverdict id h))
      (congrArg (Verdict.toll a) hverdict) ⟨[], by simp, rfl⟩
  | keep n =>
    have hverdict : a.verdict w k = .kept n := by rw [verdict, hd]
    have hkept : Untouched a (b.keep k n).1 k := ⟨h.entry, h.failure, h.file⟩
    exact .of_registry_eq hb rfl rfl rfl (.answered (.kept hverdict hkept))
      (congrArg (Verdict.toll a) hverdict)
      ⟨[{ kind := .cache, name := k, file := some n }], by simp, rfl⟩
  | load plan =>
    rw [hd] at hallows
    obtain ⟨hname, hprecedes⟩ := hallows
    have hname : plan.request.name = k := hname
    have hstarted : (b.start plan).1.registry = (b.registry.start k plan.previous).1 := by
      rw [← hname]
      rfl
    have hprevious : ∀ n, plan.previous = some n → n < b.registry.files.size := by
      intro n hn
      rw [Registry.Precedes, hn] at hprecedes
      exact hb.lt_size (h.entry.trans hprecedes)
    exact {
      settings := rfl
      spares := hstarted ▸ b.registry.spares_start k plan.previous
      tidy := hstarted ▸ hb.start k hprevious
      size := by
        show _ ≤ (b.start plan).1.registry.files.size
        rw [hstarted, Registry.files_start]
      stands := .started (loading_start hb h hd)
      tally := by
        show (b.start plan).1.registry.tally = _
        rw [hstarted, Registry.tally_start, sub_zero]
        rfl
      parses := ⟨[], (List.append_nil _).symm, by simp⟩
      feed := ⟨[], by simp, rfl⟩ }

include hground in
theorem moves_approach (h : Untouched a b k) :
    Moves w a k 0 b (b.approach w.disk k).1 (b.approach w.disk k).2 := by
  rw [approach, h.inspection? hground, h.decideRefresh hground]
  split
  · rename_i i hi
    exact .of_registry_eq hb rfl rfl rfl (.inspecting hi h) rfl ⟨[], by simp, rfl⟩
  · exact moves_pursue hb h

theorem moves_abandon {load : Load} (h : Loading w a b k load) {crash : Crash}
    (hproduct : a.product w load.plan = .error (.crashed crash)) :
    Moves w a k (load.plan.toll + Tally.oneLoading) b (b.abandon load crash).1
      (.answered (b.abandon load crash).2) := by
  have hverdict : a.verdict w k = .abandoned load.plan.previous crash := by
    rw [h.verdict_eq, verdictOf, hproduct]
  have hcrashed : ((b.abandon load crash).1.registry.crash? load.number).isSome := by
    show (((load.number, crash) :: b.registry.crashes).find? _ |>.map _).isSome
    simp
  exact {
    settings := rfl
    spares := (((Registry.Spares.refl k b.registry).crash load.number crash).congr
      rfl rfl rfl rfl rfl rfl)
    tidy := hb.abandon load.number crash
    size := Nat.le_refl _
    stands := .answered (.abandoned hverdict h.entry hcrashed)
    tally := by
      show b.registry.endWork.tally = _ + (a.verdict w k).toll a
      rw [hverdict, Registry.tally_endWork]
      show _ = _ - (load.plan.toll + Tally.oneLoading) + load.plan.toll
      abel
    parses := ⟨[], (List.append_nil _).symm, by simp⟩
    feed := ⟨[], by simp, rfl⟩ }

include hground in
/-- A load that begins opens the source that it would have found at the start of the scan. -/
theorem moves_open {load : Load} (h : Loading w a b k load) :
    Moves w a k load.plan.toll b (b.advance w (.started load)).1
      (b.advance w (.started load)).2 := by
  have hregistry := b.registry_openSource w load
  have hsource : (b.openSource w load).2 = a.source w load.plan := by
    rw [snd_openSource, hground.source]
  have hrest : (b.openSource w load).1.settings = b.settings ∧
      (b.openSource w load).1.feed =
        b.feed.publish { kind := .read, name := load.name } := by
    unfold openSource
    simp only
    split <;> exact ⟨rfl, rfl⟩
  have hparses : ∃ more, (b.openSource w load).1.parses = b.parses ++ more ∧
      ∀ j ∈ more, j = k := by
    unfold openSource
    simp only
    split
    · exact ⟨[load.name], rfl, fun j hj => (List.mem_singleton.1 hj).trans h.name_eq⟩
    · exact ⟨[], (List.append_nil _).symm, by simp⟩
  obtain ⟨more, hmore, hnames⟩ := hparses
  rw [advance, hsource]
  refine ⟨hrest.1, ?_, ?_, ?_, .working ⟨h.plan, ?_, ?_, ?_⟩, ?_,
    ⟨more, hmore, fun j hj n hkept => ?_⟩, [{ kind := .read, name := load.name }], by simp, hrest.2⟩
  · rw [hregistry]
    exact (Registry.Spares.refl k _).congr rfl rfl rfl rfl rfl rfl
  · rw [hregistry]
    exact hb.congr rfl rfl rfl rfl
  · rw [hregistry]
    exact Nat.le_refl _
  · rw [hregistry]
    exact h.entry
  · rw [hregistry]
    exact h.replaced
  · intro n hn
    rw [file?, hregistry]
    exact h.file n hn
  · rw [hregistry, Registry.tally_begin]
    show _ = _ - load.plan.toll + (load.plan.toll + Tally.oneLoading)
    abel
  · rw [hnames j hj, h.verdict_eq] at hkept
    exact verdictOf_ne_kept hkept

include ha

theorem moves_fail {load : Load} (h : Loading w a b k load) {failure : Failure}
    (hproduct : a.product w load.plan = .error (.failed failure)) :
    Moves w a k (load.plan.toll + Tally.oneLoading) b (b.fail load failure).1
      (.answered (b.fail load failure).2) := by
  have hverdict : a.verdict w k = .failed load.plan.previous failure := by
    rw [h.verdict_eq, verdictOf, hproduct]
  have hregistry : (b.fail load failure).1.registry =
      b.registry.fail k load.number failure := by
    rw [← h.name_eq]
    rfl
  have hold := fun n f => h.name_of_replaced ha (n := n) (f := f)
  refine ⟨rfl, ?_, ?_, ?_, .answered (.failed hverdict ?_ ?_), ?_,
    ⟨[], (List.append_nil _).symm, by simp⟩,
    [{ kind := .error, name := load.name, failure := some failure }], by simp, rfl⟩
  · rw [hregistry]
    exact Registry.spares_fail h.awaits hold failure
  · rw [hregistry]
    exact hb.fail k load.number failure
  · rw [hregistry]
    exact (b.registry.ages_fail k load.number failure).size
  · rw [hregistry, Registry.entry_fail_of_awaited h.awaits]
  · rw [hregistry, Registry.failure_fail_of_awaited h.awaits]
  · rw [hregistry, Registry.tally_fail_of_awaited h.awaits, h.owed_eq]
    show _ = _ + (a.verdict w k).toll a
    rw [hverdict]
    show _ = _ + (load.plan.toll + Tally.oneError - a.worth load.plan.previous)
    abel

theorem moves_succeed {load : Load} (h : Loading w a b k load)
    (hsize : a.registry.files.size ≤ b.registry.files.size) {f : SourceFile}
    {refusals : List Refusal} (hproduct : a.product w load.plan = .ok (f, refusals)) :
    Moves w a k (load.plan.toll + Tally.oneLoading) b (b.succeed load f).1
      (.answered (b.succeed load f).2) := by
  have hverdict : a.verdict w k = .parsed load.plan.previous f := by
    rw [h.verdict_eq, verdictOf, hproduct]
  obtain ⟨tree, contentHash, mtime, size, htree⟩ := product_eq_ok hproduct
  have hname : load.plan.request.name = k := h.name_eq
  have hbears : f.Bears k :=
    htree ▸ hname ▸ (SourceFile.isEntered_ofTree _ tree contentHash mtime size).bears
  have hlinks : f.LinksBelow b.registry.files.size := by
    intro ρ _
    rw [htree, SourceFile.renumber_ofTree]
  have hold := fun n f => h.name_of_replaced ha (n := n) (f := f)
  have hknown : ∀ n, b.registry.replaced.get? k = some n → n < b.registry.files.size := fun n hn =>
    hb.waiting_lt (k, n) (Ledger.mem_of_get? hn)
  have hnumber : (b.registry.succeed k load.number f).2 = b.registry.files.size := by
    rw [Registry.succeed_of_awaited h.awaits]
  have hfile := Registry.file_succeed_of_awaited h.awaits f hknown
  have hsucceed : b.succeed load f =
      (((({ b with registry := (b.registry.succeed k load.number f).1 } : Atlas).relink
        b.registry.files.size).1.note (.fileParsed load.name f.symbolCount)).tell
        { kind := .parse, name := load.name, file := some b.registry.files.size },
        .file b.registry.files.size) := by
    simp only [succeed, h.name_eq, h.awaits, ↓reduceIte, hnumber]
  have hregistry : (b.succeed load f).1.registry =
      ((b.registry.succeed k load.number f).1.relink b.registry.files.size).1 := by
    rw [hsucceed]
    exact registry_relink _ _
  have hspares : b.registry.Spares k (b.succeed load f).1.registry := by
    rw [hregistry]
    refine (Registry.spares_succeed h.awaits hold f).trans (Registry.spares_relink fun g hg => ?_)
    rw [hfile] at hg
    cases hg
    exact hbears.name_eq
  have hlinked : (b.succeed load f).1.file? b.registry.files.size = some (f.relink
      (b.registry.succeed k load.number f).1.resolveCandidate).1 := by
    rw [file?, hregistry, Registry.files_relink, hfile, Option.map_some, if_pos rfl]
  refine ⟨?_, hspares, ?_, ?_, ?_, ?_, ⟨[], ?_, by simp⟩,
    [{ kind := .parse, name := load.name, file := some b.registry.files.size }], by simp, ?_⟩
  · rw [hsucceed]
    exact settings_relink _ _
  · rw [hregistry]
    exact (hb.succeed hbears hlinks load.number).relink _
  · rw [hregistry, Registry.size_relink]
    exact (b.registry.ages_succeed k load.number f).size
  · rw [show (b.succeed load f).2 = .file b.registry.files.size by rw [hsucceed]]
    refine .answered (.parsed hverdict ?_ ?_ hlinked ?_ (.single f _) hsize)
    · rw [hregistry, Registry.entries_relink, Registry.entry_succeed_of_awaited h.awaits]
    · rw [hregistry, Registry.failures_relink, Registry.failure_succeed_of_awaited h.awaits]
    · exact hbears.upToLinks (SourceFile.Relinked.single f _).upToLinks
  · rw [hregistry, Registry.tally_relink, Registry.tally_succeed_of_awaited h.awaits f hknown,
      h.owed_eq]
    show _ = _ + (a.verdict w k).toll a
    rw [hverdict]
    show _ = _ + (load.plan.toll + Tally.ofFile f - a.worth load.plan.previous)
    abel
  · rw [hsucceed, List.append_nil]
    exact parses_relink _ _
  · rw [hsucceed]
    exact congrArg (fun feed => Feed.publish feed _) (feed_relink _ _)

/-- A load that works settles as its product says. -/
theorem moves_settle {load : Load} (h : Loading w a b k load)
    (hsize : a.registry.files.size ≤ b.registry.files.size) :
    Moves w a k (load.plan.toll + Tally.oneLoading) b
      (b.advance w (.working load (a.source w load.plan))).1
      (b.advance w (.working load (a.source w load.plan))).2 := by
  rw [advance_working]
  cases hproduct : a.product w load.plan with
  | error fault =>
    cases fault with
    | failed failure => exact moves_fail ha hb h hproduct
    | crashed crash => exact moves_abandon hb h hproduct
  | ok product =>
    have hloading : Loading w a (b.noteAll (product.2.map Note.nodeSkipped)) k load :=
      ⟨h.plan, h.entry, h.replaced, h.file⟩
    have hmoves := moves_succeed (b := b.noteAll (product.2.map Note.nodeSkipped)) ha hb hloading
      hsize hproduct
    exact ⟨hmoves.settings, hmoves.spares, hmoves.tidy, hmoves.size, hmoves.stands, hmoves.tally,
      hmoves.parses, hmoves.feed⟩

include hground in
theorem moves_advance (hsize : a.registry.files.size ≤ b.registry.files.size) {stage : Stage}
    (hstage : ¬ stage.IsAnswered) (h : Stands w a b k stage) :
    Moves w a k (stage.toll a w k) b (b.advance w stage).1 (b.advance w stage).2 := by
  cases h with
  | @inspecting i hi h =>
    have hname : i.request = { name := k } := (inspected_of_inspection? hi).1
    have hdecided : b.decideInspected w.disk i = a.decideRefresh w.disk { name := k } := by
      rw [← h.decideRefresh hground, decideRefresh_of_inspection? (h.inspection? hground ▸ hi)]
    rw [advance, hname, hdecided]
    exact moves_pursue hb h
  | @started load h => exact moves_open hb hground h
  | @working load h => exact moves_settle ha hb h hsize
  | answered h => exact absurd trivial hstage

end Steps

end Atlas

end SymbolAtlas
