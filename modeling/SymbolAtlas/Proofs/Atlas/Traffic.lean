import Mathlib
import SymbolAtlas.Proofs.Atlas.RoundTrip
import SymbolAtlas.Proofs.Registry.Steadiness

/-!
# Calls side by side

Traffic is a session with the calls that wait in it: refreshes that have found their file and wait
for the disk, and calls that wait for a load.  Anything may happen while they wait, except that
names are taken out, renamed or taken over.

While a refresh waits for the disk, another call may start a load of its name.  The refresh does not
look again and starts a load of its own: it has overtaken the other one.  Nothing else makes two
loads of one name run at once (`Traffic.Bounded`).  Whoever gets a file gets the one that is indexed
under the name, unless a load of the name was started in the meantime (`Traffic.Orderly`).
-/

namespace SymbolAtlas

/-- A refresh that waits for the disk: what it found, and how many loads had been started then. -/
structure Inquiry where
  inspection : Atlas.Inspection
  since : Nat

/-- The name that an inquiry is about. -/
def Inquiry.name (q : Inquiry) : String := q.inspection.request.name

/-- What a call comes back with: a file for a name.  Loads from the number `since` on were started
after the call had found its file or its load. -/
structure Answer where
  name : String
  file : Nat
  since : Nat

/-- The file of an outcome. -/
def Outcome.file? : Outcome → Option Nat
  | .file n => some n
  | _ => none

/-- The file that a decision answers with at once. -/
def Decision.file? : Decision → Option Nat
  | .keep n => some n
  | _ => none

/-- A session with the calls that wait in it, and with what has happened so far. -/
structure Traffic extends Session where
  /-- The refreshes that wait for the disk. -/
  inquiries : List Inquiry := []
  /-- The calls that wait for a load: the name they asked for and the load. -/
  waiting : List (String × Nat) := []
  /-- The loads that have ended, with what came of them. -/
  ended : List (Load × Outcome) := []
  /-- Every load that was started. -/
  history : List Load := []
  /-- For each refresh that started a load while one of its name was awaited, the name. -/
  overtaken : List String := []

namespace Traffic

/-- The call behind a decision waits for a load, if it joins or starts one. -/
def awaitedBy (t : Traffic) : Decision → List Nat
  | .join load =>
    match t.atlas.joinOutcome load with
    | .waiting load => [load]
    | _ => []
  | .load _ => [t.atlas.registry.loads]
  | _ => []

/-- The loads that a decision starts. -/
def startedBy (t : Traffic) : Decision → List Load
  | .load plan => [(t.atlas.start plan).2]
  | _ => []

/-- The traffic after a call of a name was decided. -/
def follow (t : Traffic) (name : String) (d : Decision) : Traffic :=
  { t with
    toSession := t.toSession.follow name d
    waiting := (t.awaitedBy d).map (name, ·) ++ t.waiting
    history := t.startedBy d ++ t.history }

/-- The names that were overtaken once a waiting refresh has been decided. -/
def overtakenBy (t : Traffic) (name : String) : Decision → List String
  | .load _ => if t.atlas.registry.isLoading name then name :: t.overtaken else t.overtaken
  | _ => t.overtaken

/-- What can happen in traffic at once, with the file that a call comes back with. -/
inductive Step : Traffic → Option Answer → Traffic → Prop
  | parse (t : Traffic) (request : Request) :
      Step t none (t.follow request.name (t.atlas.decideParse request))
  /-- A refresh that need not look at the disk is decided at once. -/
  | refresh (t : Traffic) (request : Request) (disk : Disk)
      (h : t.atlas.inspection? request = none) :
      Step t
        ((t.atlas.decideRefresh disk request).file?.map (⟨request.name, ·, t.atlas.registry.loads⟩))
        (t.follow request.name (t.atlas.decideRefresh disk request))
  | inspect (t : Traffic) (request : Request) (i : Atlas.Inspection)
      (h : t.atlas.inspection? request = some i) :
      Step t none { t with inquiries := ⟨i, t.atlas.registry.loads⟩ :: t.inquiries }
  /-- The disk has answered, and the refresh goes on with the file that it found. -/
  | resume (t : Traffic) (before after : List Inquiry) (q : Inquiry) (disk : Disk)
      (h : t.inquiries = before ++ q :: after) :
      Step t
        ((t.atlas.decideInspected disk q.inspection).file?.map (⟨q.name, ·, q.since⟩))
        ({ t with
          inquiries := before ++ after
          overtaken := t.overtakenBy q.name (t.atlas.decideInspected disk q.inspection) }.follow
            q.name (t.atlas.decideInspected disk q.inspection))
  | begin (t : Traffic) (before after : List Load) (load : Load) (w : World)
      (h : t.started = before ++ load :: after) :
      Step t none { t with
        atlas := (t.atlas.openSource w load).1
        started := before ++ after
        working := load :: t.working }
  | settle (t : Traffic) (before after : List Load) (load : Load) (parser : Parser)
      (opened : OpenedSource) (h : t.working = before ++ load :: after) :
      Step t none { t with
        atlas := (t.atlas.settle parser load opened).1
        working := before ++ after
        ended := (load, (t.atlas.settle parser load opened).2) :: t.ended }
  | settleUnopened (t : Traffic) (before after : List Load) (load : Load) (fault : OpenFault)
      (h : t.working = before ++ load :: after) :
      Step t none { t with
        atlas := (t.atlas.settleUnopened load fault).1
        working := before ++ after
        ended := (load, (t.atlas.settleUnopened load fault).2) :: t.ended }
  /-- A call that waited for a load comes back with what came of it. -/
  | reply (t : Traffic) (before after : List (String × Nat)) (load : Load) (outcome : Outcome)
      (h : t.waiting = before ++ (load.name, load.number) :: after)
      (hended : (load, outcome) ∈ t.ended) :
      Step t (outcome.file?.map (⟨load.name, ·, load.number + 1⟩))
        { t with waiting := before ++ after }
  | relink (t : Traffic) (n : Nat) : Step t none { t with atlas := (t.atlas.relink n).1 }

/-- The traffic that some run of steps leads to from a session. -/
inductive Run (s : Session) : Traffic → Prop
  | start : Run s { toSession := s }
  | step {t t' : Traffic} {answer : Option Answer} (ht : Run s t) (hstep : Step t answer t') :
      Run s t'

/-- How many loads of a name are under way. -/
def underWay (t : Traffic) (name : String) : Nat :=
  (t.started ++ t.working).countP (·.name = name)

/-- No load of a name was started from a number on. -/
def Undisturbed (t : Traffic) (name : String) (since : Nat) : Prop :=
  ∀ load ∈ t.history, load.name = name → load.number < since

/-! ## At most one load of a name -/

/-- A name is loaded once at a time, but for the refreshes that overtook a load. -/
def Bounded (t : Traffic) : Prop :=
  ∀ name, t.underWay name ≤
    t.overtaken.count name + if t.atlas.registry.isLoading name then 1 else 0

theorem Bounded.congr {t t' : Traffic} (h : t.Bounded)
    (hunder : ∀ name, t'.underWay name = t.underWay name) (hover : t'.overtaken = t.overtaken)
    (hentries : t'.atlas.registry.entries = t.atlas.registry.entries) : t'.Bounded := by
  intro name
  have hname := h name
  unfold Registry.isLoading at hname ⊢
  rwa [hunder, hover, hentries]

theorem count_overtakenBy (t : Traffic) (name k : String) (plan : LoadPlan) :
    (t.overtakenBy name (.load plan)).count k = t.overtaken.count k +
      if k = name ∧ t.atlas.registry.isLoading name = true then 1 else 0 := by
  unfold overtakenBy
  by_cases hk : k = name
  · cases t.atlas.registry.isLoading name <;> simp [hk]
  · cases t.atlas.registry.isLoading name <;> simp [hk, Ne.symm hk]

theorem underWay_load (t : Traffic) (name k : String) (plan : LoadPlan) :
    (t.follow name (.load plan)).underWay k =
      t.underWay k + if plan.request.name = k then 1 else 0 := by
  have hload : (t.atlas.start plan).2.name = plan.request.name := rfl
  show ((t.atlas.start plan).2 :: t.started ++ t.working).countP (·.name = k) = _
  rw [List.cons_append, List.countP_cons, hload, underWay]
  simp only [decide_eq_true_eq]

/-- A load that is started enters its name; if the name was entered with a load, it is overtaken. -/
theorem Bounded.start {t : Traffic} (h : t.Bounded) {name : String} {plan : LoadPlan}
    (hname : plan.request.name = name) :
    ({ t with overtaken := t.overtakenBy name (.load plan) }.follow name (.load plan)).Bounded := by
  subst hname
  intro k
  have hold := h k
  have hloading : ({ t with overtaken := t.overtakenBy plan.request.name (.load plan) }.follow
      plan.request.name (.load plan)).atlas.registry.isLoading k =
        if k = plan.request.name then true else t.atlas.registry.isLoading k :=
    Registry.isLoading_start _ _ _ _
  have hcount := t.count_overtakenBy plan.request.name k plan
  rw [underWay_load, hloading]
  show t.underWay k + _ ≤ (t.overtakenBy plan.request.name (.load plan)).count k + _
  rw [hcount]
  by_cases hk : k = plan.request.name
  · subst hk
    cases hl : t.atlas.registry.isLoading plan.request.name with
    | true =>
      simp only [hl, ↓reduceIte, and_self] at hold ⊢
      omega
    | false =>
      simp only [hl, Bool.false_eq_true, ↓reduceIte, and_false] at hold ⊢
      omega
  · simpa [hk, Ne.symm hk] using hold

/-- The end of a load leaves one load less under way. -/
theorem Bounded.ends {t : Traffic} (h : t.Bounded) {before after : List Load} {load : Load}
    (hworking : t.working = before ++ load :: after) {a : Atlas} {result : Option Nat}
    (hends : t.atlas.registry.Ends load.name load.number result a.registry)
    (ended : List (Load × Outcome)) :
    Bounded { t with atlas := a, working := before ++ after, ended := ended } := by
  intro k
  have hold := h k
  have hcount : t.underWay k =
      (t.started ++ (before ++ after)).countP (·.name = k) + if load.name = k then 1 else 0 := by
    rw [underWay, hworking]
    simp only [List.countP_append, List.countP_cons, decide_eq_true_eq]
    omega
  show (t.started ++ (before ++ after)).countP (·.name = k) ≤ t.overtaken.count k +
    if a.registry.isLoading k then 1 else 0
  by_cases hk : load.name = k
  · rw [if_pos hk] at hcount
    split at hold <;> omega
  · rw [if_neg hk] at hcount
    rw [hends.isLoading_eq (Ne.symm hk)]
    omega

/-! ## What a load ends with -/

end Traffic

namespace Atlas

theorem ends_fail (a : Atlas) (load : Load) (failure : Failure) :
    a.registry.Ends load.name load.number (a.fail load failure).2.file?
      (a.fail load failure).1.registry :=
  Registry.ends_fail failure

theorem ends_succeed (a : Atlas) (load : Load) {f : SourceFile} (hf : f.IsEntered load.name) :
    a.registry.Ends load.name load.number (a.succeed load f).2.file?
      (a.succeed load f).1.registry := by
  have hends : a.registry.Ends load.name load.number _ _ := Registry.ends_succeed hf
  unfold succeed
  simp only
  split
  · have hlinked := hends.relink (a.registry.succeed load.name load.number f).2
    rw [← registry_relink { a with registry := (a.registry.succeed load.name load.number f).1 }]
      at hlinked
    exact hlinked
  · exact hends

theorem ends_settle (a : Atlas) (parser : Parser) (load : Load) (opened : OpenedSource) :
    a.registry.Ends load.name load.number (a.settle parser load opened).2.file?
      (a.settle parser load opened).1.registry := by
  unfold settle
  split
  · exact a.ends_fail load _
  · rename_i tree _
    have hentered := SourceFile.isEntered_ofTree load.name tree (some (Sha256.hex opened.content))
      (some opened.mtime) (some opened.content.length)
    have hends := ends_succeed (a.noteAll ((SourceFile.ofTree load.name tree
      (some (Sha256.hex opened.content)) (some opened.mtime)
        (some opened.content.length)).2.map Note.nodeSkipped)) load hentered
    exact hends

theorem ends_settleUnopened (a : Atlas) (load : Load) (fault : OpenFault) :
    a.registry.Ends load.name load.number (a.settleUnopened load fault).2.file?
      (a.settleUnopened load fault).1.registry := by
  cases fault with
  | failed failure => exact a.ends_fail load failure
  | crashed crash => exact Registry.ends_abandon crash

end Atlas

namespace Traffic

/-! ## Every step keeps the bound -/

/-- A decision that agrees with the entry of its name overtakes nothing. -/
theorem overtakenBy_of_allows {t : Traffic} {name : String} {d : Decision}
    (hd : t.atlas.Allows name d) : t.overtakenBy name d = t.overtaken := by
  cases d with
  | load plan =>
    obtain ⟨-, hprevious⟩ := hd
    have hloading : t.atlas.registry.isLoading name = false := by
      rw [Registry.isLoading, show _ = _ from hprevious]
      cases plan.previous <;> rfl
    rw [overtakenBy, hloading]
    rfl
  | _ => rfl

theorem Bounded.follow {t : Traffic} (h : t.Bounded) {name : String} {d : Decision}
    (hd : ∀ plan, d = .load plan → plan.request.name = name) :
    ({ t with overtaken := t.overtakenBy name d }.follow name d).Bounded := by
  cases d with
  | load plan => exact h.start (hd plan rfl)
  | join load => exact h.congr (fun _ => rfl) rfl rfl
  | keep n => exact h.congr (fun _ => rfl) rfl rfl
  | crash crash => exact h.congr (fun _ => rfl) rfl rfl

theorem Bounded.follow_allowed {t : Traffic} (h : t.Bounded) {name : String} {d : Decision}
    (hd : t.atlas.Allows name d) : (t.follow name d).Bounded := by
  have hfollow : ({ t with overtaken := t.overtakenBy name d }.follow name d).Bounded := by
    refine h.follow ?_
    rintro plan rfl
    exact hd.1
  rwa [overtakenBy_of_allows hd] at hfollow

/-- A load that begins is still under way. -/
theorem perm_begin {t : Traffic} {before after : List Load} {load : Load}
    (h : t.started = before ++ load :: after) :
    ((before ++ after) ++ load :: t.working).Perm (t.started ++ t.working) := by
  rw [h, List.append_assoc, List.append_assoc, List.cons_append]
  exact List.perm_middle.append_left before

theorem Step.bounded {t t' : Traffic} {answer : Option Answer} (hstep : Step t answer t')
    (h : t.Bounded) : t'.Bounded := by
  cases hstep with
  | parse request => exact h.follow_allowed (t.atlas.allows_decideParse request)
  | refresh request disk _ => exact h.follow_allowed (t.atlas.allows_decideRefresh disk request)
  | inspect request i _ => exact h.congr (fun _ => rfl) rfl rfl
  | resume before after q disk _ =>
    have hrest : Bounded { t with inquiries := before ++ after } := h.congr (fun _ => rfl) rfl rfl
    exact hrest.follow fun plan hplan => (t.atlas.plan_of_decideInspected hplan).1
  | begin before after load w hstarted =>
    refine h.congr (fun k => (perm_begin hstarted).countP_eq _) rfl ?_
    rw [Atlas.registry_openSource]
    rfl
  | settle before after load parser opened hworking =>
    exact h.ends hworking (t.atlas.ends_settle parser load opened) _
  | settleUnopened before after load fault hworking =>
    exact h.ends hworking (t.atlas.ends_settleUnopened load fault) _
  | reply before after load outcome _ _ => exact h.congr (fun _ => rfl) rfl rfl
  | relink n =>
    refine h.congr (fun _ => rfl) rfl ?_
    rw [Atlas.registry_relink, Registry.entries_relink]

/-! ## Answers -/

/-- The loads under way, the loads that have ended and the waiting refreshes know what their name
stands for, as long as no load of it is started. -/
structure Orderly (t : Traffic) : Prop where
  steady : t.atlas.registry.Steady
  numbered : ∀ load ∈ t.history, load.number < t.atlas.registry.loads
  known : ∀ load ∈ t.started ++ t.working, load ∈ t.history
  distinct : ((t.started ++ t.working).map Load.number).Nodup
  recorded : ∀ e ∈ t.ended, e.1 ∈ t.history
  awaited : ∀ load ∈ t.started ++ t.working, t.Undisturbed load.name (load.number + 1) →
    t.atlas.registry.entries.get? load.name = some (.loading load.number)
  entered : ∀ {load n}, (load, .file n) ∈ t.ended → t.Undisturbed load.name (load.number + 1) →
    t.atlas.registry.entries.get? load.name = some (.loaded n)
  earlier : ∀ q ∈ t.inquiries, q.since ≤ t.atlas.registry.loads
  kept : ∀ q ∈ t.inquiries, t.atlas.registry.Keeps q.name q.inspection.file
  found : ∀ q ∈ t.inquiries, t.Undisturbed q.name q.since →
    t.atlas.registry.entries.get? q.name = some (.loaded q.inspection.file)

section Orderly

variable {t t' : Traffic}

/-- Steps that touch no entry and start no load. -/
theorem Orderly.quiet (h : t.Orderly) (hsteady : t'.atlas.registry.Steady)
    (hentries : t'.atlas.registry.entries = t.atlas.registry.entries)
    (hloads : t'.atlas.registry.loads = t.atlas.registry.loads)
    (hsize : t'.atlas.registry.files.size = t.atlas.registry.files.size)
    (hunder : (t'.started ++ t'.working).Perm (t.started ++ t.working))
    (hhistory : t'.history = t.history) (hended : t'.ended = t.ended)
    (hinquiries : ∀ q ∈ t'.inquiries, q ∈ t.inquiries) : t'.Orderly where
  steady := hsteady
  numbered := by
    rw [hhistory, hloads]
    exact h.numbered
  known := by
    intro load hload
    rw [hhistory]
    exact h.known load (hunder.mem_iff.1 hload)
  distinct := (hunder.map Load.number).nodup_iff.2 h.distinct
  recorded := by
    rw [hended, hhistory]
    exact h.recorded
  awaited := by
    intro load hload
    rw [Undisturbed, hhistory, hentries]
    exact h.awaited load (hunder.mem_iff.1 hload)
  entered := by
    intro load n hfile
    rw [hended] at hfile
    rw [Undisturbed, hhistory, hentries]
    exact h.entered hfile
  earlier := by
    rw [hloads]
    exact fun q hq => h.earlier q (hinquiries q hq)
  kept := by
    intro q hq
    obtain ⟨hlt, halone⟩ := h.kept q (hinquiries q hq)
    exact ⟨hsize ▸ hlt, hentries ▸ halone⟩
  found := by
    intro q hq
    rw [Undisturbed, hhistory, hentries]
    exact h.found q (hinquiries q hq)

theorem Orderly.inspect (h : t.Orderly) {request : Request} {i : Atlas.Inspection}
    (hi : t.atlas.inspection? request = some i) :
    Orderly { t with inquiries := ⟨i, t.atlas.registry.loads⟩ :: t.inquiries } := by
  have hentry := (Atlas.inspected_of_inspection? hi).2
  refine ⟨h.steady, h.numbered, h.known, h.distinct, h.recorded, h.awaited, h.entered, ?_, ?_, ?_⟩
  · exact List.forall_mem_cons.2 ⟨Nat.le_refl _, h.earlier⟩
  · exact List.forall_mem_cons.2 ⟨h.steady.keeps hentry, h.kept⟩
  · exact List.forall_mem_cons.2 ⟨fun _ => hentry, h.found⟩

/-- A load that was started disturbs everyone who has seen its name before: whoever is still
undisturbed has seen another name, whose entry is what it was. -/
theorem undisturbed_of_load {plan : LoadPlan} {k : String} {since : Nat}
    (hsince : since ≤ t.atlas.registry.loads)
    (h : (t.follow plan.request.name (.load plan)).Undisturbed k since) :
    t.Undisturbed k since ∧
      (t.follow plan.request.name (.load plan)).atlas.registry.entries.get? k =
        t.atlas.registry.entries.get? k := by
  have hnumber : (t.atlas.start plan).2.number = t.atlas.registry.loads := Registry.snd_start _ _ _
  obtain ⟨hnew, hold⟩ := List.forall_mem_cons.1 h
  have hne : k ≠ plan.request.name := by
    rintro rfl
    have hlt := hnew rfl
    omega
  exact ⟨hold, (Registry.get?_start _ _ _ k).trans (if_neg hne)⟩

theorem Orderly.start (h : t.Orderly) {name : String} {plan : LoadPlan}
    (hname : plan.request.name = name)
    (hprevious : ∀ n, plan.previous = some n → t.atlas.registry.Keeps name n) :
    (t.follow name (.load plan)).Orderly := by
  subst hname
  set new : Load := (t.atlas.start plan).2
  have hnumber : new.number = t.atlas.registry.loads := Registry.snd_start _ _ _
  have hhistory : (t.follow plan.request.name (.load plan)).history = new :: t.history := rfl
  have hunder : (t.follow plan.request.name (.load plan)).started ++
      (t.follow plan.request.name (.load plan)).working = new :: (t.started ++ t.working) := rfl
  have hloads : (t.follow plan.request.name (.load plan)).atlas.registry.loads =
      t.atlas.registry.loads + 1 := Registry.loads_start _ _ _
  refine ⟨h.steady.start hprevious, ?_, ?_, ?_, ?_, ?_, ?_, ?_, ?_, ?_⟩
  · rw [hhistory, hloads]
    refine List.forall_mem_cons.2 ⟨by omega, fun load hload => ?_⟩
    have := h.numbered load hload
    omega
  · rw [hunder, hhistory]
    refine List.forall_mem_cons.2 ⟨List.mem_cons_self, fun load hload => ?_⟩
    exact List.mem_cons_of_mem _ (h.known load hload)
  · rw [hunder, List.map_cons, List.nodup_cons]
    refine ⟨?_, h.distinct⟩
    intro hmem
    obtain ⟨load, hload, heq⟩ := List.mem_map.1 hmem
    have := h.numbered load (h.known load hload)
    omega
  · intro e he
    rw [hhistory]
    exact List.mem_cons_of_mem _ (h.recorded e he)
  · rw [hunder]
    refine List.forall_mem_cons.2 ⟨fun _ => ?_, fun load hload hundisturbed => ?_⟩
    · rw [hnumber]
      exact (Registry.get?_start _ _ _ _).trans (if_pos rfl)
    · obtain ⟨hold, hsame⟩ :=
        undisturbed_of_load (h.numbered load (h.known load hload)) hundisturbed
      rw [hsame]
      exact h.awaited load hload hold
  · intro load n hfile hundisturbed
    obtain ⟨hold, hsame⟩ := undisturbed_of_load (h.numbered load (h.recorded _ hfile)) hundisturbed
    rw [hsame]
    exact h.entered hfile hold
  · intro q hq
    have := h.earlier q hq
    omega
  · exact fun q hq => (h.kept q hq).start _
  · intro q hq hundisturbed
    obtain ⟨hold, hsame⟩ := undisturbed_of_load (h.earlier q hq) hundisturbed
    rw [hsame]
    exact h.found q hq hold

/-- The end of a load changes the entry that it is awaited under, and nobody else knows that one. -/
theorem Orderly.ends (h : t.Orderly) {before after : List Load} {load : Load}
    (hworking : t.working = before ++ load :: after) {a : Atlas} {outcome : Outcome}
    (hends : t.atlas.registry.Ends load.name load.number outcome.file? a.registry) :
    Orderly { t with
      atlas := a
      working := before ++ after
      ended := (load, outcome) :: t.ended } := by
  have hperm : (t.started ++ t.working).Perm (load :: (t.started ++ (before ++ after))) := by
    rw [hworking, ← List.append_assoc, ← List.append_assoc]
    exact List.perm_middle
  have hload : load ∈ t.started ++ t.working := hperm.mem_iff.2 List.mem_cons_self
  have hrest : ∀ other ∈ t.started ++ (before ++ after), other ∈ t.started ++ t.working :=
    fun other hother => hperm.mem_iff.2 (List.mem_cons_of_mem _ hother)
  obtain ⟨hfresh, hdistinct⟩ := List.nodup_cons.1 ((hperm.map Load.number).nodup_iff.1 h.distinct)
  have hkept : ∀ {k : String} {n : Nat}, t.atlas.registry.entries.get? k = some (.loaded n) →
      a.registry.entries.get? k = some (.loaded n) := by
    intro k n hk
    rw [hends.get?_eq fun _ hloading => ?_, hk]
    rw [hk] at hloading
    cases hloading
  refine ⟨hends.steady h.steady, ?_, ?_, hdistinct, ?_, ?_, ?_, ?_, ?_, ?_⟩
  · intro other hother
    rw [hends.loads]
    exact h.numbered other hother
  · exact fun other hother => h.known other (hrest other hother)
  · exact List.forall_mem_cons.2 ⟨h.known load hload, h.recorded⟩
  · intro other hother hundisturbed
    have hawaited := h.awaited other (hrest other hother) hundisturbed
    rw [hends.get?_eq fun _ hloading => ?_, hawaited]
    -- a second load under way has another number
    rw [hawaited, Option.some.injEq, Entry.loading.injEq] at hloading
    exact hfresh (List.mem_map.2 ⟨other, hother, hloading⟩)
  · intro other n hfile hundisturbed
    rcases List.mem_cons.1 hfile with heq | hfile
    · cases heq
      have hawaited := h.awaited load hload hundisturbed
      exact hends.entered (decide_eq_true hawaited) n rfl
    · exact hkept (h.entered hfile hundisturbed)
  · intro q hq
    rw [hends.loads]
    exact h.earlier q hq
  · exact fun q hq => hends.keeps (h.kept q hq)
  · exact fun q hq hundisturbed => hkept (h.found q hq hundisturbed)

theorem Orderly.follow (h : t.Orderly) {name : String} {d : Decision}
    (hd : ∀ plan, d = .load plan → plan.request.name = name ∧
      ∀ n, plan.previous = some n → t.atlas.registry.Keeps name n) : (t.follow name d).Orderly := by
  cases d with
  | load plan => exact h.start (hd plan rfl).1 (hd plan rfl).2
  | join load => exact h.quiet h.steady rfl rfl rfl (.refl _) rfl rfl fun _ hq => hq
  | keep n => exact h.quiet h.steady rfl rfl rfl (.refl _) rfl rfl fun _ hq => hq
  | crash crash => exact h.quiet h.steady rfl rfl rfl (.refl _) rfl rfl fun _ hq => hq

theorem Orderly.follow_allowed (h : t.Orderly) {name : String} {d : Decision}
    (hd : t.atlas.Allows name d) : (t.follow name d).Orderly := by
  refine h.follow ?_
  rintro plan rfl
  obtain ⟨hname, hprevious⟩ := hd
  refine ⟨hname, fun n hn => h.steady.keeps ?_⟩
  rw [show _ = _ from hprevious, hn]
  rfl

theorem Step.orderly {answer : Option Answer} (hstep : Step t answer t') (h : t.Orderly) :
    t'.Orderly := by
  cases hstep with
  | parse request => exact h.follow_allowed (t.atlas.allows_decideParse request)
  | refresh request disk _ => exact h.follow_allowed (t.atlas.allows_decideRefresh disk request)
  | inspect request i hi => exact h.inspect hi
  | resume before after q disk hinquiries =>
    have hq : q ∈ t.inquiries := by
      rw [hinquiries]
      exact List.mem_append_right _ List.mem_cons_self
    have hrest : Orderly { t with
        inquiries := before ++ after
        overtaken := t.overtakenBy q.name (t.atlas.decideInspected disk q.inspection) } := by
      refine h.quiet h.steady rfl rfl rfl (.refl _) rfl rfl fun other hother => ?_
      rw [hinquiries]
      exact List.mem_append.2 ((List.mem_append.1 hother).imp_right (List.mem_cons_of_mem q))
    refine hrest.follow ?_
    intro plan hplan
    obtain ⟨hname, hprevious⟩ := t.atlas.plan_of_decideInspected hplan
    refine ⟨hname, fun n hn => ?_⟩
    rw [hprevious] at hn
    cases hn
    exact h.kept q hq
  | begin before after load w hstarted =>
    have hregistry := t.atlas.registry_openSource w load
    refine h.quiet ?_ ?_ ?_ ?_ (perm_begin hstarted) rfl rfl fun _ hq => hq
    · rw [hregistry]
      exact h.steady.congr rfl rfl rfl
    · rw [hregistry]
      rfl
    · rw [hregistry]
      rfl
    · rw [hregistry]
      rfl
  | settle before after load parser opened hworking =>
    exact h.ends hworking (t.atlas.ends_settle parser load opened)
  | settleUnopened before after load fault hworking =>
    exact h.ends hworking (t.atlas.ends_settleUnopened load fault)
  | reply before after load outcome _ _ =>
    exact h.quiet h.steady rfl rfl rfl (.refl _) rfl rfl fun _ hq => hq
  | relink n =>
    have hregistry := t.atlas.registry_relink n
    refine h.quiet ?_ ?_ ?_ ?_ (.refl _) rfl rfl fun _ hq => hq
    · rw [hregistry]
      exact h.steady.relink n
    · rw [hregistry]
      exact Registry.entries_relink _ n
    · rw [hregistry]
      exact Registry.loads_relink _ n
    · rw [hregistry]
      exact Registry.size_relink _ n

/-- The file of an answer is the one that is indexed, unless a load was started since. -/
theorem Step.entry_of_answer {label : Option Answer} (hstep : Step t label t') (h : t.Orderly)
    {answer : Answer} (hlabel : label = some answer)
    (hundisturbed : t'.Undisturbed answer.name answer.since) :
    t'.atlas.registry.entries.get? answer.name = some (.loaded answer.file) := by
  cases hstep with
  | refresh request disk _ =>
    have hallows := t.atlas.allows_decideRefresh disk request
    cases hd : t.atlas.decideRefresh disk request with
    | keep n =>
      rw [hd] at hlabel hallows
      cases hlabel
      exact hallows
    | _ =>
      rw [hd] at hlabel
      cases hlabel
  | resume before after q disk hinquiries =>
    have hq : q ∈ t.inquiries := by
      rw [hinquiries]
      exact List.mem_append_right _ List.mem_cons_self
    rcases t.atlas.decideInspected_cases disk q.inspection with
      hd | ⟨crash, hd⟩ | ⟨plan, hd, -⟩
    · rw [hd] at hlabel hundisturbed ⊢
      cases hlabel
      exact h.found q hq hundisturbed
    · rw [hd] at hlabel
      cases hlabel
    · rw [hd] at hlabel
      cases hlabel
  | reply before after load outcome _ hended =>
    cases outcome with
    | file n =>
      cases hlabel
      exact h.entered hended hundisturbed
    | _ => cases hlabel
  | _ => cases hlabel

theorem orderly_start {s : Session} (hs : s.Reachable) (hstarted : s.started = [])
    (hworking : s.working = []) : Orderly { toSession := s } where
  steady := hs.coherent.registry.steady
  numbered := List.forall_mem_nil _
  known := by simp [hstarted, hworking]
  distinct := by simp [hstarted, hworking]
  recorded := List.forall_mem_nil _
  awaited := by simp [hstarted, hworking]
  entered := fun hfile => absurd hfile List.not_mem_nil
  earlier := List.forall_mem_nil _
  kept := List.forall_mem_nil _
  found := List.forall_mem_nil _

theorem Run.orderly {s : Session} (hs : s.Reachable) (hstarted : s.started = [])
    (hworking : s.working = []) (ht : Run s t) : t.Orderly := by
  induction ht with
  | start => exact orderly_start hs hstarted hworking
  | step _ hstep ih => exact hstep.orderly ih

theorem Run.bounded {s : Session} (hstarted : s.started = []) (hworking : s.working = [])
    (ht : Run s t) : t.Bounded := by
  induction ht with
  | start =>
    intro name
    simp [underWay, hstarted, hworking]
  | step _ hstep ih => exact hstep.bounded ih

end Orderly

/-- In traffic from a session without loads under way, a name is loaded once at a time, but for the
refreshes that overtook a load of it.  A call that comes back with a file while no later load of the
name has been started comes back with the one that is indexed under the name, which is no empty
shell. -/
theorem one_load_per_name {s : Session} (hs : s.Reachable) (hstarted : s.started = [])
    (hworking : s.working = []) {t : Traffic} (ht : Run s t) :
    (∀ name, t.underWay name ≤ t.overtaken.count name + 1) ∧
    ∀ {t' : Traffic} {answer : Answer}, Step t (some answer) t' →
      t'.Undisturbed answer.name answer.since →
      t'.atlas.get? answer.name = some answer.file ∧
        ∃ f, t'.atlas.file? answer.file = some f ∧ f.detached = false := by
  refine ⟨fun name => ?_, fun {t' answer} hstep hundisturbed => ?_⟩
  · have hname := ht.bounded hstarted hworking name
    split at hname <;> omega
  · have horderly := ht.orderly hs hstarted hworking
    have hentry := hstep.entry_of_answer horderly rfl hundisturbed
    obtain ⟨f, hf, hentered⟩ := (hstep.orderly horderly).steady.named hentry
    refine ⟨?_, f, hf, hentered.detached⟩
    rw [Atlas.get?, Registry.get?, hentry]

/-! ## Refreshes of one file -/

/-- The disk of the small session, with a content and a time of change for its one file. -/
def cartDisk (content : List UInt8) (mtime : Double) : Disk where
  root := .directory [("src", .directory [("cart", .file content mtime)])]

/-- A refresh of the one file that waits for the disk. -/
def cartInquiry : Inquiry := ⟨⟨{ name := "cart" }, 0⟩, 1⟩

/-- The small session with a number of refreshes that wait for the disk. -/
def refreshing (calls : Nat) : Traffic where
  toSession := Session.shop
  inquiries := List.replicate calls cartInquiry

theorem run_refreshing (calls : Nat) : Run Session.shop (refreshing calls) := by
  induction calls with
  | zero => exact .start
  | succ calls ih => exact .step ih (.inspect (refreshing calls) { name := "cart" } _ rfl)

/-- A single refresh of the file, which has not changed, comes back with the file. -/
theorem one_load_per_name_unchanged :
    (refreshing 1).underWay "cart" ≤ (refreshing 1).overtaken.count "cart" + 1 ∧
      (refreshing 0).atlas.get? "cart" = some 0 := by
  obtain ⟨hbound, hanswer⟩ :=
    one_load_per_name Session.reachable_shop rfl rfl (run_refreshing 1)
  have hstep : Step (refreshing 1) (some ⟨"cart", 0, 1⟩)
      ((refreshing 0).follow "cart" (.keep 0)) :=
    .resume (refreshing 1) [] [] cartInquiry (cartDisk [] default) rfl
  exact ⟨hbound "cart", (hanswer hstep (List.forall_mem_nil _)).1⟩

/-- A load of the file after its size was seen to be one. -/
def cartLoad (number : Nat) : Load :=
  ⟨number, { request := { name := "cart", stat := some ⟨1, default⟩ }, previous := some 0 }⟩

/-- The file has changed. -/
def changedCart : World :=
  { (default : World) with disk := cartDisk [33] default }

/-- Two refreshes of the file, which has changed, make two loads of it run at once. -/
theorem two_loads_of_one_name :
    Session.Reachable Session.shop ∧ Session.shop.started = [] ∧ Session.shop.working = [] ∧
      ∃ t, Run Session.shop t ∧ t.working.map Load.name = ["cart", "cart"] := by
  have hfirst := Run.step (run_refreshing 2)
    (.resume (refreshing 2) [] [cartInquiry] cartInquiry (cartDisk [33] default) rfl)
  have hsecond := Run.step hfirst (.resume _ [] [] cartInquiry (cartDisk [33] default) rfl)
  have hbegun := Run.step hsecond
    (.begin _ [] [cartLoad 1] (cartLoad 2) changedCart rfl)
  have hboth := Run.step hbegun (.begin _ [] [] (cartLoad 1) changedCart rfl)
  exact ⟨Session.reachable_shop, rfl, rfl, _, hboth, rfl⟩

end Traffic

end SymbolAtlas
