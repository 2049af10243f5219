import Mathlib
import SymbolAtlas.Proofs.Atlas.ScanOrder

/-!
# Names that are blocked

A load that came to no result stays entered under its name, and whoever asks for the name is told
what the load has raised.  Only maintenance lets go of such a name: whatever is parsed, refreshed,
loaded or linked afterwards, it stays blocked (`Course.Blocked.performAll`).  A scan that raises
leaves blocked names behind, while the rest of its errands go on (`Scanning.Good.blocked`).
-/

namespace SymbolAtlas

namespace Registry

variable {r r' : Registry} {k name : String}

/-- A load that has crashed is entered under a name. -/
def Blocks (r : Registry) (k : String) : Prop :=
  ∃ load, r.entries.get? k = some (.loading load) ∧ (r.crash? load).isSome

namespace Blocks

variable (h : r.Blocks k)

include h

theorem congr (he : r'.entries.get? k = r.entries.get? k)
    (hc : ∀ load, (r.crash? load).isSome → (r'.crash? load).isSome) : r'.Blocks k := by
  obtain ⟨load, hentry, hcrash⟩ := h
  exact ⟨load, he.trans hentry, hc load hcrash⟩

theorem start (hk : k ≠ name) (previous : Option Nat) : (r.start name previous).1.Blocks k :=
  have hspares := r.spares_start name previous
  h.congr (hspares.entries hk) fun _ => hspares.crashed

theorem fail (hk : k ≠ name) (load : Nat) (failure : Failure) :
    (r.fail name load failure).Blocks k := by
  refine h.congr (r.get?_entries_fail hk load failure) fun other hother => ?_
  rw [crash?, r.crashes_fail]
  exact hother

theorem succeed (hk : k ≠ name) (load : Nat) (f : SourceFile) :
    (r.succeed name load f).1.Blocks k := by
  refine h.congr (r.get?_entries_succeed hk load f) fun other hother => ?_
  rw [crash?, r.crashes_succeed]
  exact hother

theorem abandon (load : Nat) (crash : Crash) : (r.abandon load crash).Blocks k :=
  h.congr rfl fun _ => ((Spares.refl k r).crash load crash).crashed

theorem relink (n : Nat) : (r.relink n).1.Blocks k :=
  h.congr (by rw [entries_relink]) fun other hother => by rwa [crash?, r.crashes_relink]

end Blocks

end Registry

namespace Atlas

variable {a : Atlas} {k : String}

theorem decideParse_of_blocks {request : Request} {load : Nat}
    (h : a.registry.entries.get? request.name = some (.loading load)) :
    a.decideParse request = .join load := by
  simp only [decideParse, h]

theorem decideRefresh_of_blocks {request : Request} {load : Nat}
    (h : a.registry.entries.get? request.name = some (.loading load)) (disk : Disk) :
    a.decideRefresh disk request = .join load := by
  simp only [decideRefresh, h]
  exact decideParse_of_blocks h

/-- Whoever asks for a blocked name is told of a crash. -/
theorem crashed_of_blocks (h : a.registry.Blocks k) (w : World) {request : Request}
    (hname : request.name = k) : (∃ crash, (a.parse w request).2 = .crashed crash) ∧
      ∃ crash, (a.refresh w request).2 = .crashed crash := by
  subst hname
  obtain ⟨load, hentry, hcrash⟩ := h
  obtain ⟨crash, hcrash⟩ := Option.isSome_iff_exists.1 hcrash
  have hjoin : a.joinOutcome load = .crashed crash := by rw [joinOutcome, hcrash]
  refine ⟨⟨crash, ?_⟩, crash, ?_⟩
  · rw [parse, decideParse_of_blocks hentry]
    exact hjoin
  · rw [refresh, decideRefresh_of_blocks hentry]
    exact hjoin

theorem name_of_allows {name : String} {d : Decision} (h : a.Allows name d) :
    ∀ plan, d = .load plan → plan.request.name = name := by
  rintro plan rfl
  exact h.1

end Atlas

/-! ## Courses with a blocked name -/

/-- Whether a move only reads, loads and links. -/
def Move.IsLoading : Move → Prop
  | .parse _ => True
  | .refresh _ _ => True
  | .resume _ _ => True
  | .begin _ _ => True
  | .finish _ _ => True
  | .relink _ => True
  | .remove _ => False
  | .rename _ _ => False
  | .clear => False
  | .adopt _ => False

namespace Course

/-- A name is blocked, and nothing that is under way is about it. -/
structure Blocked (c : Course) (k : String) : Prop where
  registry : c.atlas.registry.Blocks k
  loads : ∀ load ∈ c.started ++ c.working, load.name ≠ k
  inspections : ∀ i ∈ c.inspections, i.request.name ≠ k

namespace Blocked

variable {c : Course} {k : String} (h : Blocked c k)

include h

/-- A request of another name was decided. -/
theorem follow {name : String} (hname : name ≠ k) {d : Decision}
    (hd : ∀ plan, d = .load plan → plan.request.name = name) : Blocked (c.follow name d) k := by
  cases d with
  | join load => exact h
  | crash crash => exact h
  | keep n => exact ⟨h.registry, h.loads, h.inspections⟩
  | load plan =>
    have hplan : plan.request.name = name := hd plan rfl
    refine ⟨h.registry.start (hplan ▸ hname.symm) plan.previous, fun load hload => ?_,
      h.inspections⟩
    rcases List.mem_cons.1 hload with rfl | hload
    · exact fun heq => hname (hplan.symm.trans heq)
    · exact h.loads load hload

/-- Some of what was under way has gone, or stands in another order. -/
theorem fewer {c' : Course} (hregistry : c'.atlas.registry.Blocks k)
    (hloads : ∀ load ∈ c'.started ++ c'.working, load ∈ c.started ++ c.working)
    (hinspections : ∀ i ∈ c'.inspections, i ∈ c.inspections) : Blocked c' k where
  registry := hregistry
  loads := fun load hload => h.loads load (hloads load hload)
  inspections := fun i hi => h.inspections i (hinspections i hi)

theorem settle (ending : Ending) {load : Load} (hload : load.name ≠ k) :
    (ending.settle c.atlas load).1.registry.Blocks k :=
  ending.registry_settle_keeps (P := fun r => r.Blocks k) (h.registry.fail hload.symm load.number)
    (h.registry.abandon load.number) (fun _ _ _ _ => h.registry.succeed hload.symm load.number _)
    fun _ n hr => hr.relink n

/-- No move that only reads, loads and links lets go of a blocked name. -/
theorem perform {move : Move} (hmove : move.IsLoading) : Blocked (c.perform move) k := by
  obtain ⟨load, hentry, -⟩ := h.registry
  cases move with
  | parse request =>
    by_cases hname : request.name = k
    · rw [Course.perform, Atlas.decideParse_of_blocks (hname ▸ hentry)]
      exact h
    · exact h.follow hname (Atlas.name_of_allows (c.atlas.allows_decideParse request))
  | refresh request disk =>
    by_cases hname : request.name = k
    · have hnone : c.atlas.inspection? request = none := by
        unfold Atlas.inspection?
        rw [hname, hentry]
      rw [Course.perform, hnone, Atlas.decideRefresh_of_blocks (hname ▸ hentry)]
      exact h
    · rw [Course.perform]
      split
      · rename_i i hi
        refine ⟨h.registry, h.loads, fun j hj => ?_⟩
        rcases List.mem_append.1 hj with hj | hj
        · exact h.inspections j hj
        · rw [List.mem_singleton.1 hj, (Atlas.inspected_of_inspection? hi).1]
          exact hname
      · exact h.follow hname (Atlas.name_of_allows (c.atlas.allows_decideRefresh disk request))
  | resume place disk =>
    rw [Course.perform]
    split
    · rename_i i hi
      have hfewer : Blocked { c with inspections := c.inspections.eraseIdx place } k :=
        h.fewer h.registry (fun _ hload => hload) fun j hj => List.mem_of_mem_eraseIdx hj
      exact hfewer.follow (h.inspections i (List.mem_of_getElem? hi)) fun plan hplan =>
        (c.atlas.plan_of_decideInspected hplan).1
    · exact h
  | begin number w =>
    rw [Course.perform]
    split
    · rename_i load hload
      refine h.fewer ?_ (fun l hl => ?_) fun _ hi => hi
      · show (c.atlas.openSource w load).1.registry.Blocks k
        rw [Atlas.registry_openSource]
        exact h.registry
      · rcases List.mem_append.1 hl with hl | hl
        · exact List.mem_append_left _ (mem_without.1 hl).1
        · rcases List.mem_cons.1 hl with rfl | hl
          · exact List.mem_append_left _ (mem_of_find hload).1
          · exact List.mem_append_right _ hl
    · exact h
  | finish number ending =>
    rw [Course.perform]
    split
    · rename_i load hload
      have hname := h.loads load (List.mem_append_right _ (mem_of_find hload).1)
      refine h.fewer (h.settle ending hname) (fun l hl => ?_) fun _ hi => hi
      rcases List.mem_append.1 hl with hl | hl
      · exact List.mem_append_left _ hl
      · exact List.mem_append_right _ (mem_without.1 hl).1
    · exact h
  | relink name =>
    rw [Course.perform]
    split
    · rename_i n _
      refine ⟨?_, h.loads, h.inspections⟩
      show (c.atlas.relink n).1.registry.Blocks k
      rw [Atlas.registry_relink]
      exact h.registry.relink n
    · exact h
  | _ => exact absurd hmove id

theorem performAll {moves : List Move} (hmoves : ∀ move ∈ moves, move.IsLoading) :
    Blocked (c.performAll moves) k := by
  induction moves generalizing c with
  | nil => exact h
  | cons move rest ih =>
    obtain ⟨hmove, hrest⟩ := List.forall_mem_cons.1 hmoves
    exact ih (h.perform hmove) hrest

end Blocked

end Course

/-! ## What a scan leaves behind -/

/-- The load that an errand has started. -/
def Stage.started? : Stage → Option Load
  | .started load => some load
  | _ => none

/-- The load of an errand that works. -/
def Stage.working? : Stage → Option Load
  | .working load _ => some load
  | _ => none

/-- What an errand waits for the disk to tell. -/
def Stage.inspecting? : Stage → Option Atlas.Inspection
  | .inspecting i => some i
  | _ => none

namespace Atlas

variable {w : World} {a b : Atlas} {k : String} {stage : Stage}

/-- The load of an errand bears the name of the errand. -/
theorem Stands.name_of_load (h : Stands w a b k stage) {load : Load}
    (hload : stage.started? = some load ∨ stage.working? = some load) : load.name = k := by
  cases h with
  | started hloading =>
    rcases hload with hload | hload <;> cases hload
    exact hloading.name_eq
  | working hloading =>
    rcases hload with hload | hload <;> cases hload
    exact hloading.name_eq
  | _ => rcases hload with hload | hload <;> cases hload

theorem Stands.name_of_inspection (h : Stands w a b k stage) {i : Inspection}
    (hi : stage.inspecting? = some i) : i.request.name = k := by
  cases h with
  | inspecting hinspected =>
    cases hi
    rw [(inspected_of_inspection? hinspected).1]
  | _ => cases hi

end Atlas

namespace Scanning

/-- The course of the errands that are on their way. -/
def rest (s : Scanning) : Course where
  atlas := s.atlas
  started := s.active.filterMap (·.stage.started?)
  working := s.active.filterMap (·.stage.working?)
  inspections := s.active.filterMap (·.stage.inspecting?)

open Atlas

variable {w : World} {a : Atlas} {names : List String} {s : Scanning}

/-- A name whose load has crashed in a scan is blocked. -/
theorem Good.blocked (h : Good w a names s) (hd : names.Nodup) {k : String} (hk : k ∈ s.dropped)
    (hfree : a.verdict w k ≠ .stuck) : s.rest.Blocked k := by
  -- the errands on their way are about other names
  have hnodup := (List.nodup_append.1 (h.everyName.nodup_iff.2 hd)).2.1
  have hothers : ∀ e ∈ s.active, e.name ≠ k := fun e he => (List.nodup_append.1 hnodup).2.2 e.name
    (List.mem_map_of_mem he) k (List.mem_append_right _ hk)
  obtain ⟨outcome, hanswers⟩ := h.answers k (List.mem_append_right _ hk)
  have hno : ¬ (a.verdict w k).IsResult := h.dropped k hk
  refine ⟨?_, fun load hload => ?_, fun i hi => ?_⟩
  · cases hanswers with
    | abandoned _ hentry hcrash => exact ⟨_, hentry, hcrash⟩
    | stuck hverdict => exact absurd hverdict hfree
    | kept hverdict => exact absurd (hverdict ▸ trivial) hno
    | parsed hverdict => exact absurd (hverdict ▸ trivial) hno
    | failed hverdict => exact absurd (hverdict ▸ trivial) hno
  · have hstage : ∃ e ∈ s.active, e.stage.started? = some load ∨ e.stage.working? = some load := by
      rcases List.mem_append.1 hload with hload | hload
      · obtain ⟨e, he, hstage⟩ := List.mem_filterMap.1 hload
        exact ⟨e, he, .inl hstage⟩
      · obtain ⟨e, he, hstage⟩ := List.mem_filterMap.1 hload
        exact ⟨e, he, .inr hstage⟩
    obtain ⟨e, he, hstage⟩ := hstage
    exact (h.active e he).2.name_of_load hstage ▸ hothers e he
  · obtain ⟨e, he, hstage⟩ := List.mem_filterMap.1 hi
    exact (h.active e he).2.name_of_inspection hstage ▸ hothers e he

end Scanning

end SymbolAtlas
