import Mathlib
import SymbolAtlas.Proofs.Atlas.Session
import SymbolAtlas.Proofs.Registry.Tidiness

/-!
# Courses of events

A course is a session in which refreshes may wait for the disk.  Its moves are all that can happen
between two points at which something else may happen: calls are made and come back from the disk,
loads begin and end, and the index is maintained, in any order.  A move speaks of loads by number
and of files by name, so that the same moves can be made in two courses and the outcomes compared.

Whatever the moves, the registry stays tidy (`Course.Reachable.sound`), and nothing that was given
up comes back (`Course.Reachable.ages`).
-/

namespace SymbolAtlas

/-- A session with the refreshes that wait for the disk. -/
structure Course extends Session where
  inspections : List Atlas.Inspection := []

/-- How a load that has begun comes to its end. -/
inductive Ending where
  /-- The source was opened and goes to the parser. -/
  | parsed (parser : Parser) (opened : OpenedSource)
  /-- The source could not be opened. -/
  | unopened (fault : OpenFault)

/-- The end of a load. -/
def Ending.settle (ending : Ending) (a : Atlas) (load : Load) : Atlas × Outcome :=
  match ending with
  | .parsed parser opened => a.settle parser load opened
  | .unopened fault => a.settleUnopened load fault

theorem Ending.registry_settle_keeps {P : Registry → Prop} {a : Atlas} {load : Load}
    (ending : Ending) (hfail : ∀ failure, P (a.registry.fail load.name load.number failure))
    (habandon : ∀ crash, P (a.registry.abandon load.number crash))
    (hsucceed : ∀ tree contentHash mtime size, P (a.registry.succeed load.name load.number
      (SourceFile.ofTree load.name tree contentHash mtime size).1).1)
    (hrelink : ∀ r n, P r → P (r.relink n).1) : P (ending.settle a load).1.registry := by
  cases ending with
  | parsed parser opened => exact Atlas.registry_settle_keeps hfail hsucceed hrelink
  | unopened fault => exact Atlas.registry_settleUnopened_keeps hfail habandon

/-- What can happen in a course at once. -/
inductive Move where
  | parse (request : Request)
  | refresh (request : Request) (disk : Disk)
  /-- The disk answers a refresh, given by its place among those that wait. -/
  | resume (place : Nat) (disk : Disk)
  /-- The load with a number begins. -/
  | begin (load : Nat) (w : World)
  /-- The load with a number ends. -/
  | finish (load : Nat) (ending : Ending)
  | remove (name : String)
  | rename (old new : String)
  | clear
  | adopt (data : Value)
  /-- The directives of the file under a name are looked up again. -/
  | relink (name : String)

namespace Course

/-- The course of a new atlas. -/
def fresh (directory : String) (settings : Settings)
    (realpath : String → String := Path.resolvedText) : Course where
  toSession := Session.fresh directory settings realpath

/-- The course after a request of a name was decided. -/
def follow (c : Course) (name : String) (d : Decision) : Course :=
  { c with toSession := c.toSession.follow name d }

/-- The load with a number among some. -/
def find (loads : List Load) (number : Nat) : Option Load :=
  loads.find? (·.number = number)

/-- The other loads. -/
def without (loads : List Load) (number : Nat) : List Load :=
  loads.filter (·.number ≠ number)

/-- Makes a move.  A move that speaks of something that is not there changes nothing. -/
def perform (c : Course) : Move → Course
  | .parse request => c.follow request.name (c.atlas.decideParse request)
  | .refresh request disk =>
    match c.atlas.inspection? request with
    | some i => { c with inspections := c.inspections ++ [i] }
    | none => c.follow request.name (c.atlas.decideRefresh disk request)
  | .resume place disk =>
    match c.inspections[place]? with
    | some i =>
      { c with inspections := c.inspections.eraseIdx place }.follow i.request.name
        (c.atlas.decideInspected disk i)
    | none => c
  | .begin number w =>
    match find c.started number with
    | some load =>
      { c with
        atlas := (c.atlas.openSource w load).1
        started := without c.started number
        working := load :: c.working }
    | none => c
  | .finish number ending =>
    match find c.working number with
    | some load =>
      { c with
        atlas := (ending.settle c.atlas load).1
        working := without c.working number }
    | none => c
  | .remove name => { c with atlas := c.atlas.remove name }
  | .rename old new => { c with atlas := c.atlas.rename old new }
  | .clear => { c with atlas := c.atlas.clear }
  | .adopt data => { c with atlas := (c.atlas.adopt data).1 }
  | .relink name =>
    match c.atlas.get? name with
    | some n => { c with atlas := (c.atlas.relink n).1 }
    | none => c

/-- Makes moves one after the other. -/
def performAll (c : Course) (moves : List Move) : Course :=
  moves.foldl perform c

/-- A course that some moves lead to. -/
inductive Reachable : Course → Prop
  | fresh (directory : String) (settings : Settings)
      (realpath : String → String := Path.resolvedText) :
      Reachable (fresh directory settings realpath)
  | perform {c : Course} (hc : Reachable c) (move : Move) : Reachable (c.perform move)

theorem Reachable.performAll {c : Course} (hc : Reachable c) (moves : List Move) :
    Reachable (c.performAll moves) := by
  induction moves generalizing c with
  | nil => exact hc
  | cons move rest ih => exact ih (hc.perform move)

/-! ## Loads by number -/

theorem mem_of_find {loads : List Load} {number : Nat} {load : Load}
    (h : find loads number = some load) : load ∈ loads ∧ load.number = number :=
  ⟨List.mem_of_find?_eq_some h, by simpa using List.find?_some h⟩

theorem find_of_mem {loads : List Load} (hd : (loads.map Load.number).Nodup) {load : Load}
    (h : load ∈ loads) : find loads load.number = some load := by
  induction loads with
  | nil => cases h
  | cons first rest ih =>
    rw [List.map_cons, List.nodup_cons] at hd
    unfold find at ih ⊢
    rw [List.find?_cons]
    rcases List.mem_cons.1 h with rfl | hmem
    · simp
    · have hne : first.number ≠ load.number := fun heq => hd.1 (heq ▸ List.mem_map_of_mem hmem)
      simp only [hne, decide_false]
      exact ih hd.2 hmem

theorem perm_without {loads : List Load} (hd : (loads.map Load.number).Nodup) {number : Nat}
    {load : Load} (h : find loads number = some load) :
    loads.Perm (load :: without loads number) := by
  induction loads with
  | nil => cases h
  | cons first rest ih =>
    rw [List.map_cons, List.nodup_cons] at hd
    unfold find at h ih
    unfold without at ih ⊢
    rw [List.find?_cons] at h
    by_cases hfirst : first.number = number
    · simp only [hfirst, decide_true, Option.some.injEq] at h
      subst h
      have hrest : ∀ l ∈ rest, l.number ≠ number := fun l hl heq =>
        hd.1 (hfirst ▸ heq ▸ List.mem_map_of_mem hl)
      have hall : rest.filter (·.number ≠ number) = rest :=
        List.filter_eq_self.2 fun l hl => by simpa using hrest l hl
      rw [List.filter_cons_of_neg (by simp [hfirst]), hall]
    · simp only [hfirst, decide_false] at h
      rw [List.filter_cons_of_pos (by simp [hfirst])]
      exact ((ih hd.2 h).cons first).trans (List.Perm.swap _ _ _)

theorem mem_without {loads : List Load} {number : Nat} {load : Load} :
    load ∈ without loads number ↔ load ∈ loads ∧ load.number ≠ number := by
  simp [without, List.mem_filter]

/-! ## Soundness -/

/-- What holds after any moves: the registry is tidy, loads have numbers of their own, and whoever
remembers a file remembers one that exists. -/
structure Sound (c : Course) : Prop where
  registry : c.atlas.registry.Tidy
  numbers : ((c.started ++ c.working).map Load.number).Nodup
  started : ∀ load ∈ c.started ++ c.working, load.number < c.atlas.registry.loads
  remembered : ∀ load ∈ c.started ++ c.working, ∀ n, load.plan.previous = some n →
    n < c.atlas.registry.files.size
  inspected : ∀ i ∈ c.inspections, i.file < c.atlas.registry.files.size

namespace Sound

variable {c c' : Course} (h : Sound c)

include h

theorem nodup_started : (c.started.map Load.number).Nodup := by
  have := h.numbers
  rw [List.map_append] at this
  exact this.of_append_left

theorem nodup_working : (c.working.map Load.number).Nodup := by
  have := h.numbers
  rw [List.map_append] at this
  exact this.of_append_right

/-- Nothing but the registry has changed, and it has grown older. -/
theorem aged {a : Atlas} (htidy : a.registry.Tidy) (hages : c.atlas.registry.Ages a.registry) :
    Sound { c with atlas := a } where
  registry := htidy
  numbers := h.numbers
  started := fun load hload => Nat.lt_of_lt_of_le (h.started load hload) hages.loads
  remembered := fun load hload n hn => Nat.lt_of_lt_of_le (h.remembered load hload n hn) hages.size
  inspected := fun i hi => Nat.lt_of_lt_of_le (h.inspected i hi) hages.size

/-- Some of what was under way or waited has gone, and the rest may stand in another order. -/
theorem fewer (hatlas : c'.atlas = c.atlas)
    (hloads : ((c'.started ++ c'.working).map Load.number).Nodup)
    (hmem : ∀ load ∈ c'.started ++ c'.working, load ∈ c.started ++ c.working)
    (hinspections : ∀ i ∈ c'.inspections, i ∈ c.inspections) : Sound c' where
  registry := hatlas ▸ h.registry
  numbers := hloads
  started := fun load hload => hatlas ▸ h.started load (hmem load hload)
  remembered := fun load hload => hatlas ▸ h.remembered load (hmem load hload)
  inspected := fun i hi => hatlas ▸ h.inspected i (hinspections i hi)

/-- A load that replaces an existing file, or none, may be started. -/
theorem start {plan : LoadPlan}
    (hprevious : ∀ n, plan.previous = some n → n < c.atlas.registry.files.size) :
    Sound { c with
      atlas := (c.atlas.start plan).1, started := (c.atlas.start plan).2 :: c.started } := by
  have hnumber : (c.atlas.start plan).2.number = c.atlas.registry.loads :=
    Registry.snd_start _ _ _
  have hplan : (c.atlas.start plan).2.plan = plan := rfl
  have haged := h.aged (a := (c.atlas.start plan).1)
    (h.registry.start plan.request.name hprevious)
    (Registry.ages_start c.atlas.registry plan.request.name plan.previous)
  have hloads : (c.atlas.start plan).1.registry.loads = c.atlas.registry.loads + 1 :=
    Registry.loads_start _ _ _
  have hfiles : (c.atlas.start plan).1.registry.files = c.atlas.registry.files :=
    Registry.files_start _ _ _
  refine { haged with numbers := ?_, started := ?_, remembered := ?_ }
  · rw [List.cons_append, List.map_cons, List.nodup_cons]
    refine ⟨fun hmem => ?_, h.numbers⟩
    obtain ⟨load, hload, heq⟩ := List.mem_map.1 hmem
    have hlt := h.started load hload
    rw [heq, hnumber] at hlt
    exact Nat.lt_irrefl _ hlt
  · intro load hload
    rcases List.mem_cons.1 hload with rfl | hload
    · rw [hnumber, hloads]
      exact Nat.lt_succ_self _
    · exact haged.started load hload
  · intro load hload n hn
    rcases List.mem_cons.1 hload with rfl | hload
    · rw [hfiles]
      exact hprevious n hn
    · exact haged.remembered load hload n hn

/-- A request is decided in favour of an existing file. -/
theorem follow {name : String} {d : Decision}
    (hd : ∀ plan, d = .load plan → ∀ n, plan.previous = some n →
      n < c.atlas.registry.files.size) : Sound (c.follow name d) := by
  cases d with
  | join load => exact h
  | crash crash => exact h
  | keep n =>
    exact h.aged (a := (c.atlas.keep name n).1) (h.registry.congr rfl rfl rfl rfl)
      ((Registry.Ages.refl _).congr rfl rfl rfl)
  | load plan => exact h.start (hd plan rfl)

/-- Parsing and refreshing plan to replace the file that is indexed. -/
theorem previous_of_allows {name : String} {d : Decision} (hd : c.atlas.Allows name d) :
    ∀ plan, d = .load plan → ∀ n, plan.previous = some n → n < c.atlas.registry.files.size := by
  rintro plan rfl n hn
  obtain ⟨-, hprecedes⟩ := hd
  rw [Registry.Precedes, hn] at hprecedes
  exact h.registry.lt_size hprecedes

end Sound

/-! ## What moves do to a registry -/

/-- The registry of an atlas stays tidy and grows older. -/
structure Develops (a b : Atlas) : Prop where
  tidy : b.registry.Tidy
  ages : a.registry.Ages b.registry

theorem ages_settle (a : Atlas) (ending : Ending) (load : Load) :
    a.registry.Ages (ending.settle a load).1.registry :=
  ending.registry_settle_keeps (a.registry.ages_fail load.name load.number)
    (fun _ => (Registry.Ages.refl a.registry).congr rfl rfl rfl)
    (fun _ _ _ _ => a.registry.ages_succeed load.name load.number _)
    fun r n hr => hr.trans (r.ages_relink n)

section Develops

variable {a : Atlas} (h : a.registry.Tidy)

include h

theorem tidy_settle (ending : Ending) (load : Load) :
    (ending.settle a load).1.registry.Tidy := by
  refine ending.registry_settle_keeps (h.fail load.name load.number) (h.abandon load.number)
    (fun tree contentHash mtime size => ?_) fun r n hr => hr.relink n
  have hbears := (SourceFile.isEntered_ofTree load.name tree contentHash mtime size).bears
  exact h.succeed hbears (fun ρ _ => SourceFile.renumber_ofTree ρ _ _ _ _ _) load.number

theorem develops_settle (ending : Ending) (load : Load) :
    Develops a (ending.settle a load).1 :=
  ⟨tidy_settle h ending load, ages_settle a ending load⟩

theorem develops_adopt (data : Value) : Develops a (a.adopt data).1 where
  tidy := by
    refine Atlas.registry_adopt_keeps h h.clear (fun snapshot files _ hfiles => ?_)
      fun r n hr => hr.relink n
    refine h.replaceAll _ fun entry hentry => ?_
    obtain ⟨fs, -, hfs⟩ := restore_of_mem_restoreAll hfiles hentry
    exact ⟨⟨_, rfl, (FileSnapshot.wellOwned_restore hfs).size_pos⟩,
      fun ρ => FileSnapshot.renumber_restore ρ hfs⟩
  ages := Atlas.registry_adopt_keeps (.refl _) a.registry.ages_clear
    (fun _ files _ _ => a.registry.ages_replaceAll _ files) fun r n hr => hr.trans (r.ages_relink n)

theorem develops_rename (old new : String) : Develops a (a.rename old new) where
  tidy := Atlas.registry_rename_keeps h fun _ hr => h.rename hr
  ages := Atlas.registry_rename_keeps (.refl _) fun _ hr => Registry.ages_rename hr

theorem develops_relink (n : Nat) : Develops a (a.relink n).1 where
  tidy := by
    rw [Atlas.registry_relink]
    exact h.relink n
  ages := by
    rw [Atlas.registry_relink]
    exact a.registry.ages_relink n

end Develops

namespace Sound

variable {c : Course}

theorem developed (h : Sound c) {a : Atlas} (hdev : Develops c.atlas a) :
    Sound { c with atlas := a } :=
  h.aged hdev.tidy hdev.ages

/-- A load that begins changes its list. -/
theorem begin (h : Sound c) {number : Nat} {load : Load} (hload : find c.started number = some load)
    (w : World) :
    Sound { c with
      atlas := (c.atlas.openSource w load).1
      started := without c.started number
      working := load :: c.working } := by
  have hopened : Sound { c with atlas := (c.atlas.openSource w load).1 } := by
    refine h.aged ?_ ?_
    · rw [Atlas.registry_openSource]
      exact h.registry.congr rfl rfl rfl rfl
    · rw [Atlas.registry_openSource]
      exact (Registry.Ages.refl _).congr rfl rfl rfl
  refine hopened.fewer rfl ?_ ?_ fun _ hi => hi
  · have hperm : (without c.started number ++ load :: c.working).Perm (c.started ++ c.working) :=
      List.perm_middle.trans ((perm_without h.nodup_started hload).symm.append_right c.working)
    exact (hperm.map Load.number).nodup_iff.2 h.numbers
  · intro l hl
    rcases List.mem_append.1 hl with hl | hl
    · exact List.mem_append_left _ (mem_without.1 hl).1
    · rcases List.mem_cons.1 hl with rfl | hl
      · exact List.mem_append_left _ (mem_of_find hload).1
      · exact List.mem_append_right _ hl

theorem finish (h : Sound c) (number : Nat) (load : Load) (ending : Ending) :
    Sound { c with
      atlas := (ending.settle c.atlas load).1, working := without c.working number } := by
  refine (h.developed (develops_settle h.registry ending load)).fewer rfl ?_ ?_ fun _ hi => hi
  · refine h.numbers.sublist (List.Sublist.map _ ?_)
    exact List.Sublist.append_left List.filter_sublist _
  · intro l hl
    rcases List.mem_append.1 hl with hl | hl
    · exact List.mem_append_left _ hl
    · exact List.mem_append_right _ (mem_without.1 hl).1

/-- A refresh that waits for the disk has found its file. -/
theorem inspect (h : Sound c) {i : Atlas.Inspection}
    (hi : c.atlas.registry.entries.get? i.request.name = some (.loaded i.file)) :
    Sound { c with inspections := c.inspections ++ [i] } := by
  refine { h with inspected := ?_ }
  intro j hj
  rcases List.mem_append.1 hj with hj | hj
  · exact h.inspected j hj
  · rw [List.mem_singleton.1 hj]
    exact h.registry.lt_size hi

/-- The disk answers a refresh, which goes on with the file that it has found. -/
theorem resume (h : Sound c) {place : Nat} {i : Atlas.Inspection}
    (hi : c.inspections[place]? = some i) (disk : Disk) :
    Sound ({ c with inspections := c.inspections.eraseIdx place }.follow i.request.name
      (c.atlas.decideInspected disk i)) := by
  have hfewer : Sound { c with inspections := c.inspections.eraseIdx place } :=
    h.fewer rfl h.numbers (fun _ hload => hload) fun j hj => List.mem_of_mem_eraseIdx hj
  refine hfewer.follow fun plan hplan n hn => ?_
  rw [(c.atlas.plan_of_decideInspected hplan).2] at hn
  cases hn
  exact h.inspected i (List.mem_of_getElem? hi)

/-- Every move keeps a course sound. -/
theorem perform (h : Sound c) (move : Move) : Sound (c.perform move) := by
  cases move with
  | parse request => exact h.follow (h.previous_of_allows (c.atlas.allows_decideParse request))
  | refresh request disk =>
    rw [Course.perform]
    split
    · rename_i i hi
      exact h.inspect (Atlas.inspected_of_inspection? hi).2
    · exact h.follow (h.previous_of_allows (c.atlas.allows_decideRefresh disk request))
  | resume place disk =>
    rw [Course.perform]
    split
    · rename_i i hi
      exact h.resume hi disk
    · exact h
  | begin number w =>
    rw [Course.perform]
    split
    · rename_i load hload
      exact h.begin hload w
    · exact h
  | finish number ending =>
    rw [Course.perform]
    split
    · exact h.finish number _ ending
    · exact h
  | remove name => exact h.aged (h.registry.remove name) (c.atlas.registry.ages_remove name)
  | rename old new => exact h.developed (develops_rename h.registry old new)
  | clear => exact h.aged h.registry.clear c.atlas.registry.ages_clear
  | adopt data => exact h.developed (develops_adopt h.registry data)
  | relink name =>
    rw [Course.perform]
    split
    · exact h.developed (develops_relink h.registry _)
    · exact h

end Sound

theorem Reachable.sound {c : Course} (hc : Reachable c) : Sound c := by
  induction hc with
  | fresh directory settings realpath =>
    refine ⟨Registry.tidy_empty _, List.nodup_nil, ?_, ?_, ?_⟩
    · intro load hload
      cases hload
    · intro load hload
      cases hload
    · intro i hi
      cases hi
  | perform _ move ih => exact ih.perform move

/-- What each of the changes of a registry keeps is kept by every move. -/
theorem registry_perform_keeps {P : Registry → Prop} {c : Course} {move : Move}
    (h : P c.atlas.registry)
    (hstart : ∀ name previous, P (c.atlas.registry.start name previous).1)
    (hbegin : P c.atlas.registry.begin)
    (hsettle : ∀ (ending : Ending) load, P (ending.settle c.atlas load).1.registry)
    (hremove : ∀ name, P (c.atlas.registry.remove name))
    (hrename : ∀ old new, P (c.atlas.rename old new).registry)
    (hclear : P c.atlas.registry.clear)
    (hadopt : ∀ data, move = .adopt data → P (c.atlas.adopt data).1.registry)
    (hrelink : ∀ n, P (c.atlas.relink n).1.registry) : P (c.perform move).atlas.registry := by
  have hfollow : ∀ inspections name (d : Decision),
      P ({ c with inspections := inspections }.follow name d).atlas.registry := by
    intro inspections name d
    cases d with
    | load plan => exact hstart plan.request.name plan.previous
    | _ => exact h
  cases move with
  | parse request => exact hfollow c.inspections _ _
  | refresh request disk =>
    rw [perform]
    split
    · exact h
    · exact hfollow c.inspections _ _
  | resume place disk =>
    rw [perform]
    split
    · exact hfollow _ _ _
    · exact h
  | begin number w =>
    rw [perform]
    split
    · exact (c.atlas.registry_openSource w _).symm ▸ hbegin
    · exact h
  | finish number ending =>
    rw [perform]
    split
    · exact hsettle ending _
    · exact h
  | remove name => exact hremove name
  | rename old new => exact hrename old new
  | clear => exact hclear
  | adopt data => exact hadopt data rfl
  | relink name =>
    rw [perform]
    split
    · exact hrelink _
    · exact h

/-- Whatever happens to a course only makes its registry older. -/
theorem Reachable.ages {c : Course} (hc : Reachable c) (move : Move) :
    c.atlas.registry.Ages (c.perform move).atlas.registry := by
  have h := hc.sound.registry
  exact registry_perform_keeps (.refl _) c.atlas.registry.ages_start
    ((Registry.Ages.refl _).congr rfl rfl rfl) (ages_settle c.atlas) c.atlas.registry.ages_remove
    (fun old new => (develops_rename h old new).ages) c.atlas.registry.ages_clear
    (fun data _ => (develops_adopt h data).ages) fun n => (develops_relink h n).ages

theorem Reachable.ages_performAll {c : Course} (hc : Reachable c) (moves : List Move) :
    c.atlas.registry.Ages (c.performAll moves).atlas.registry := by
  induction moves generalizing c with
  | nil => exact .refl _
  | cons move rest ih => exact (hc.ages move).trans (ih (hc.perform move))

end Course

end SymbolAtlas
