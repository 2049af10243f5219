import Mathlib
import SymbolAtlas.Proofs.Atlas.Course
import SymbolAtlas.Proofs.Atlas.Relinking
import SymbolAtlas.Proofs.Registry.Renumbering

/-!
# Loads that were given up

A load whose entry was taken out goes on and ends some time later, when its name may have been asked
for again or given to another file.  Its end leaves no trace.  At once nothing changes but the count
of working loads (`Registry.Renumbers.ended`); and from then on the course keeps step with the one
in which the load never ends (`Course.Keeps.performAll`), except that a file of the load, an empty
shell, has taken a number.
-/

namespace SymbolAtlas

/-! ## Atlases that differ in file numbers -/

/-- The plan with the file that it is to replace under its new number. -/
def LoadPlan.renumber (ρ : Nat → Nat) (plan : LoadPlan) : LoadPlan :=
  { plan with previous := plan.previous.map ρ }

def Load.renumber (ρ : Nat → Nat) (load : Load) : Load :=
  { load with plan := load.plan.renumber ρ }

def Atlas.Inspection.renumber (ρ : Nat → Nat) (i : Atlas.Inspection) : Atlas.Inspection :=
  { i with file := ρ i.file }

def Decision.renumber (ρ : Nat → Nat) : Decision → Decision
  | .join number => .join number
  | .keep n => .keep (ρ n)
  | .load plan => .load (plan.renumber ρ)
  | .crash fault => .crash fault

namespace Atlas

/-- The atlases have the same settings, and their registries differ in file numbers. -/
structure Renumbers (ρ : Nat → Nat) (a a' : Atlas) : Prop where
  settings : a'.settings = a.settings
  registry : a.registry.Renumbers ρ a'.registry

namespace Renumbers

variable {ρ : Nat → Nat} {a a' : Atlas} (h : Renumbers ρ a a')

include h

theorem pathOf (name : String) : a'.pathOf name = a.pathOf name := by
  rw [Atlas.pathOf, h.registry.site, Atlas.pathOf]

theorem file? (n : Nat) : a'.file? (ρ n) = (a.file? n).map (SourceFile.renumber ρ) :=
  h.registry.files n

theorem decideParse (request : Request) :
    a'.decideParse request = (a.decideParse request).renumber ρ := by
  unfold Atlas.decideParse
  rw [h.registry.entry]
  cases a.registry.entries.get? request.name with
  | none => rfl
  | some entry => cases entry <;> rfl

theorem inspection? (request : Request) :
    a'.inspection? request = (a.inspection? request).map (Inspection.renumber ρ) := by
  unfold Atlas.inspection?
  rw [h.registry.entry, h.settings]
  cases a.registry.entries.get? request.name with
  | none => rfl
  | some entry =>
    cases entry with
    | loading l => rfl
    | loaded n =>
      simp only [Option.map_some, Entry.renumber]
      split <;> rfl

/-- What is known of the content of a file does not depend on numbers. -/
theorem decideInspected (disk : Disk) (i : Inspection) :
    a'.decideInspected disk (i.renumber ρ) = (a.decideInspected disk i).renumber ρ := by
  have hhash : (a'.file? (ρ i.file)).bind SourceFile.contentHash =
      (a.file? i.file).bind SourceFile.contentHash := by
    rw [h.file?, Option.bind_map]
    rfl
  have hstat : ∀ stat, (a'.file? (ρ i.file)).any (agrees · stat) =
      (a.file? i.file).any (agrees · stat) := by
    intro stat
    rw [h.file?, Option.any_map]
    rfl
  unfold Atlas.decideInspected
  rw [h.settings]
  split
  · simp only [decideByContent, Inspection.renumber, h.pathOf, hhash]
    split
    · rfl
    · split
      · rfl
      · split <;> rfl
  · simp only [decideByStat, Inspection.renumber, h.pathOf, hstat]
    split
    · split <;> rfl
    · split
      · rfl
      · split
        · rfl
        · split <;> rfl

theorem decideRefresh (disk : Disk) (request : Request) :
    a'.decideRefresh disk request = (a.decideRefresh disk request).renumber ρ := by
  have hparse := h.decideParse request
  unfold Atlas.decideRefresh
  rw [h.registry.entry, hparse]
  cases a.registry.entries.get? request.name with
  | none => rfl
  | some entry =>
    cases entry with
    | loading l => rfl
    | loaded n => exact h.decideInspected disk ⟨request, n⟩

/-! ### Steps -/

theorem start (plan : LoadPlan) :
    Renumbers ρ (a.start plan).1 (a'.start (plan.renumber ρ)).1 where
  settings := h.settings
  registry := h.registry.start plan.request.name plan.previous

theorem snd_start (plan : LoadPlan) :
    (a'.start (plan.renumber ρ)).2 = (a.start plan).2.renumber ρ := by
  have hnumber : (a'.start (plan.renumber ρ)).2.number = (a.start plan).2.number := by
    show (a'.registry.start _ _).2 = (a.registry.start _ _).2
    rw [Registry.snd_start, Registry.snd_start, h.registry.loads]
  show Load.mk (a'.start (plan.renumber ρ)).2.number (plan.renumber ρ) = _
  rw [hnumber]
  rfl

theorem openSource (w : World) (load : Load) :
    Renumbers ρ (a.openSource w load).1 (a'.openSource w (load.renumber ρ)).1 where
  settings := by
    have hsettings : ∀ (b : Atlas) (l : Load), (b.openSource w l).1.settings = b.settings := by
      intro b l
      unfold Atlas.openSource
      simp only
      split <;> rfl
    rw [hsettings, hsettings, h.settings]
  registry := by
    rw [registry_openSource, registry_openSource]
    exact h.registry.begin

theorem relink (n : Nat) : Renumbers ρ (a.relink n).1 (a'.relink (ρ n)).1 where
  settings := by
    rw [settings_relink, settings_relink, h.settings]
  registry := by
    rw [registry_relink, registry_relink]
    exact h.registry.relink n

theorem relinkEach (ns : List Nat) (missed : Nat) :
    Renumbers ρ (a.relinkEach ns missed).1 (a'.relinkEach (ns.map ρ) missed).1 ∧
      (a'.relinkEach (ns.map ρ) missed).2 = (a.relinkEach ns missed).2 := by
  induction ns generalizing a a' missed with
  | nil => exact ⟨h, rfl⟩
  | cons n rest ih =>
    have hfirst := h.relink n
    have hsame : (a'.relink (ρ n)).2 = (a.relink n).2 := by
      rw [snd_relink, snd_relink, h.registry.snd_relink]
    rw [List.map_cons, Atlas.relinkEach, Atlas.relinkEach]
    cases hb : a.relink n with
    | mk b result =>
      cases hb' : a'.relink (ρ n) with
      | mk b' result' =>
        rw [hb, hb'] at hfirst hsame
        subst hsame
        cases result' with
        | error e => exact ⟨hfirst, rfl⟩
        | ok more => exact ih hfirst _

theorem succeed (load : Load) {f : SourceFile} (hf : f.renumber ρ = f) :
    Renumbers ρ (a.succeed load f).1 (a'.succeed (load.renumber ρ) f).1 := by
  have hdone := h.registry.succeed load.name load.number hf
  have hnumber := h.registry.snd_succeed load.name load.number f
  have hawaits := h.registry.awaits load.name load.number
  have hname : (load.renumber ρ).name = load.name := rfl
  have hload : (load.renumber ρ).number = load.number := rfl
  unfold Atlas.succeed
  simp only [hname, hload, hawaits, hnumber]
  split
  · have hentered : Renumbers ρ
        { a with registry := (a.registry.succeed load.name load.number f).1 }
        { a' with registry := (a'.registry.succeed load.name load.number f).1 } :=
      ⟨h.settings, hdone⟩
    have hlinked := hentered.relink (a.registry.succeed load.name load.number f).2
    exact ⟨hlinked.settings, hlinked.registry⟩
  · exact ⟨h.settings, hdone⟩

theorem fail (load : Load) (failure : Failure) :
    Renumbers ρ (a.fail load failure).1 (a'.fail (load.renumber ρ) failure).1 :=
  ⟨h.settings, h.registry.fail load.name load.number failure⟩

theorem settle (ending : Ending) (load : Load) :
    Renumbers ρ (ending.settle a load).1 (ending.settle a' (load.renumber ρ)).1 := by
  cases ending with
  | unopened fault =>
    cases fault with
    | failed failure => exact h.fail load failure
    | crashed crash => exact ⟨h.settings, h.registry.abandon load.number crash⟩
  | parsed parser opened =>
    unfold Ending.settle Atlas.settle
    simp only
    have hname : (load.renumber ρ).name = load.name := rfl
    rw [hname]
    split
    · exact h.fail load _
    · rename_i tree _
      have hnoted : Renumbers ρ
          (a.noteAll ((SourceFile.ofTree load.name tree (some (Sha256.hex opened.content))
            (some opened.mtime) (some opened.content.length)).2.map Note.nodeSkipped))
          (a'.noteAll ((SourceFile.ofTree load.name tree (some (Sha256.hex opened.content))
            (some opened.mtime) (some opened.content.length)).2.map Note.nodeSkipped)) :=
        ⟨h.settings, h.registry⟩
      exact hnoted.succeed load (SourceFile.renumber_ofTree ρ _ _ _ _ _)

/-! ### Maintenance -/

theorem rename (old new : String) : Renumbers ρ (a.rename old new) (a'.rename old new) := by
  unfold Atlas.rename
  rcases h.registry.rename old new with ⟨s, s', hs, hs', hsame⟩ | ⟨obstacle, hs, hs'⟩
  · rw [hs, hs']
    exact ⟨h.settings, hsame⟩
  · rw [hs, hs']
    exact ⟨h.settings, h.registry⟩

theorem adopt (data : Value) : Renumbers ρ (a.adopt data).1 (a'.adopt data).1 := by
  unfold Atlas.adopt
  split
  · split
    · exact h
    · rename_i snapshot _
      unfold Atlas.takeOver
      split
      · exact h
      · rename_i files hfiles
        have hfresh : ∀ entry ∈ files, entry.2.renumber ρ = entry.2 := by
          intro entry hentry
          obtain ⟨fs, -, hfs⟩ := restore_of_mem_restoreAll hfiles hentry
          exact FileSnapshot.renumber_restore ρ hfs
        have hreplaced : Renumbers ρ
            (a.onRegistry (·.replaceAll (Path.parse snapshot.directory) files))
            (a'.onRegistry (·.replaceAll (Path.parse snapshot.directory) files)) :=
          ⟨h.settings, h.registry.replaceAll _ hfresh⟩
        obtain ⟨hlinked, hsame⟩ := hreplaced.relinkEach
          (a.onRegistry (·.replaceAll (Path.parse snapshot.directory) files)).registry.loaded 0
        rw [← hreplaced.registry.loaded] at hlinked hsame
        simp only
        revert hlinked hsame
        generalize Atlas.relinkEach (a.onRegistry _) _ _ = done
        generalize Atlas.relinkEach (a'.onRegistry _) _ _ = done'
        obtain ⟨b, result⟩ := done
        obtain ⟨b', result'⟩ := done'
        rintro hlinked rfl
        cases result' with
        | error fault => exact hlinked
        | ok missed => exact ⟨hlinked.settings, hlinked.registry⟩
  · exact ⟨h.settings, h.registry.clear⟩

end Renumbers

end Atlas

/-! ## The end of a load that nobody awaits -/

/-- The numbers below a bound stay, and the others move up by one. -/
def skip (bound n : Nat) : Nat :=
  if n < bound then n else n + 1

theorem skip_of_lt {bound n : Nat} (h : n < bound) : skip bound n = n :=
  if_pos h

theorem skip_injective (bound : Nat) : (skip bound).Injective := by
  intro m n hmn
  unfold skip at hmn
  split at hmn <;> split at hmn <;> omega

theorem skip_ne (bound n : Nat) : skip bound n ≠ bound := by
  unfold skip
  split <;> omega

namespace Registry

variable {r r' : Registry} (h : Tidy r)

include h

/-- A registry is its own renumbering as long as the numbers that it knows stay. -/
theorem Tidy.renumbers {ρ : Nat → Nat} (hinjective : ρ.Injective)
    (hρ : ∀ n, n < r.files.size → ρ n = n)
    (hfresh : ∀ i, ρ (r.files.size + i) = r'.files.size + i)
    (hfiles : ∀ n, r'.files[ρ n]? = r.files[n]?) (hsite : r'.toSite = r.toSite)
    (hentries : r'.entries = r.entries) (hreplaced : r'.replaced = r.replaced)
    (hfailures : r'.failures = r.failures)
    (htally : r'.tally = { r.tally with loading := r.tally.loading - 1 })
    (hloads : r'.loads = r.loads)
    (hshells : ∀ {m f}, (∀ n, ρ n ≠ m) → r'.files[m]? = some f → f.detached = true) :
    Renumbers ρ r r' where
  injective := hinjective
  fresh := hfresh
  site := hsite
  files := by
    intro n
    rw [hfiles]
    cases hn : r.files[n]? with
    | none => rfl
    | some f => exact congrArg some (h.links hn ρ hρ).symm
  entries := by
    have hsame : ∀ entry ∈ r.entries, (entry.1, entry.2.renumber ρ) = entry := by
      rintro ⟨k, entry⟩ hmem
      cases entry with
      | loading l => rfl
      | loaded n =>
        have hlt := h.lt_size (Ledger.get?_of_mem h.distinct hmem)
        simp only [Entry.renumber, hρ n hlt]
    rw [hentries, Ledger.mapValues, List.map_congr_left hsame, List.map_id']
  replaced := by
    have hsame : ∀ entry ∈ r.replaced, (entry.1, ρ entry.2) = entry := by
      intro entry hmem
      rw [hρ entry.2 (h.waiting_lt entry hmem)]
    rw [hreplaced, Ledger.mapValues, List.map_congr_left hsame, List.map_id']
  failures := hfailures
  tally := htally
  loads := hloads
  shells := hshells

/-- One load less is at work, and nothing else has changed. -/
theorem Tidy.renumbers_endWork (crashes : List (Nat × Crash)) :
    Renumbers id r { r.endWork with crashes := crashes } :=
  h.renumbers Function.injective_id (fun _ _ => rfl) (fun _ => rfl) (fun _ => rfl) rfl rfl rfl rfl
    rfl rfl fun hm _ => absurd rfl (hm _)

/-- An empty shell has taken a number besides. -/
theorem Tidy.renumbers_addFile {f : SourceFile} (hf : f.detached = true) :
    Renumbers (skip r.files.size) r (r.endWork.addFile f).1 := by
  have hpush : ∀ m, (r.endWork.addFile f).1.files[m]? =
      if m = r.files.size then some f else r.files[m]? := fun m => Array.getElem?_push
  refine h.renumbers (skip_injective _) (fun n => skip_of_lt) ?_ ?_ rfl rfl rfl rfl rfl rfl ?_
  · intro i
    have hsize : (r.endWork.addFile f).1.files.size = r.files.size + 1 := Array.size_push f
    rw [hsize, skip, if_neg (by omega)]
    omega
  · intro n
    rw [hpush, if_neg (skip_ne _ n)]
    unfold skip
    split
    · rfl
    · rw [Array.getElem?_eq_none (by omega), Array.getElem?_eq_none (by omega)]
  · intro m g hm hg
    rw [hpush] at hg
    split at hg
    · cases hg
      exact hf
    · -- every other number is one that was known before
      have hlt : m < r.files.size := (Array.getElem?_eq_some_iff.1 hg).1
      exact absurd (skip_of_lt hlt) (hm m)

end Registry

/-- Nothing has changed but the count of working loads; files may have been added. -/
structure Registry.Undisturbed (r r' : Registry) : Prop where
  entries : r'.entries = r.entries
  replaced : r'.replaced = r.replaced
  failures : r'.failures = r.failures
  tally : r'.tally = { r.tally with loading := r.tally.loading - 1 }
  files : ∀ n, n < r.files.size → r'.files[n]? = r.files[n]?

namespace Atlas

variable {a : Atlas} {load : Load} (h : a.registry.Tidy)
  (hgone : a.registry.awaits load.name load.number = false)

include h hgone

/-- The end of a load that nobody awaits changes nothing but numbers that are still to come, and a
file of the load is none of those that are known. -/
theorem settle_of_superseded (ending : Ending) :
    ∃ ρ : Nat → Nat, (∀ n, n < a.registry.files.size → ρ n = n) ∧
      a.registry.Undisturbed (ending.settle a load).1.registry ∧
      a.Renumbers ρ (ending.settle a load).1 ∧
      ∀ n, (ending.settle a load).2 = .file n →
        (∀ m, ρ m ≠ n) ∧ n < (ending.settle a load).1.registry.files.size := by
  have hfail : ∀ failure, a.registry.Undisturbed (a.fail load failure).1.registry ∧
      a.Renumbers id (a.fail load failure).1 := by
    intro failure
    have hregistry : (a.fail load failure).1.registry = a.registry.endWork :=
      Registry.fail_of_superseded failure hgone
    refine ⟨?_, rfl, ?_⟩
    · rw [hregistry]
      exact ⟨rfl, rfl, rfl, rfl, fun _ _ => rfl⟩
    · rw [hregistry]
      exact h.renumbers_endWork a.registry.crashes
  have hno : ∀ failure n, (a.fail load failure).2 ≠ .file n := by
    intro failure n hn
    cases hn
  cases ending with
  | unopened fault =>
    cases fault with
    | failed failure =>
      obtain ⟨hquiet, hsame⟩ := hfail failure
      exact ⟨id, fun _ _ => rfl, hquiet, hsame, fun n hn => absurd hn (hno failure n)⟩
    | crashed crash =>
      refine ⟨id, fun _ _ => rfl, ⟨rfl, rfl, rfl, rfl, fun _ _ => rfl⟩,
        ⟨rfl, h.renumbers_endWork _⟩, fun n hn => ?_⟩
      cases hn
  | parsed parser opened =>
    unfold Ending.settle Atlas.settle
    simp only
    split
    · rename_i reason _
      obtain ⟨hquiet, hsame⟩ := hfail (.parseFailed load.name reason)
      exact ⟨id, fun _ _ => rfl, hquiet, hsame, fun n hn => absurd hn (hno _ n)⟩
    · rename_i tree _
      generalize SourceFile.ofTree load.name tree _ _ _ = made
      obtain ⟨f, refusals⟩ := made
      -- the notes on refused nodes leave the registry alone
      generalize hb : a.noteAll (refusals.map Note.nodeSkipped) = b
      have hregistry : b.registry = a.registry := hb ▸ rfl
      have hsettings : b.settings = a.settings := hb ▸ rfl
      have hsucceed : b.succeed load f =
          ({ b with registry := (a.registry.endWork.addFile f.detach).1 },
            .file a.registry.files.size) := by
        unfold Atlas.succeed
        simp only [hregistry, hgone, Registry.succeed_of_superseded f hgone, Bool.false_eq_true,
          ↓reduceIte]
        rfl
      rw [hsucceed]
      refine ⟨skip a.registry.files.size, fun n => skip_of_lt, ⟨rfl, rfl, rfl, rfl, ?_⟩,
        ⟨hsettings, h.renumbers_addFile rfl⟩, ?_⟩
      · exact fun n hn => (Array.getElem?_push_lt hn).trans (Array.getElem?_eq_getElem hn).symm
      rintro n ⟨⟩
      refine ⟨skip_ne _, ?_⟩
      show a.registry.files.size < (a.registry.files.push f.detach).size
      rw [Array.size_push]
      exact Nat.lt_succ_self _

end Atlas

/-! ## Courses in step -/

/-- The move is the end of the load with a number. -/
def Move.Finishes (number : Nat) : Move → Prop
  | .finish other _ => other = number
  | _ => False

namespace Course

/-- The second course is the first one up to file numbers, except that a load that still works in
the first one has ended in the second. -/
structure InStep (ρ : Nat → Nat) (number : Nat) (c c' : Course) : Prop where
  atlas : c.atlas.Renumbers ρ c'.atlas
  started : c'.started = c.started.map (Load.renumber ρ)
  working : c'.working = (without c.working number).map (Load.renumber ρ)
  inspections : c'.inspections = c.inspections.map (Atlas.Inspection.renumber ρ)

section Numbers

variable (ρ : Nat → Nat) (loads : List Load) (number : Nat)

theorem find_map_renumber :
    find (loads.map (Load.renumber ρ)) number = (find loads number).map (Load.renumber ρ) := by
  rw [find, List.find?_map]
  rfl

theorem without_map_renumber :
    without (loads.map (Load.renumber ρ)) number =
      (without loads number).map (Load.renumber ρ) := by
  rw [without, List.filter_map]
  rfl

theorem find_without {other : Nat} (h : other ≠ number) :
    find (without loads number) other = find loads other := by
  rw [find, without, List.find?_filter, find]
  congr 1
  funext load
  by_cases hload : load.number = other
  · simp [hload, h]
  · simp [hload]

theorem without_comm (other : Nat) :
    without (without loads number) other = without (without loads other) number := by
  rw [without, without, List.filter_comm]
  rfl

end Numbers

namespace InStep

variable {ρ : Nat → Nat} {number : Nat} {c c' : Course} (h : InStep ρ number c c')

include h

theorem follow (name : String) (d : Decision) :
    InStep ρ number (c.follow name d) (c'.follow name (d.renumber ρ)) := by
  cases d with
  | join load => exact h
  | crash crash => exact h
  | keep n => exact ⟨⟨h.atlas.settings, h.atlas.registry⟩, h.started, h.working, h.inspections⟩
  | load plan =>
    refine ⟨h.atlas.start plan, ?_, h.working, h.inspections⟩
    show (c'.atlas.start (plan.renumber ρ)).2 :: c'.started =
      ((c.atlas.start plan).2 :: c.started).map (Load.renumber ρ)
    rw [h.atlas.snd_start, h.started, List.map_cons]

theorem withAtlas {a a' : Atlas} (ha : a.Renumbers ρ a') :
    InStep ρ number { c with atlas := a } { c' with atlas := a' } :=
  ⟨ha, h.started, h.working, h.inspections⟩

/-- Courses that are in step stay so with every move but the end of the load. -/
theorem perform (hstarted : ∀ load ∈ c.started, load.number ≠ number) {move : Move}
    (hmove : ¬ move.Finishes number) : InStep ρ number (c.perform move) (c'.perform move) := by
  cases move with
  | parse request =>
    simp only [Course.perform]
    rw [h.atlas.decideParse]
    exact h.follow request.name _
  | refresh request disk =>
    simp only [Course.perform]
    rw [h.atlas.inspection?, h.atlas.decideRefresh]
    cases c.atlas.inspection? request with
    | none => exact h.follow request.name _
    | some i =>
      refine { h with inspections := ?_ }
      simp only [Option.map_some, h.inspections, List.map_append, List.map_cons, List.map_nil]
  | resume place disk =>
    simp only [Course.perform]
    rw [h.inspections, List.getElem?_map]
    cases c.inspections[place]? with
    | none => exact h
    | some i =>
      simp only [Option.map_some]
      rw [h.atlas.decideInspected]
      have hfewer : InStep ρ number { c with inspections := c.inspections.eraseIdx place }
          { c' with inspections :=
            (c.inspections.map (Atlas.Inspection.renumber ρ)).eraseIdx place } :=
        ⟨h.atlas, h.started, h.working, List.eraseIdx_map ..⟩
      exact hfewer.follow i.request.name _
  | begin other w =>
    simp only [Course.perform]
    rw [h.started, find_map_renumber]
    cases hload : find c.started other with
    | none => exact h
    | some load =>
      obtain ⟨hmem, hnumber⟩ := mem_of_find hload
      refine ⟨h.atlas.openSource w load, ?_, ?_, h.inspections⟩
      · exact without_map_renumber ρ c.started other
      · have hkept : without (load :: c.working) number = load :: without c.working number := by
          rw [without, List.filter_cons_of_pos]
          · rfl
          · simpa using hstarted load hmem
        show load.renumber ρ :: c'.working = (without (load :: c.working) number).map _
        rw [hkept, h.working, List.map_cons]
  | finish other ending =>
    have hother : other ≠ number := hmove
    simp only [Course.perform]
    rw [h.working, find_map_renumber, find_without _ _ hother]
    cases find c.working other with
    | none => exact h
    | some load =>
      refine ⟨h.atlas.settle ending load, h.started, ?_, h.inspections⟩
      show without ((without c.working number).map _) other = _
      rw [without_map_renumber, without_comm]
  | remove name => exact h.withAtlas ⟨h.atlas.settings, h.atlas.registry.remove name⟩
  | rename old new => exact h.withAtlas (h.atlas.rename old new)
  | clear => exact h.withAtlas ⟨h.atlas.settings, h.atlas.registry.clear⟩
  | adopt data => exact h.withAtlas (h.atlas.adopt data)
  | relink name =>
    simp only [Course.perform, Atlas.get?]
    rw [h.atlas.registry.get?]
    cases c.atlas.registry.get? name with
    | none => exact h
    | some n => exact h.withAtlas (h.atlas.relink n)

end InStep

/-- A load goes on working until it ends. -/
theorem mem_working_perform {c : Course} {load : Load} (h : load ∈ c.working) {move : Move}
    (hmove : ¬ move.Finishes load.number) : load ∈ (c.perform move).working := by
  have hfollow : ∀ (x : Course) (name : String) (d : Decision),
      (x.follow name d).working = x.working := by
    intro x name d
    cases d <;> rfl
  cases move with
  | parse request => exact (hfollow c _ _).symm ▸ h
  | refresh request disk =>
    rw [Course.perform]
    split
    · exact h
    · exact (hfollow c _ _).symm ▸ h
  | resume place disk =>
    rw [Course.perform]
    split
    · rw [hfollow]
      exact h
    · exact h
  | begin number w =>
    rw [Course.perform]
    split
    · exact List.mem_cons_of_mem _ h
    · exact h
  | finish number ending =>
    rw [Course.perform]
    split
    · exact mem_without.2 ⟨h, Ne.symm hmove⟩
    · exact h
  | relink name =>
    rw [Course.perform]
    split
    · exact h
    · exact h
  | _ => exact h

/-- Courses stay in step as long as the load does not end in the first one either. -/
theorem InStep.performAll {ρ : Nat → Nat} {load : Load} {c c' : Course} (hc : Reachable c)
    (h : InStep ρ load.number c c') (hworking : load ∈ c.working) {moves : List Move}
    (hmoves : ∀ move ∈ moves, ¬ move.Finishes load.number) :
    InStep ρ load.number (c.performAll moves) (c'.performAll moves) := by
  induction moves generalizing c c' with
  | nil => exact h
  | cons move rest ih =>
    obtain ⟨hmove, hrest⟩ := List.forall_mem_cons.1 hmoves
    -- the load works, so it is not among those that have yet to begin
    have hstarted : ∀ other ∈ c.started, other.number ≠ load.number := by
      intro other hother heq
      have hnumbers := hc.sound.numbers
      rw [List.map_append, List.nodup_append] at hnumbers
      exact hnumbers.2.2 _ (List.mem_map_of_mem hother) _ (List.mem_map_of_mem hworking) heq
    exact ih (hc.perform move) (h.perform hstarted hmove) (mem_working_perform hworking hmove) hrest

/-- Courses are in step right after a load has ended that nobody awaited. -/
theorem inStep_finish {c : Course} (hc : Sound c) {load : Load} (hworking : load ∈ c.working)
    {ending : Ending} {ρ : Nat → Nat} (hρ : ∀ n, n < c.atlas.registry.files.size → ρ n = n)
    (h : c.atlas.Renumbers ρ (ending.settle c.atlas load).1) :
    InStep ρ load.number c (c.perform (.finish load.number ending)) := by
  have hsame : ∀ loads : List Load, (∀ l ∈ loads, l ∈ c.started ++ c.working) →
      loads.map (Load.renumber ρ) = loads := by
    intro loads hloads
    have heach : ∀ l ∈ loads, l.renumber ρ = l := by
      intro l hl
      obtain ⟨number, request, content, previous⟩ := l
      cases previous with
      | none => rfl
      | some n =>
        have hlt := hc.remembered _ (hloads _ hl) n rfl
        simp only [Load.renumber, LoadPlan.renumber, Option.map_some, hρ n hlt]
    rw [List.map_congr_left heach, List.map_id']
  have hinspections : c.inspections.map (Atlas.Inspection.renumber ρ) = c.inspections := by
    have heach : ∀ i ∈ c.inspections, i.renumber ρ = i := by
      intro i hi
      simp only [Atlas.Inspection.renumber, hρ i.file (hc.inspected i hi)]
    rw [List.map_congr_left heach, List.map_id']
  simp only [Course.perform, find_of_mem hc.nodup_working hworking]
  refine ⟨h, ?_, ?_, hinspections.symm⟩
  · exact (hsame c.started fun l hl => List.mem_append_left _ hl).symm
  · exact (hsame _ fun l hl => List.mem_append_right _ (mem_without.1 hl).1).symm

end Course

/-! ## Taking a load out -/

/-- The move takes out what is known of a name. -/
def Move.TakesOut (move : Move) (c : Course) (name : String) : Prop :=
  match move with
  | .remove other => other = name
  | .clear => True
  | .adopt data => (c.atlas.adopt data).2 = .ok ()
  | _ => False

namespace Course

theorem entry_adopt {a : Atlas} {data : Value} (h : (a.adopt data).2 = .ok ()) (name : String)
    (number : Nat) : (a.adopt data).1.registry.entries.get? name ≠ some (.loading number) := by
  rcases Atlas.registry_adopt_of_ok h with hclear | ⟨snapshot, files, b, missed, -, -, hb, hr⟩
  · rw [hclear]
    nofun
  · have hlinked := Atlas.registry_relinkEach_keeps
      (P := fun r => r.entries.get? name ≠ some (.loading number))
      (fun r n hr => by rwa [Registry.entries_relink])
      (a.registry.replaceAll (Path.parse snapshot.directory) files).loaded
      (a := a.onRegistry (·.replaceAll (Path.parse snapshot.directory) files)) 0
      (Registry.not_loading_replaceAll _ _ _ name number)
    rw [hb] at hlinked
    rwa [hr]

/-- After a name was taken out, none of the loads so far is awaited under it. -/
theorem entry_of_takesOut {c : Course} {name : String} {move : Move} (h : move.TakesOut c name)
    (number : Nat) :
    (c.perform move).atlas.registry.entries.get? name ≠ some (.loading number) := by
  cases move with
  | remove other =>
    have hother : other = name := h
    subst hother
    show (c.atlas.registry.remove other).entries.get? other ≠ _
    rw [Registry.entries_remove, Ledger.get?_erase_self]
    nofun
  | clear => nofun
  | adopt data => exact entry_adopt h name number
  | _ => exact absurd h id

/-- A load that was taken out while it was under way cannot influence the index, whatever comes of
it and whenever it ends. -/
theorem superseded_load {c : Course} (hc : c.Reachable) {load : Load}
    (hawaited : c.atlas.registry.entries.get? load.name = some (.loading load.number))
    {takeOut : Move} (htakeOut : takeOut.TakesOut c load.name) (before after : List Move)
    (hworking : load ∈ (c.performAll (takeOut :: before)).working)
    (hafter : ∀ move ∈ after, ¬ move.Finishes load.number) (ending : Ending) :
    let running := c.performAll (takeOut :: before)
    let ended := running.perform (.finish load.number ending)
    running.atlas.registry.Undisturbed ended.atlas.registry ∧
    (∃ ρ : Nat → Nat, (∀ n, n < running.atlas.registry.files.size → ρ n = n) ∧
      (running.performAll after).atlas.registry.Renumbers ρ
        (ended.performAll after).atlas.registry) ∧
    ∀ n, (ending.settle running.atlas load).2 = .file n →
      ∃ f, (ended.performAll after).atlas.file? n = some f ∧ f.detached = true := by
  intro running ended
  have hopen : running.Reachable := hc.performAll _
  have hstarted := hc.sound.registry.started hawaited
  -- the load was given up by the first move, and nobody has awaited it since
  have hgone : running.atlas.registry.awaits load.name load.number = false := by
    have hnumber := Nat.lt_of_lt_of_le hstarted (hc.ages takeOut).loads
    have hages := (hc.perform takeOut).ages_performAll before
    exact decide_eq_false (hages.superseded hnumber (entry_of_takesOut htakeOut load.number))
  obtain ⟨ρ, hρ, hquiet, hsame, hfile⟩ :=
    Atlas.settle_of_superseded hopen.sound.registry hgone ending
  have hended : ended.atlas = (ending.settle running.atlas load).1 := by
    show (running.perform _).atlas = _
    simp only [perform, find_of_mem hopen.sound.nodup_working hworking]
  have hstep := inStep_finish hopen.sound hworking hρ hsame
  have hlater := hstep.performAll hopen hworking hafter
  refine ⟨by rw [hended]; exact hquiet, ⟨ρ, hρ, hlater.atlas.registry⟩, ?_⟩
  intro n hn
  obtain ⟨hnew, hlt⟩ := hfile n hn
  have hages := (hopen.perform (.finish load.number ending)).ages_performAll after
  rw [← hended] at hlt
  have hexists := Nat.lt_of_lt_of_le hlt hages.size
  have hget := Array.getElem?_eq_getElem hexists
  exact ⟨_, hget, hlater.atlas.registry.shells hnew hget⟩

/-- A name is removed while its load works and asked for again.  The second load begins, then the
first one ends with a file, and at last the second one does. -/
theorem superseded_load_asked_again :
    let load : Load := { number := 0, plan := { request := { name := "a" } } }
    let parsed : Ending := .parsed (fun _ _ => .ok (.list [])) default
    let asked := (fresh "/src" default).performAll [.parse { name := "a" }, .begin 0 default]
    let running := asked.performAll [.remove "a", .parse { name := "a" }, .begin 1 default]
    let ended := running.perform (.finish 0 parsed)
    load ∈ running.working ∧
    running.atlas.registry.Undisturbed ended.atlas.registry ∧
    (∃ ρ : Nat → Nat, (∀ n, n < running.atlas.registry.files.size → ρ n = n) ∧
      (running.performAll [.finish 1 parsed]).atlas.registry.Renumbers ρ
        (ended.performAll [.finish 1 parsed]).atlas.registry) ∧
    ∀ n, (parsed.settle running.atlas load).2 = .file n →
      ∃ f, (ended.performAll [.finish 1 parsed]).atlas.file? n = some f ∧ f.detached = true := by
  intro load parsed asked running ended
  have hasked : asked.Reachable := (Reachable.fresh "/src" default).performAll _
  have hbegun : load ∈ asked.working := List.mem_cons_self
  have hawaited : asked.atlas.registry.entries.get? "a" = some (.loading 0) := by
    have hbegan : asked.atlas = (((fresh "/src" default).atlas.start
        { request := { name := "a" } }).1.openSource default load).1 := rfl
    rw [hbegan, Atlas.registry_openSource]
    rfl
  clear_value asked
  have hworking : load ∈ running.working := by
    have hremoved := @mem_working_perform asked load hbegun (.remove "a") id
    have hparsed := @mem_working_perform _ load hremoved (.parse { name := "a" }) id
    exact @mem_working_perform _ load hparsed (.begin 1 default) id
  refine ⟨hworking, @superseded_load asked hasked load hawaited (.remove "a") rfl
    [.parse { name := "a" }, .begin 1 default] [.finish 1 parsed] hworking ?_ parsed⟩
  intro move hmove
  rw [List.mem_singleton.1 hmove]
  exact Nat.one_ne_zero

end Course

end SymbolAtlas
