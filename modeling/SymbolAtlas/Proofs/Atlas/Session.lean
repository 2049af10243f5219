import Mathlib
import SymbolAtlas.Atlas.Load
import SymbolAtlas.Atlas.Snapshot
import SymbolAtlas.Proofs.Registry.Operations
import SymbolAtlas.Proofs.Snapshot.Check
import SymbolAtlas.Proofs.SourceFile.Ownership

/-!
# Sessions

A session is an atlas at work: some loads have been started and not yet begun, others are working.
Its steps are those between which anything else may happen.  Requests decide what becomes of them,
loads begin and end, and names are removed, renamed, cleared or taken over from a snapshot, in any
order and any number.

`Session.Coherent` is the invariant of all runs: the registry is coherent, and the tally counts the
working loads.  Each step keeps it (`Session.Step.coherent`), so every reachable session has it, and
`Session.accounts` spells it out.
-/

namespace SymbolAtlas

/-- An atlas with the loads that are under way. -/
structure Session where
  atlas : Atlas
  /-- The loads that were started and have not begun. -/
  started : List Load := []
  /-- The loads that have begun and not ended. -/
  working : List Load := []

namespace Session

/-- The session of a new atlas. -/
def fresh (directory : String) (settings : Settings)
    (realpath : String → String := Path.resolvedText) : Session where
  atlas := Atlas.empty (Path.parse directory) settings realpath

/-- The session after a request of a name was decided. -/
def follow (s : Session) (name : String) : Decision → Session
  | .join _ => s
  | .crash _ => s
  | .keep n => { s with atlas := (s.atlas.keep name n).1 }
  | .load plan =>
    { s with atlas := (s.atlas.start plan).1, started := (s.atlas.start plan).2 :: s.started }

/-- The files of a snapshot stand under distinct names. -/
def HasDistinctFiles (data : Value) : Prop :=
  ∀ files, data.field? "files" = some (.object files) → (Ledger.keys files).Nodup

/-- What can happen to a session at once. -/
inductive Step : Session → Session → Prop
  | parse (s : Session) (request : Request) :
      Step s (s.follow request.name (s.atlas.decideParse request))
  | refresh (s : Session) (disk : Disk) (request : Request) :
      Step s (s.follow request.name (s.atlas.decideRefresh disk request))
  | begin (a : Atlas) (before after working : List Load) (load : Load) (w : World) :
      Step ⟨a, before ++ load :: after, working⟩
        ⟨(a.openSource w load).1, before ++ after, load :: working⟩
  | settle (a : Atlas) (started before after : List Load) (load : Load) (parser : Parser)
      (opened : OpenedSource) :
      Step ⟨a, started, before ++ load :: after⟩
        ⟨(a.settle parser load opened).1, started, before ++ after⟩
  | settleUnopened (a : Atlas) (started before after : List Load) (load : Load)
      (fault : OpenFault) :
      Step ⟨a, started, before ++ load :: after⟩
        ⟨(a.settleUnopened load fault).1, started, before ++ after⟩
  | remove (s : Session) (name : String) : Step s { s with atlas := s.atlas.remove name }
  | rename (s : Session) (old new : String) : Step s { s with atlas := s.atlas.rename old new }
  | clear (s : Session) : Step s { s with atlas := s.atlas.clear }
  | adopt (s : Session) (data : Value) (hdata : HasDistinctFiles data) :
      Step s { s with atlas := (s.atlas.adopt data).1 }
  | relink (s : Session) (n : Nat) : Step s { s with atlas := (s.atlas.relink n).1 }

/-- A session that some run of steps leads to. -/
inductive Reachable : Session → Prop
  | fresh (directory : String) (settings : Settings)
      (realpath : String → String := Path.resolvedText) :
      Reachable (fresh directory settings realpath)
  | step {s s' : Session} (hs : Reachable s) (hstep : Step s s') : Reachable s'

/-- The registry is coherent, and the tally counts the working loads. -/
structure Coherent (s : Session) : Prop where
  registry : s.atlas.registry.Coherent
  loading : s.atlas.registry.tally.loading = s.working.length

end Session

/-! ## The count of working loads -/

namespace Registry

variable (r : Registry)

theorem loading_forget (n : Nat) : (r.forget n).tally.loading = r.tally.loading := by
  unfold forget
  split <;> rfl

theorem loading_forgetReplaced (name : String) :
    (r.forgetReplaced name).tally.loading = r.tally.loading := by
  unfold forgetReplaced
  split
  · exact loading_forget _ _
  · rfl

theorem loading_start (name : String) (previous : Option Nat) :
    (r.start name previous).1.tally.loading = r.tally.loading := by
  cases previous <;> rfl

theorem loading_fail (name : String) (load : Nat) (failure : Failure) :
    (r.fail name load failure).tally.loading = r.tally.loading - 1 := by
  unfold fail
  split
  · exact congrArg (· - 1) (loading_forgetReplaced _ name)
  · rfl

theorem loading_succeed (name : String) (load : Nat) (f : SourceFile) :
    (r.succeed name load f).1.tally.loading = r.tally.loading - 1 := by
  by_cases h : r.endWork.awaits name load = true
  · simp only [succeed, if_pos h, addFile]
    exact loading_forgetReplaced _ name
  · simp only [succeed, if_neg h]
    rfl

theorem loading_remove (name : String) : (r.remove name).tally.loading = r.tally.loading := by
  unfold remove
  simp only
  split
  · exact loading_forget _ _
  · exact loading_forgetReplaced _ _
  · rfl

theorem loading_rename {r : Registry} {old new : String} {r' : Registry}
    (h : r.rename old new = .ok r') : r'.tally.loading = r.tally.loading := by
  obtain ⟨n, -, -, rfl⟩ := rename_eq_ok h
  rfl

theorem loading_replaceAll (directory : Path) (files : Ledger SourceFile) :
    (r.replaceAll directory files).tally.loading = r.tally.loading :=
  replaceAll_keeps (P := fun s => s.tally.loading = r.tally.loading) rfl fun _ _ _ hs => hs

end Registry

/-! ## What the steps of an atlas do to its registry -/

namespace Atlas

variable (a : Atlas)

theorem registry_openSource (w : World) (load : Load) :
    (a.openSource w load).1.registry = a.registry.begin := by
  unfold openSource
  simp only
  split <;> rfl

theorem registry_relink (n : Nat) : (a.relink n).1.registry = (a.registry.relink n).1 := by
  unfold relink
  split
  · rename_i h
    rw [h]
    rfl
  · rename_i h
    rw [h]

/-- What relinking a file keeps, relinking one file after the other keeps. -/
theorem relinkEach_keeps {P : Atlas → Prop} (step : ∀ b n, P b → P (b.relink n).1)
    (ns : List Nat) {a : Atlas} (missed : Nat) (h : P a) : P (a.relinkEach ns missed).1 := by
  induction ns generalizing a missed with
  | nil => exact h
  | cons n rest ih =>
    have hn := step a n h
    rw [relinkEach]
    split
    · rename_i b more hb
      rw [hb] at hn
      exact ih _ hn
    · rename_i b e hb
      rw [hb] at hn
      exact hn

theorem registry_relinkEach_keeps {P : Registry → Prop} (step : ∀ r n, P r → P (r.relink n).1)
    (ns : List Nat) {a : Atlas} (missed : Nat) (h : P a.registry) :
    P (a.relinkEach ns missed).1.registry :=
  relinkEach_keeps (P := fun b => P b.registry)
    (fun b n hb => by rw [registry_relink]; exact step _ n hb) ns missed h

theorem registry_succeed (load : Load) (f : SourceFile) :
    (a.succeed load f).1.registry = (a.registry.succeed load.name load.number f).1 ∨
      (a.succeed load f).1.registry =
        ((a.registry.succeed load.name load.number f).1.relink
          (a.registry.succeed load.name load.number f).2).1 := by
  unfold succeed
  simp only
  split
  · exact Or.inr (registry_relink _ _)
  · exact Or.inl rfl

/-- A settled load has failed, or its file is that of a tree, which may have been linked. -/
theorem registry_settle (parser : Parser) (load : Load) (opened : OpenedSource) :
    (∃ failure, (a.settle parser load opened).1.registry =
      a.registry.fail load.name load.number failure) ∨
    ∃ f tree contentHash mtime size,
      f = (SourceFile.ofTree load.name tree contentHash mtime size).1 ∧
      ((a.settle parser load opened).1.registry =
          (a.registry.succeed load.name load.number f).1 ∨
        (a.settle parser load opened).1.registry =
          ((a.registry.succeed load.name load.number f).1.relink
            (a.registry.succeed load.name load.number f).2).1) := by
  unfold settle
  split
  · exact Or.inl ⟨_, rfl⟩
  · rename_i tree _
    exact Or.inr ⟨_, tree, some (Sha256.hex opened.content), some opened.mtime,
      some opened.content.length, rfl, registry_succeed _ load _⟩

/-! An operation of an atlas may fail half-way.  What each of the changes that it may make to the
registry keeps is true of the registry that it leaves, however far it has got. -/

section Keeps

variable {a} {P : Registry → Prop}

theorem registry_settle_keeps {parser : Parser} {load : Load} {opened : OpenedSource}
    (hfail : ∀ failure, P (a.registry.fail load.name load.number failure))
    (hsucceed : ∀ tree contentHash mtime size, P (a.registry.succeed load.name load.number
      (SourceFile.ofTree load.name tree contentHash mtime size).1).1)
    (hrelink : ∀ r n, P r → P (r.relink n).1) : P (a.settle parser load opened).1.registry := by
  rcases a.registry_settle parser load opened with
    ⟨failure, hr⟩ | ⟨f, tree, contentHash, mtime, size, rfl, hr | hr⟩
  · rw [hr]
    exact hfail failure
  · rw [hr]
    exact hsucceed tree contentHash mtime size
  · rw [hr]
    exact hrelink _ _ (hsucceed tree contentHash mtime size)

theorem registry_settleUnopened_keeps {load : Load} {fault : OpenFault}
    (hfail : ∀ failure, P (a.registry.fail load.name load.number failure))
    (habandon : ∀ crash, P (a.registry.abandon load.number crash)) :
    P (a.settleUnopened load fault).1.registry := by
  cases fault with
  | failed failure => exact hfail failure
  | crashed crash => exact habandon crash

theorem registry_rename_keeps {old new : String} (h : P a.registry)
    (hrename : ∀ r, a.registry.rename old new = .ok r → P r) :
    P (a.rename old new).registry := by
  unfold rename
  split
  · rename_i r hr
    exact hrename r hr
  · exact h

theorem registry_takeOver_keeps {snapshot : AtlasSnapshot} (h : P a.registry)
    (hreplaced : ∀ files, restoreAll snapshot.files = .ok files →
      P (a.registry.replaceAll (Path.parse snapshot.directory) files))
    (hrelink : ∀ r n, P r → P (r.relink n).1) : P (a.takeOver snapshot).1.registry := by
  unfold takeOver
  split
  · exact h
  · rename_i files hfiles
    have hlinked := registry_relinkEach_keeps hrelink
      (a.onRegistry (·.replaceAll (Path.parse snapshot.directory) files)).registry.loaded
      (a := a.onRegistry (·.replaceAll (Path.parse snapshot.directory) files)) 0
      (hreplaced files hfiles)
    simp only
    split
    · rename_i b fault hb
      rw [hb] at hlinked
      exact hlinked
    · rename_i b missed hb
      rw [hb] at hlinked
      exact hlinked

theorem registry_adopt_keeps {data : Value} (h : P a.registry) (hclear : P a.registry.clear)
    (hreplaced : ∀ snapshot files, AtlasSnapshot.check data = .ok snapshot →
      restoreAll snapshot.files = .ok files →
      P (a.registry.replaceAll (Path.parse snapshot.directory) files))
    (hrelink : ∀ r n, P r → P (r.relink n).1) : P (a.adopt data).1.registry := by
  unfold adopt
  split
  · split
    · exact h
    · rename_i snapshot hcheck
      exact registry_takeOver_keeps h (fun files => hreplaced snapshot files hcheck) hrelink
  · exact hclear

/-- What was taken over took everything out, or replaced it and linked all files. -/
theorem registry_adopt_of_ok {data : Value} (h : (a.adopt data).2 = .ok ()) :
    (a.adopt data).1 = a.clear ∨ ∃ snapshot files b missed,
      AtlasSnapshot.check data = .ok snapshot ∧ restoreAll snapshot.files = .ok files ∧
      (a.onRegistry (·.replaceAll (Path.parse snapshot.directory) files)).relinkEach
        (a.registry.replaceAll (Path.parse snapshot.directory) files).loaded 0 = (b, .ok missed) ∧
      (a.adopt data).1.registry = b.registry := by
  revert h
  unfold adopt
  split
  · split
    · nofun
    · rename_i snapshot hcheck
      unfold takeOver
      split
      · nofun
      · rename_i files hfiles
        simp only
        split
        · nofun
        · rename_i b missed hb
          exact fun _ => .inr ⟨snapshot, files, b, missed, hcheck, hfiles, hb, rfl⟩
  · exact fun _ => .inl rfl

end Keeps

/-- A decision agrees with what its name stands for: a load is planned for a name that holds the
file to replace, or that is not known. -/
def Allows (name : String) : Decision → Prop
  | .join load => a.registry.entries.get? name = some (.loading load)
  | .keep n => a.registry.entries.get? name = some (.loaded n)
  | .crash _ => True
  | .load plan => plan.request.name = name ∧ a.registry.Precedes name plan.previous

theorem allows_decideParse (request : Request) :
    a.Allows request.name (a.decideParse request) := by
  unfold decideParse
  split
  · rename_i load hload
    exact hload
  · rename_i n hn
    exact ⟨rfl, hn⟩
  · rename_i hn
    exact ⟨rfl, hn⟩

/-- An inspection leads to its file, or to a load that is to replace this file. -/
theorem decideInspected_cases (disk : Disk) (i : Inspection) :
    a.decideInspected disk i = .keep i.file ∨ (∃ crash, a.decideInspected disk i = .crash crash) ∨
      ∃ plan, a.decideInspected disk i = .load plan ∧ plan.request.name = i.request.name ∧
        plan.previous = some i.file := by
  unfold decideInspected
  split
  · unfold decideByContent
    simp only
    split
    · exact Or.inr (Or.inl ⟨_, rfl⟩)
    · split
      · exact Or.inr (Or.inr ⟨_, rfl, rfl, rfl⟩)
      · split
        · exact Or.inl rfl
        · exact Or.inr (Or.inr ⟨_, rfl, rfl, rfl⟩)
  · unfold decideByStat
    simp only
    split
    · split
      · exact Or.inl rfl
      · exact Or.inr (Or.inr ⟨_, rfl, rfl, rfl⟩)
    · split
      · exact Or.inr (Or.inl ⟨_, rfl⟩)
      · split
        · exact Or.inr (Or.inr ⟨_, rfl, rfl, rfl⟩)
        · split
          · exact Or.inl rfl
          · exact Or.inr (Or.inr ⟨_, rfl, rfl, rfl⟩)

theorem plan_of_decideInspected {disk : Disk} {i : Inspection} {plan : LoadPlan}
    (h : a.decideInspected disk i = .load plan) :
    plan.request.name = i.request.name ∧ plan.previous = some i.file := by
  rcases a.decideInspected_cases disk i with hkeep | ⟨crash, hcrash⟩ | ⟨plan', hload, hplan⟩
  · rw [hkeep] at h
    cases h
  · rw [hcrash] at h
    cases h
  · rw [hload] at h
    cases h
    exact hplan

/-- An inspection of the file that is indexed leads to a decision that agrees with its name. -/
theorem allows_decideInspected {i : Inspection}
    (h : a.registry.entries.get? i.request.name = some (.loaded i.file)) (disk : Disk) :
    a.Allows i.request.name (a.decideInspected disk i) := by
  rcases a.decideInspected_cases disk i with
    hkeep | ⟨crash, hcrash⟩ | ⟨plan, hplan, hname, hprevious⟩
  · rw [hkeep]
    exact h
  · rw [hcrash]
    trivial
  · rw [hplan]
    refine ⟨hname, ?_⟩
    rw [Registry.Precedes, hprevious]
    exact h

theorem allows_decideRefresh (disk : Disk) (request : Request) :
    a.Allows request.name (a.decideRefresh disk request) := by
  unfold decideRefresh
  split
  · rename_i n hn
    simpa only [decideInspected] using a.allows_decideInspected (i := ⟨request, n⟩) hn disk
  · exact a.allows_decideParse request

end Atlas

/-! ## Every step keeps a session coherent -/

theorem SourceFile.isEntered_ofTree (name : String) (tree : Value) (contentHash : Option String)
    (mtime : Option Double) (size : Option Int) :
    (ofTree name tree contentHash mtime size).1.IsEntered name where
  name_eq := name_ofTree name tree contentHash mtime size
  detached := detached_ofTree name tree contentHash mtime size
  nonempty := (wellOwned_ofTree name tree contentHash mtime size).size_pos

/-- Files are restored one by one and stand under the names of their snapshots. -/
theorem forall₂_restoreAll {files : Ledger FileSnapshot} {fs : Ledger SourceFile}
    (h : restoreAll files = .ok fs) :
    List.Forall₂ (fun x y => y.1 = x.1 ∧ x.2.restore = .ok y.2) files fs := by
  induction files generalizing fs with
  | nil =>
    cases h
    exact .nil
  | cons entry rest ih =>
    obtain ⟨name, s⟩ := entry
    rw [restoreAll] at h
    split at h
    · cases h
    · rename_i f hf
      split at h
      · cases h
      · rename_i others hothers
        cases h
        exact .cons ⟨rfl, hf⟩ (ih hothers)

theorem keys_restoreAll {files : Ledger FileSnapshot} {fs : Ledger SourceFile}
    (h : restoreAll files = .ok fs) : fs.keys = files.keys :=
  keys_eq_of_forall₂ (forall₂_restoreAll h)

theorem restore_of_mem_restoreAll {files : Ledger FileSnapshot} {fs : Ledger SourceFile}
    (h : restoreAll files = .ok fs) {entry : String × SourceFile} (hmem : entry ∈ fs) :
    ∃ s : FileSnapshot, (entry.1, s) ∈ files ∧ s.restore = .ok entry.2 := by
  obtain ⟨⟨name, s⟩, hs, hname, hrestore⟩ := forall₂_mem_right (forall₂_restoreAll h) hmem
  exact ⟨s, hname ▸ hs, hrestore⟩

namespace Session

variable {s s' : Session}

theorem coherent_fresh (directory : String) (settings : Settings) (realpath : String → String) :
    Coherent (fresh directory settings realpath) where
  registry := Registry.Coherent.empty _
  loading := rfl

theorem Coherent.follow (h : Coherent s) {name : String} {d : Decision}
    (hd : s.atlas.Allows name d) : Coherent (s.follow name d) := by
  cases d with
  | join load => exact h
  | crash crash => exact h
  | keep n => exact ⟨h.registry, h.loading⟩
  | load plan =>
    obtain ⟨hname, hprevious⟩ := hd
    rw [← hname] at hprevious
    exact ⟨h.registry.start hprevious,
      (Registry.loading_start _ plan.request.name plan.previous).trans h.loading⟩

/-- The loads that go on working when one of them has ended. -/
theorem Coherent.loading_ended {a : Atlas} {started before after : List Load} {load : Load}
    (h : Coherent ⟨a, started, before ++ load :: after⟩) :
    a.registry.tally.loading - 1 = ((before ++ after).length : Nat) := by
  have hloading : a.registry.tally.loading = ((before ++ load :: after).length : Nat) := h.loading
  simp only [List.length_append, List.length_cons] at hloading ⊢
  omega

theorem nodup_files_of_check {data : Value} (hdata : HasDistinctFiles data)
    {snapshot : AtlasSnapshot} (h : AtlasSnapshot.check data = .ok snapshot) :
    snapshot.files.keys.Nodup := by
  rcases AtlasSnapshot.keys_files_of_check h with hnone | ⟨files, hfiles, hkeys⟩
  · rw [hnone]
    exact List.nodup_nil
  · rw [hkeys]
    exact hdata files hfiles

/-- A coherent registry whose tally counts so many loads. -/
def Balanced (count : Int) (r : Registry) : Prop :=
  r.Coherent ∧ r.tally.loading = count

theorem Balanced.relink {count : Int} (r : Registry) (n : Nat) (h : Balanced count r) :
    Balanced count (r.relink n).1 :=
  ⟨h.1.relink n, by rw [Registry.tally_relink]; exact h.2⟩

theorem coherent_iff_balanced : Coherent s ↔ Balanced s.working.length s.atlas.registry :=
  ⟨fun h => ⟨h.registry, h.loading⟩, fun h => ⟨h.1, h.2⟩⟩

/-- The files of a snapshot that was read are entered under distinct names. -/
theorem coherent_replaceAll (r : Registry) {data : Value} (hdata : HasDistinctFiles data)
    {snapshot : AtlasSnapshot} {files : Ledger SourceFile}
    (hcheck : AtlasSnapshot.check data = .ok snapshot)
    (hfiles : restoreAll snapshot.files = .ok files) :
    (r.replaceAll (Path.parse snapshot.directory) files).Coherent := by
  refine .replaceAll r _ (keys_restoreAll hfiles ▸ nodup_files_of_check hdata hcheck) ?_
  intro entry hentry
  obtain ⟨fs, -, hfs⟩ := restore_of_mem_restoreAll hfiles hentry
  exact ⟨FileSnapshot.detached_restore hfs, (FileSnapshot.wellOwned_restore hfs).size_pos⟩

/-- Every step keeps a session coherent. -/
theorem Step.coherent (hstep : Step s s') (h : Coherent s) : Coherent s' := by
  cases hstep with
  | parse _ request => exact h.follow (s.atlas.allows_decideParse request)
  | refresh _ disk request => exact h.follow (s.atlas.allows_decideRefresh disk request)
  | begin a before after working load w =>
    refine ⟨?_, ?_⟩
    · rw [Atlas.registry_openSource]
      exact h.registry.begin
    · rw [Atlas.registry_openSource]
      have hloading : a.registry.tally.loading = working.length := h.loading
      simp only [Registry.begin, hloading, List.length_cons, Nat.cast_add, Nat.cast_one]
  | settle a started before after load parser opened =>
    have hloading := h.loading_ended
    refine coherent_iff_balanced.2 (Atlas.registry_settle_keeps (fun failure => ?_)
      (fun tree contentHash mtime size => ?_) Balanced.relink)
    · exact ⟨h.registry.fail load.name load.number failure,
        (a.registry.loading_fail load.name load.number failure).trans hloading⟩
    · have hentered := SourceFile.isEntered_ofTree load.name tree contentHash mtime size
      exact ⟨h.registry.succeed hentered load.number,
        (a.registry.loading_succeed load.name load.number _).trans hloading⟩
  | settleUnopened a started before after load fault =>
    have hloading := h.loading_ended
    refine coherent_iff_balanced.2
      (Atlas.registry_settleUnopened_keeps (fun failure => ?_) fun crash => ?_)
    · exact ⟨h.registry.fail load.name load.number failure,
        (a.registry.loading_fail load.name load.number failure).trans hloading⟩
    · exact ⟨h.registry.abandon load.number crash, hloading⟩
  | remove _ name =>
    exact ⟨h.registry.remove name, (s.atlas.registry.loading_remove name).trans h.loading⟩
  | rename _ old new =>
    refine coherent_iff_balanced.2 (Atlas.registry_rename_keeps (coherent_iff_balanced.1 h) ?_)
    exact fun r hr => ⟨h.registry.rename hr, (Registry.loading_rename hr).trans h.loading⟩
  | clear _ => exact ⟨Registry.Coherent.clear s.atlas.registry, h.loading⟩
  | adopt _ data hdata =>
    refine coherent_iff_balanced.2 (Atlas.registry_adopt_keeps (coherent_iff_balanced.1 h)
      ⟨.clear s.atlas.registry, h.loading⟩ (fun snapshot files hcheck hfiles => ?_) Balanced.relink)
    exact ⟨coherent_replaceAll _ hdata hcheck hfiles,
      (Registry.loading_replaceAll _ _ _).trans h.loading⟩
  | relink _ n =>
    rw [coherent_iff_balanced, Atlas.registry_relink]
    exact Balanced.relink _ n (coherent_iff_balanced.1 h)

theorem Reachable.coherent (h : Reachable s) : Coherent s := by
  induction h with
  | fresh directory settings realpath => exact coherent_fresh directory settings realpath
  | step _ hstep ih => exact hstep.coherent ih

/-- The books of every reachable session: names and places of files, waiting replacements, the
tally of files and that of loads. -/
theorem accounts (h : Reachable s) :
    (∀ k n, s.atlas.registry.entries.get? k = some (.loaded n) →
      (∃ f, s.atlas.file? n = some f ∧ f.name = k ∧ f.detached = false) ∧
      (∀ k', s.atlas.registry.entries.get? k' = some (.loaded n) → k' = k) ∧
      n ∉ s.atlas.registry.replaced.values) ∧
    (∀ k n, s.atlas.registry.replaced.get? k = some n →
      ∃ load, s.atlas.registry.entries.get? k = some (.loading load)) ∧
    (s.atlas.registry.entries.keys.Nodup ∧ s.atlas.registry.replaced.keys.Nodup ∧
      (s.atlas.registry.filesAt s.atlas.registry.held).length = s.atlas.registry.held.length) ∧
    (s.atlas.registry.tally.loaded =
        (s.atlas.registry.loaded.length + s.atlas.registry.replaced.length : Nat) ∧
      s.atlas.registry.tally.symbols =
        ((s.atlas.registry.filesAt s.atlas.registry.held).map fun f => (f.symbolCount : Int)).sum ∧
      s.atlas.registry.tally.size =
        ((s.atlas.registry.filesAt s.atlas.registry.held).map fun f => f.size.getD 0).sum) ∧
    s.atlas.registry.tally.loading = s.working.length := by
  obtain ⟨hr, hloading⟩ := h.coherent
  have hlength := hr.length_filesAt_held
  have hheld : s.atlas.registry.held.length =
      s.atlas.registry.loaded.length + s.atlas.registry.replaced.length := by
    rw [Registry.held, List.length_append, Ledger.values, List.length_map]
  refine ⟨?_, fun k n => hr.awaited, ⟨hr.entries_distinct, hr.replaced_distinct, hlength⟩,
    ⟨?_, hr.counts.symbols, hr.counts.size⟩, hloading⟩
  · intro k n hk
    obtain ⟨f, hf, hentered⟩ := hr.named hk
    refine ⟨⟨f, hf, hentered.name_eq, hentered.detached⟩, fun k' => hr.name_unique hk, ?_⟩
    intro hmem
    have hloaded : n ∈ s.atlas.registry.loaded := by
      rw [Registry.loaded_eq]
      exact mem_loadedOf.2 ⟨k, Ledger.mem_of_get? hk⟩
    exact (List.nodup_append.1 hr.exclusive).2.2 n hloaded n hmem rfl
  · rw [hr.counts.loaded, hlength, hheld]

/-- A load of a page, which replaces the file of an earlier load. -/
def pageLoad (number : Nat) (previous : Option Nat) : Load where
  number := number
  plan := { request := { name := "page" }, previous := previous }

/-- A parser that finds one class in every source. -/
def oneClass : Parser := fun _ _ =>
  .ok (.list [.object [("kind", .str "class"), ("name", .str "Page")]])

/-- An atlas with one file, of four bytes. -/
def onePage : Atlas :=
  let begun := (((fresh "/src" default).atlas.start (pageLoad 0 none).plan).1.openSource default
    (pageLoad 0 none)).1
  let source : OpenedSource := { (default : OpenedSource) with content := [1, 2, 3, 4] }
  (begun.settle oneClass (pageLoad 0 none) source).1

/-- The atlas while its file is parsed again: the name is loading, and the file waits to be
replaced. -/
def onePageAgain : Atlas :=
  ((onePage.start (pageLoad 1 (some 0)).plan).1.openSource default (pageLoad 1 (some 0))).1

/-- A file that is parsed again counts until it is replaced. -/
theorem accounts_onePageAgain :
    (∃ load, onePageAgain.registry.entries.get? "page" = some (.loading load)) ∧
    onePageAgain.registry.tally.loaded = 1 ∧ onePageAgain.registry.tally.symbols = 2 ∧
    onePageAgain.registry.tally.size = 4 ∧ onePageAgain.registry.tally.loading = 1 := by
  have hpage : Reachable ⟨onePage, [], []⟩ :=
    .step (.step (.step (.fresh "/src" default) (.parse _ { name := "page" }))
      (.begin _ [] [] [] (pageLoad 0 none) default))
      (.settle _ [] [] [] (pageLoad 0 none) oneClass _)
  have hentry : onePage.registry.entries.get? "page" = some (.loaded 0) := by decide +kernel
  have hload : (onePage.start (pageLoad 1 (some 0)).plan).2 = pageLoad 1 (some 0) := by
    have hnumber : onePage.registry.loads = 1 := by decide +kernel
    simp only [Atlas.start, Registry.start, hnumber, pageLoad]
  have hparse : Step ⟨onePage, [], []⟩
      ⟨(onePage.start (pageLoad 1 (some 0)).plan).1, [pageLoad 1 (some 0)], []⟩ := by
    have hstep := Step.parse ⟨onePage, [], []⟩ { name := "page" }
    rw [Atlas.decideParse, hentry, follow] at hstep
    exact hload ▸ hstep
  have hagain : Reachable ⟨onePageAgain, [], [pageLoad 1 (some 0)]⟩ :=
    .step (.step hpage hparse) (.begin _ [] [] [] (pageLoad 1 (some 0)) default)
  obtain ⟨-, hreplaced, -, ⟨hloaded, hsymbols, hsize⟩, hloading⟩ := accounts hagain
  have hwaits : onePageAgain.registry.replaced.get? "page" = some 0 := by decide +kernel
  refine ⟨hreplaced "page" 0 hwaits, hloaded.trans ?_, hsymbols.trans ?_, hsize.trans ?_, hloading⟩
  · decide +kernel
  · decide +kernel
  · decide +kernel

end Session

end SymbolAtlas
