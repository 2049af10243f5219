import Mathlib
import SymbolAtlas.Proofs.Atlas.ScanOrder

/-!
# Tended indexes

What an index is used for day by day: it is scanned, its sources are parsed and refreshed, files are
renamed and taken out, and now and then it takes over a snapshot that some index has written down
(`Course.Tended`).  Loads that other calls have started may be under way all the time.

A scan does to a registry what its errands do, one after the other: it starts loads, lets them
begin, and settles them (`Scanning.Step.leads`).  So a scan leaves a tidy registry behind, and it
keeps what is true of all files as moves do (`Atlas.Scans.allFiles`, `Course.Tended.allFiles`).
-/

namespace SymbolAtlas

open Registry SourceFile

/-! ## Steps of scans -/

/-- What an errand may make of a registry in one step. -/
inductive Atlas.Leads (a : Atlas) : Registry → Prop
  | same : Leads a a.registry
  | start (name : String) (previous : Option Nat) : Leads a (a.registry.start name previous).1
  | begin : Leads a a.registry.begin
  | settle (ending : Ending) (load : Load) : Leads a (ending.settle a load).1.registry

theorem Atlas.Leads.ages {a : Atlas} {r : Registry} (h : a.Leads r) : a.registry.Ages r := by
  cases h with
  | same => exact .refl _
  | start name previous => exact Registry.ages_start _ name previous
  | begin => exact (Registry.Ages.refl _).congr rfl rfl rfl
  | settle ending load => exact Course.ages_settle a ending load

theorem Atlas.Leads.allFiles {P : SourceFile → Prop} (hP : IsLasting P)
    (hparsed : ∀ name tree contentHash mtime size, P (ofTree name tree contentHash mtime size).1)
    {a : Atlas} {r : Registry} (h : a.Leads r) (ha : AllFiles P a.registry) : AllFiles P r := by
  cases h with
  | same => exact ha
  | start name previous => exact ha.congr (files_start _ name previous)
  | begin => exact ha.congr rfl
  | settle ending load => exact Atlas.allFiles_settle hP ha ending load (hparsed load.name)

theorem Atlas.leads_pursue (a : Atlas) (name : String) (d : Decision) :
    a.Leads (a.pursue name d).1.registry := by
  cases d with
  | load plan => exact .start plan.request.name plan.previous
  | _ => exact .same

namespace Scanning

variable {w : World} {width total : Nat} {s t : Scanning}

theorem Step.leads (h : Step w width total s t) : s.atlas.Leads t.atlas.registry := by
  cases h with
  | enter a front name rest active settled report dropped hroom =>
    show a.Leads (a.approach w.disk name).1.registry
    unfold Atlas.approach
    split
    · exact .same
    · exact a.leads_pursue name _
  | advance a waiting front e rest settled report dropped hstage =>
    obtain ⟨name, before, stage⟩ := e
    cases stage with
    | inspecting i => exact a.leads_pursue i.request.name _
    | started load =>
      show a.Leads (a.openSource w load).1.registry
      rw [Atlas.registry_openSource]
      exact .begin
    | working load source =>
      cases source with
      | ok opened => exact .settle (.parsed w.parser opened) load
      | error fault => exact .settle (.unopened fault) load
    | answered outcome => exact absurd trivial hstage
  | reply a waiting front name before outcome rest settled report dropped houtcome => exact .same
  | drop a waiting front name before crash rest settled report dropped => exact .same

theorem Run.ages (h : Run w width total s t) : s.atlas.registry.Ages t.atlas.registry := by
  induction h with
  | refl => exact .refl _
  | step _ hstep ih => exact ih.trans hstep.leads.ages

theorem registry_close_keeps {P : Registry → Prop} (hrelink : ∀ r n, P r → P (r.relink n).1)
    (s : Scanning) (total : Nat) (h : P s.atlas.registry) : P (s.close total).1.registry := by
  have hlinked := Atlas.registry_relinkEach_keeps hrelink s.atlas.registry.loaded 0 h
  unfold close Atlas.conclude
  split
  · exact h
  · split
    · rename_i hfault
      rwa [hfault] at hlinked
    · rename_i hdone
      rwa [hdone] at hlinked

theorem Run.allFiles {P : SourceFile → Prop} (hP : IsLasting P)
    (hparsed : ∀ name tree contentHash mtime size, P (ofTree name tree contentHash mtime size).1)
    (h : Run w width total s t) (hs : AllFiles P s.atlas.registry) :
    AllFiles P t.atlas.registry := by
  induction h with
  | refl => exact hs
  | step _ hstep ih => exact hstep.leads.allFiles hP hparsed ih

end Scanning

namespace Atlas

variable {a : Atlas} {w : World} {subPaths : Option (List String)} {width : Nat}
  {out : Atlas × Except ScanFault ScanReport} (h : a.Scans w subPaths width out)

include h

/-- A scan leaves a tidy registry that has grown older. -/
theorem Scans.develops (ha : a.registry.Tidy) : Course.Develops a out.1 := by
  cases h with
  | undiscovered hfault => exact ⟨ha, .refl _⟩
  | @ended names s hnames hrun hended =>
    have hgood := hrun.good ha (nodup_discover hnames)
    have hkept := Scanning.registry_close_keeps (P := fun r => r.Tidy ∧ a.registry.Ages r)
      (fun r n hr => ⟨hr.1.relink n, hr.2.trans (Registry.ages_relink r n)⟩) s names.length
      ⟨hgood.tidy, hrun.ages⟩
    exact ⟨hkept.1, hkept.2⟩
  | raised hnames hrun hcrash =>
    exact ⟨(hrun.good ha (nodup_discover hnames)).tidy, hrun.ages⟩

theorem Scans.allFiles {P : SourceFile → Prop} (hP : IsLasting P)
    (hparsed : ∀ name tree contentHash mtime size, P (ofTree name tree contentHash mtime size).1)
    (ha : AllFiles P a.registry) : AllFiles P out.1.registry := by
  cases h with
  | undiscovered hfault => exact ha
  | @ended names s hnames hrun hended =>
    exact s.registry_close_keeps (P := AllFiles P) (fun _ n hr => AllFiles.relink hP hr n)
      names.length (hrun.allFiles hP hparsed ha)
  | raised hnames hrun hcrash => exact hrun.allFiles hP hparsed ha

end Atlas

/-! ## Tended courses -/

/-- What is taken over, if anything, is a snapshot that an index has written down. -/
def Move.IsOwn : Move → Prop
  | .adopt data => ∃ b : Atlas, data = b.snapshot.toValue
  | _ => True

namespace Course

/-- A course that scans lead to and moves that take over nothing but snapshots of indexes. -/
inductive Tended : Course → Prop
  | fresh (directory : String) (settings : Settings)
      (realpath : String → String := Path.resolvedText) : Tended (fresh directory settings realpath)
  | perform {c : Course} (hc : Tended c) (move : Move) (hmove : move.IsOwn) :
      Tended (c.perform move)
  | scan {c : Course} (hc : Tended c) {w : World} {subPaths : Option (List String)} {width : Nat}
      {out : Atlas × Except ScanFault ScanReport} (h : c.atlas.Scans w subPaths width out) :
      Tended { c with atlas := out.1 }

theorem Tended.performAll {c : Course} (hc : c.Tended) {moves : List Move}
    (h : ∀ move ∈ moves, move.IsOwn) : (c.performAll moves).Tended := by
  induction moves generalizing c with
  | nil => exact hc
  | cons move rest ih =>
    exact ih (hc.perform move (h move (.head _))) fun later hlater => h later (.tail _ hlater)

theorem Tended.sound {c : Course} (hc : c.Tended) : Sound c := by
  induction hc with
  | fresh directory settings realpath => exact (Reachable.fresh directory settings realpath).sound
  | perform _ move _ ih => exact ih.perform move
  | scan _ h ih =>
    have hdev := h.develops ih.registry
    exact ih.aged hdev.tidy hdev.ages

/-- What lasts, and is true of every file that is parsed or restored from a snapshot of an index, is
true of all files. -/
theorem Tended.allFiles {P : SourceFile → Prop} (hP : IsLasting P)
    (hparsed : ∀ name tree contentHash mtime size, P (ofTree name tree contentHash mtime size).1)
    (hrestored : ∀ b : Atlas, ∀ entry ∈ b.snapshot.files, ∀ f, entry.2.restore = .ok f → P f)
    {c : Course} (hc : c.Tended) : AllFiles P c.atlas.registry := by
  induction hc with
  | fresh directory settings realpath =>
    intro n f hf
    cases hf
  | perform _ move hmove ih =>
    refine allFiles_perform hP hparsed ih ?_
    rintro data rfl snapshot hcheck
    obtain ⟨b, rfl⟩ := hmove
    cases (AtlasSnapshot.check_toValue _).symm.trans hcheck
    exact hrestored b
  | scan _ h ih => exact h.allFiles hP hparsed ih

end Course

end SymbolAtlas
