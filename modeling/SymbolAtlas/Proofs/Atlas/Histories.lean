import Mathlib
import SymbolAtlas.Proofs.Atlas.Tended

/-!
# Histories of whole operations

An index with a single user does one thing after the other: a file is parsed or refreshed, the
directory is scanned, files are taken out and renamed, everything is taken out or taken over from a
snapshot, and nothing begins before what came before it has ended (`Atlas.History`).  Within a scan
many errands may be on their way, and the disk may change between any two steps.

As no call overtakes another, every load replaces what its name stands for.  An operation therefore
takes a registry through steps that keep it coherent (`Atlas.Operation.proceeds`), and so does a
history (`Atlas.History.coherent`).
-/

namespace SymbolAtlas

open Registry

/-! ## Steps of a registry -/

namespace Registry

/-- What may happen to a registry at once, short of a renaming, if no call overtakes another. -/
inductive Proceeds (r : Registry) : Registry → Prop
  | start {name : String} {previous : Option Nat} (h : r.Precedes name previous) :
      Proceeds r (r.start name previous).1
  | begin : Proceeds r r.begin
  | fail (name : String) (load : Nat) (failure : Failure) : Proceeds r (r.fail name load failure)
  | abandon (load : Nat) (crash : Crash) : Proceeds r (r.abandon load crash)
  | succeed (name : String) (load : Nat) (tree : Value) (contentHash : Option String)
      (mtime : Option Double) (size : Option Int) :
      Proceeds r (r.succeed name load (SourceFile.ofTree name tree contentHash mtime size).1).1
  | relink (n : Nat) : Proceeds r (r.relink n).1
  | remove (name : String) : Proceeds r (r.remove name)
  | clear : Proceeds r r.clear
  | replaceAll (directory : String) {files : Ledger SourceFile} (hdistinct : files.keys.Nodup)
      (hfiles : ∀ entry ∈ files, ∃ s : FileSnapshot, s.restore = .ok entry.2) :
      Proceeds r (r.replaceAll (Path.parse directory) files)

namespace Proceeds

variable {r r' : Registry}

theorem coherent (h : r.Proceeds r') (hr : r.Coherent) : r'.Coherent := by
  cases h with
  | start hprecedes => exact hr.start hprecedes
  | begin => exact hr.begin
  | fail name load failure => exact hr.fail name load failure
  | abandon load crash => exact hr.abandon load crash
  | succeed name load tree contentHash mtime size =>
    exact hr.succeed (SourceFile.isEntered_ofTree name tree contentHash mtime size) load
  | relink n => exact hr.relink n
  | remove name => exact hr.remove name
  | clear => exact .clear r
  | replaceAll directory hdistinct hfiles =>
    refine .replaceAll r _ hdistinct fun entry hentry => ?_
    obtain ⟨s, hs⟩ := hfiles entry hentry
    exact ⟨FileSnapshot.detached_restore hs, (FileSnapshot.wellOwned_restore hs).size_pos⟩

theorem lineage (h : r.Proceeds r') (hr : r.Lineage) : r'.Lineage := by
  cases h with
  | start hprecedes => exact hr.start _ _
  | begin => exact hr.congr rfl rfl
  | fail name load failure => exact hr.fail name load failure
  | abandon load crash => exact hr.congr rfl rfl
  | succeed name load tree contentHash mtime size =>
    exact hr.succeed name load (Or.inr ⟨name, .parsed tree contentHash mtime size⟩)
  | relink n => exact hr.relink n
  | remove name => exact hr.remove name
  | clear => exact hr.clear
  | replaceAll directory hdistinct hfiles =>
    refine hr.replaceAll (Path.proper_parse _) fun entry hentry => ?_
    obtain ⟨s, hs⟩ := hfiles entry hentry
    exact ⟨s.name, .restored rfl hs⟩

/-- What every step keeps is kept by all of them. -/
theorem keep_of_steps {P : Registry → Prop} (hstep : ∀ {r r'}, Proceeds r r' → P r → P r')
    (h : Relation.ReflTransGen Proceeds r r') (hr : P r) : P r' := by
  induction h with
  | refl => exact hr
  | tail _ hlast ih => exact hstep hlast ih

end Proceeds

/-- An indexed file bears its name, is no empty shell, and was made under some name. -/
theorem Coherent.made {r : Registry} (hr : r.Coherent) (hl : r.Lineage) {k : String} {n : Nat}
    (hk : r.entries.get? k = some (.loaded n)) :
    ∃ (f : SourceFile) (origin : String), r.files[n]? = some f ∧ f.name = k ∧ f.detached = false ∧
      f.Made origin := by
  obtain ⟨f, hf, hentered⟩ := hr.named hk
  rcases hl.files hf with hd | ⟨origin, hmade⟩
  · rw [hentered.detached] at hd
    cases hd
  · exact ⟨f, origin, hf, hentered.name_eq, hentered.detached, hmade⟩

end Registry

/-! ## Calls -/

/-- What a call knows of its name at a stage still holds. -/
def Stage.Fits (r : Registry) (name : String) : Stage → Prop
  | .inspecting i => i.request.name = name ∧ r.entries.get? name = some (.loaded i.file)
  | .started load => load.name = name
  | .working load _ => load.name = name
  | .answered _ => True

theorem Stage.Fits.congr {r r' : Registry} {name : String} {stage : Stage}
    (h : stage.Fits r name) (he : r'.entries.get? name = r.entries.get? name) :
    stage.Fits r' name := by
  cases stage with
  | inspecting i => exact ⟨h.1, he.trans h.2⟩
  | _ => exact h

namespace Atlas

/-- The registry of an atlas has gone through some steps. -/
def Proceeds (a b : Atlas) : Prop :=
  Relation.ReflTransGen Registry.Proceeds a.registry b.registry

/-- A call of a name has brought an atlas to another one and got to a stage. -/
structure Brings (a : Atlas) (name : String) (b : Atlas) (stage : Stage) : Prop where
  proceeds : a.Proceeds b
  others : ∀ {k}, k ≠ name → b.registry.entries.get? k = a.registry.entries.get? k
  fits : stage.Fits b.registry name

theorem Brings.trans {a b c : Atlas} {name : String} {stage stage' : Stage}
    (h : a.Brings name b stage) (h' : b.Brings name c stage') : a.Brings name c stage' where
  proceeds := h.proceeds.trans h'.proceeds
  others := fun hk => (h'.others hk).trans (h.others hk)
  fits := h'.fits

variable {a : Atlas} {name : String}

theorem brings_pursue {d : Decision} (h : a.Allows name d) :
    a.Brings name (a.pursue name d).1 (a.pursue name d).2 := by
  cases d with
  | load plan =>
    obtain ⟨hname, hprecedes⟩ := h
    rw [← hname] at hprecedes
    refine ⟨.single (.start hprecedes), fun {k} hk => ?_, hname⟩
    show (a.registry.start plan.request.name plan.previous).1.entries.get? k = _
    rw [get?_start, if_neg (hname ▸ hk)]
  | _ => exact ⟨.refl, fun _ => rfl, trivial⟩

/-- The registry says what a call has brought about. -/
theorem Brings.of_registry {b : Atlas} {r : Registry} {stage : Stage} (hr : b.registry = r)
    (hsteps : Relation.ReflTransGen Registry.Proceeds a.registry r)
    (hothers : ∀ {k}, k ≠ name → r.entries.get? k = a.registry.entries.get? k)
    (hfits : stage.Fits r name) : a.Brings name b stage where
  proceeds := by
    rw [Proceeds, hr]
    exact hsteps
  others := fun hk => hr ▸ hothers hk
  fits := hr ▸ hfits

theorem brings_settle {load : Load} (hname : load.name = name) (parser : Parser)
    (opened : OpenedSource) (outcome : Outcome) :
    a.Brings name (a.settle parser load opened).1 (.answered outcome) := by
  subst hname
  rcases a.registry_settle parser load opened with
    ⟨failure, hr⟩ | ⟨f, tree, contentHash, mtime, size, rfl, hr⟩
  · exact .of_registry hr (.single (.fail load.name load.number failure))
      (fun hk => get?_entries_fail _ hk _ _) trivial
  · have hsucceed := Proceeds.succeed (r := a.registry) load.name load.number tree contentHash
      mtime size
    rcases hr with hr | hr
    · exact .of_registry hr (.single hsucceed) (fun hk => get?_entries_succeed _ hk _ _) trivial
    · refine .of_registry hr (.tail (.single hsucceed) (.relink _)) (fun hk => ?_) trivial
      rw [entries_relink]
      exact get?_entries_succeed _ hk _ _

theorem brings_settleUnopened {load : Load} (hname : load.name = name) (fault : OpenFault)
    (outcome : Outcome) :
    a.Brings name (a.settleUnopened load fault).1 (.answered outcome) := by
  subst hname
  cases fault with
  | failed failure =>
    exact .of_registry rfl (.single (.fail load.name load.number failure))
      (fun hk => get?_entries_fail _ hk _ _) trivial
  | crashed crash =>
    exact .of_registry rfl (.single (.abandon load.number crash)) (fun _ => rfl) trivial

/-- A call that fits its name gets one step further. -/
theorem brings_advance (w : World) {stage : Stage} (h : stage.Fits a.registry name) :
    a.Brings name (a.advance w stage).1 (a.advance w stage).2 := by
  cases stage with
  | inspecting i =>
    obtain ⟨rfl, hentry⟩ := h
    exact brings_pursue (a.allows_decideInspected hentry w.disk)
  | started load =>
    exact .of_registry (a.registry_openSource w load) (.single .begin) (fun _ => rfl) h
  | working load source =>
    cases source with
    | ok opened => exact brings_settle h w.parser opened _
    | error fault => exact brings_settleUnopened h fault _
  | answered outcome => exact ⟨.refl, fun _ => rfl, trivial⟩

theorem brings_visit (a : Atlas) (disk : Disk) (request : Request) :
    a.Brings request.name (a.visit disk request).1 (a.visit disk request).2 := by
  unfold visit
  split
  · rename_i i hi
    obtain ⟨rfl, hentry⟩ := inspected_of_inspection? hi
    exact ⟨.refl, fun _ => rfl, rfl, hentry⟩
  · exact brings_pursue (a.allows_decideRefresh disk request)

/-- A call goes on step by step; the world may change between its steps. -/
inductive Works (a : Atlas) (stage : Stage) : Atlas → Stage → Prop
  | refl : Works a stage a stage
  | step {b : Atlas} {stage' : Stage} (h : Works a stage b stage') (w : World) :
      Works a stage (b.advance w stage').1 (b.advance w stage').2

theorem Works.brings {a₀ b : Atlas} {stage stage' : Stage} (h : Works a stage b stage')
    (ha : a₀.Brings name a stage) : a₀.Brings name b stage' := by
  induction h with
  | refl => exact ha
  | step _ w ih => exact ih.trans (brings_advance w ih.fits)

/-- A call may take all its steps in the same world. -/
theorem works_complete (a : Atlas) (w : World) (stage : Stage) :
    Works a stage (a.complete w stage).1 (.answered (a.complete w stage).2) :=
  complete_keeps (P := Works a stage) (fun _ _ _ h => h.step w) .refl

end Atlas

/-! ## Scans -/

namespace Scanning

/-- What steps lead to if the world may change between them. -/
inductive Unfolds (width total : Nat) (s : Scanning) : Scanning → Prop
  | refl : Unfolds width total s s
  | step {w : World} {t t' : Scanning} (h : Unfolds width total s t)
      (hstep : Step w width total t t') : Unfolds width total s t'

theorem Run.unfolds {w : World} {width total : Nat} {s t : Scanning}
    (h : Run w width total s t) : Unfolds width total s t := by
  induction h with
  | refl => exact .refl
  | step _ hstep ih => exact ih.step hstep

/-- The errands of a scan are for distinct names, and fit these names. -/
structure Separate (s : Scanning) : Prop where
  distinct : (s.waiting ++ s.active.map Errand.name).Nodup
  fits : ∀ e ∈ s.active, e.stage.Fits s.atlas.registry e.name

/-- The other errands still fit their names when one of them has advanced. -/
theorem Separate.advance {a b : Atlas} {waiting waiting' settled settled' : List String}
    {active : List Errand} {report report' : ScanReport} {dropped dropped' : List String}
    {e : Errand} (h : Separate ⟨a, waiting, active, settled, report, dropped⟩)
    (front rest : List Errand)
    (hb : a.Brings e.name b e.stage)
    (hothers : ∀ o ∈ front ++ rest, o ∈ active)
    (hdistinct : (waiting' ++ (front ++ e :: rest).map Errand.name).Nodup) :
    Separate ⟨b, waiting', front ++ e :: rest, settled', report', dropped'⟩ where
  distinct := hdistinct
  fits := by
    intro o ho
    have hnames : (e.name :: (front ++ rest).map Errand.name).Nodup :=
      ((List.perm_middle.map Errand.name).nodup_iff.1 hdistinct.of_append_right)
    rcases List.mem_cons.1 (List.perm_middle.subset ho) with rfl | ho
    · exact hb.fits
    · refine (h.fits o (hothers o ho)).congr (hb.others fun heq => ?_)
      exact (List.nodup_cons.1 hnames).1 (heq ▸ List.mem_map_of_mem ho)

/-- The other errands still fit their names when one of them has come back. -/
theorem Separate.comeBack {a b : Atlas} {waiting settled settled' dropped dropped' : List String}
    {front rest : List Errand} {e : Errand} {report report' : ScanReport}
    (h : Separate ⟨a, waiting, front ++ e :: rest, settled, report, dropped⟩)
    (hb : b.registry = a.registry) :
    Separate ⟨b, waiting, front ++ rest, settled', report', dropped'⟩ where
  distinct := by
    refine h.distinct.sublist ((List.Sublist.map _ ?_).append_left waiting)
    exact (List.sublist_cons_self _ _).append_left front
  fits := fun o ho =>
    (h.fits o (List.perm_middle.symm.subset (List.mem_cons_of_mem _ ho))).congr (by rw [hb])

/-- A step of a scan is a step of one of its errands, and the errands stay separate. -/
theorem Step.proceeds {w : World} {width total : Nat} {s t : Scanning}
    (hstep : Step w width total s t) (h : Separate s) :
    s.atlas.Proceeds t.atlas ∧ Separate t := by
  cases hstep with
  | enter a front name rest active settled report dropped hroom =>
    have hvisit := a.brings_visit w.disk { name := name }
    rw [← a.approach_eq_visit] at hvisit
    refine ⟨hvisit.proceeds, h.advance [] active
      (e := ⟨name, a.registry.entries.get? name, (a.approach w.disk name).2⟩) hvisit
      (fun o ho => ho) ?_⟩
    have hperm : ((front ++ name :: rest) ++ active.map Errand.name).Perm
        ((front ++ rest) ++ name :: active.map Errand.name) :=
      (List.perm_middle.append_right _).trans List.perm_middle.symm
    exact hperm.nodup_iff.1 h.distinct
  | advance a waiting front e rest settled report dropped hstage =>
    have hadvance := Atlas.brings_advance w (h.fits e (List.mem_append_right _ (.head _)))
    refine ⟨hadvance.proceeds, h.advance front rest
      (e := { e with stage := (a.advance w e.stage).2 }) hadvance (fun o ho => ?_) ?_⟩
    · exact List.perm_middle.symm.subset (List.mem_cons_of_mem e ho)
    · simpa using h.distinct
  | reply a waiting front name before outcome rest settled report dropped houtcome =>
    exact ⟨.refl, h.comeBack rfl⟩
  | drop a waiting front name before crash rest settled report dropped =>
    exact ⟨.refl, h.comeBack rfl⟩

theorem Unfolds.proceeds {width total : Nat} {s t : Scanning} (h : Unfolds width total s t)
    (hs : Separate s) : s.atlas.Proceeds t.atlas ∧ Separate t := by
  induction h with
  | refl => exact ⟨.refl, hs⟩
  | step _ hstep ih =>
    obtain ⟨hproceeds, hseparate⟩ := hstep.proceeds ih.2
    exact ⟨ih.1.trans hproceeds, hseparate⟩

end Scanning

/-! ## Operations -/

namespace Atlas

/-- What one operation may make of an index, short of a renaming. -/
inductive Operation (a : Atlas) : Atlas → Prop
  | parse (request : Request) {b : Atlas} {outcome : Outcome}
      (h : Works (a.pursue request.name (a.decideParse request)).1
        (a.pursue request.name (a.decideParse request)).2 b (.answered outcome)) : Operation a b
  | refresh (disk : Disk) (request : Request) {b : Atlas} {outcome : Outcome}
      (h : Works (a.visit disk request).1 (a.visit disk request).2 b (.answered outcome)) :
      Operation a b
  /-- A scan whose errands have all come back. -/
  | scan {disk : Disk} {subPaths : Option (List String)} {names : List String} {width : Nat}
      {s : Scanning} (hnames : a.discover disk subPaths = .ok names)
      (hrun : Scanning.Unfolds width names.length { atlas := a, waiting := names } s)
      (hended : s.Ended) : Operation a (s.close names.length).1
  /-- A scan that has raised or is held for good, however far its other errands have got. -/
  | halted {disk : Disk} {subPaths : Option (List String)} {names : List String} {width : Nat}
      {s : Scanning} (hnames : a.discover disk subPaths = .ok names)
      (hrun : Scanning.Unfolds width names.length { atlas := a, waiting := names } s) :
      Operation a s.atlas
  /-- A scan that discovers nothing. -/
  | undiscovered {disk : Disk} {subPaths : Option (List String)} {fault : DiscoveryFault}
      (hfault : a.discover disk subPaths = .error fault) : Operation a a
  | remove (name : String) : Operation a (a.remove name)
  | clear : Operation a a.clear
  | adopt (data : Value) (hdata : Session.HasDistinctFiles data) : Operation a (a.adopt data).1

/-- Replacing everything by the files of a snapshot is a step. -/
theorem proceeds_replaceAll {r : Registry} {data : Value} {snapshot : AtlasSnapshot}
    {files : Ledger SourceFile} (hdata : Session.HasDistinctFiles data)
    (hcheck : AtlasSnapshot.check data = .ok snapshot)
    (hfiles : restoreAll snapshot.files = .ok files) :
    r.Proceeds (r.replaceAll (Path.parse snapshot.directory) files) := by
  refine .replaceAll snapshot.directory ?_ fun entry hentry => ?_
  · exact keys_restoreAll hfiles ▸ Session.nodup_files_of_check hdata hcheck
  · obtain ⟨s, -, hs⟩ := restore_of_mem_restoreAll hfiles hentry
    exact ⟨s, hs⟩

theorem proceeds_adopt (a : Atlas) {data : Value} (hdata : Session.HasDistinctFiles data) :
    a.Proceeds (a.adopt data).1 := by
  refine registry_adopt_keeps (P := Relation.ReflTransGen Registry.Proceeds a.registry) .refl
    (.single .clear) (fun snapshot files hcheck hfiles => ?_) fun _ n hr => hr.tail (.relink n)
  exact .single (proceeds_replaceAll hdata hcheck hfiles)

theorem proceeds_close (s : Scanning) (total : Nat) : s.atlas.Proceeds (s.close total).1 :=
  s.registry_close_keeps (P := Relation.ReflTransGen Registry.Proceeds s.atlas.registry)
    (fun _ n hr => hr.tail (.relink n)) total .refl

theorem separate_discovered (a : Atlas) {disk : Disk} {subPaths : Option (List String)}
    {names : List String} (h : a.discover disk subPaths = .ok names) :
    Scanning.Separate { atlas := a, waiting := names } where
  distinct := (List.append_nil names).symm ▸ nodup_discover h
  fits := fun _ he => by cases he

/-- Whatever an operation does, it takes the registry through steps in which no call overtakes
another. -/
theorem Operation.proceeds {a b : Atlas} (h : a.Operation b) : a.Proceeds b := by
  cases h with
  | parse request hworks =>
    exact (hworks.brings (brings_pursue (a.allows_decideParse request))).proceeds
  | refresh disk request hworks => exact (hworks.brings (a.brings_visit disk request)).proceeds
  | @scan _ _ names _ s hnames hrun hended =>
    exact (hrun.proceeds (a.separate_discovered hnames)).1.trans (proceeds_close s names.length)
  | halted hnames hrun => exact (hrun.proceeds (a.separate_discovered hnames)).1
  | undiscovered hfault => exact .refl
  | remove name => exact .single (.remove name)
  | clear => exact .single .clear
  | adopt data hdata => exact a.proceeds_adopt hdata

/-- Parsing in an unchanging world is an operation. -/
theorem operation_parse (a : Atlas) (w : World) (request : Request) :
    a.Operation (a.parse w request).1 := by
  have hworks := works_complete (a.pursue request.name (a.decideParse request)).1 w
    (a.pursue request.name (a.decideParse request)).2
  rw [complete_pursue] at hworks
  exact .parse request hworks

/-- Refreshing in an unchanging world is an operation. -/
theorem operation_refresh (a : Atlas) (w : World) (request : Request) :
    a.Operation (a.refresh w request).1 := by
  have hworks := works_complete (a.visit w.disk request).1 w (a.visit w.disk request).2
  rw [complete_visit] at hworks
  exact .refresh w.disk request hworks

/-- A scan in an unchanging world is an operation. -/
theorem Scans.operation {a : Atlas} {w : World} {subPaths : Option (List String)} {width : Nat}
    {out : Atlas × Except ScanFault ScanReport} (h : a.Scans w subPaths width out) :
    a.Operation out.1 := by
  cases h with
  | undiscovered hfault => exact .undiscovered hfault
  | ended hnames hrun hended => exact .scan hnames hrun.unfolds hended
  | raised hnames hrun hcrash => exact .halted hnames hrun.unfolds

/-! ## Histories -/

/-- What operations lead to, one after the other, if only certain renamings are made. -/
inductive History (permitted : Registry → String → String → Prop) : Atlas → Prop
  | empty (directory : String) (settings : Settings)
      (realpath : String → String := Path.resolvedText) :
      History permitted (Atlas.empty (Path.parse directory) settings realpath)
  | operate {a b : Atlas} (ha : History permitted a) (h : a.Operation b) : History permitted b
  | rename {a : Atlas} (ha : History permitted a) {old new : String}
      (h : permitted a.registry old new) : History permitted (a.rename old new)

namespace History

variable {permitted : Registry → String → String → Prop} {a : Atlas}

/-- What holds of an empty registry, and is kept by all steps and by the permitted renamings, holds
throughout. -/
theorem keeps {P : Registry → Prop}
    (hempty : ∀ directory realpath, P { directory := Path.parse directory, realpath := realpath })
    (hstep : ∀ {r r'}, Registry.Proceeds r r' → P r → P r')
    (hrename : ∀ {r r' old new}, permitted r old new → r.rename old new = .ok r' → P r → P r')
    (h : History permitted a) : P a.registry := by
  induction h with
  | empty directory settings realpath => exact hempty _ realpath
  | operate _ hop ih => exact Registry.Proceeds.keep_of_steps hstep hop.proceeds ih
  | @rename b _ old new hpermitted ih =>
    exact registry_rename_keeps ih fun r hr => hrename hpermitted hr ih

theorem coherent (h : History permitted a) : a.registry.Coherent :=
  h.keeps (fun _ _ => .empty _) Registry.Proceeds.coherent fun _ hok hr => hr.rename hok

theorem lineage (h : History permitted a) : a.registry.Lineage :=
  h.keeps (fun directory _ => ⟨Path.proper_parse directory, fun hn => by cases hn⟩)
    Registry.Proceeds.lineage fun _ hok hr => hr.rename hok

end History

end Atlas

end SymbolAtlas
