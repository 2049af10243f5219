import Mathlib
import SymbolAtlas.Proofs.Atlas.Relinking
import SymbolAtlas.Proofs.Registry.Lasting
import SymbolAtlas.Proofs.SourceFile.Sound
import SymbolAtlas.Proofs.Text.Path

/-!
# Where the files of a session come from

Every file of a reachable session that is no empty shell was made under some name, and the directory
of its atlas is a proper path (`Session.Reachable.lineage`).  The registry adds files, detaches,
renames and links them, and does nothing else to them.
-/

namespace SymbolAtlas

/-- The file is an empty shell, or it was made under some name. -/
def SourceFile.HasOrigin (f : SourceFile) : Prop :=
  f.detached = true ∨ ∃ origin, f.Made origin

theorem SourceFile.isLasting_hasOrigin : IsLasting HasOrigin where
  detach := fun _ => Or.inl rfl
  rename := by
    rintro f name (hd | ⟨origin, hf⟩)
    · exact Or.inl hd
    · exact Or.inr ⟨origin, hf.renamed name⟩
  relink := by
    rintro f resolve (hd | ⟨origin, hf⟩)
    · exact Or.inl (f.upToLinks_relink.detached.trans hd)
    · exact Or.inr ⟨origin, hf.relinked resolve⟩

namespace Registry

/-! ## The directory stays -/

section Directory

variable (r : Registry)

theorem directory_forget (n : Nat) : (r.forget n).directory = r.directory := by
  unfold forget
  split <;> rfl

theorem directory_forgetReplaced (name : String) :
    (r.forgetReplaced name).directory = r.directory := by
  unfold forgetReplaced
  split
  · exact directory_forget _ _
  · rfl

theorem directory_fail (name : String) (load : Nat) (failure : Failure) :
    (r.fail name load failure).directory = r.directory := by
  unfold fail
  split
  · exact directory_forgetReplaced _ name
  · rfl

theorem directory_succeed (name : String) (load : Nat) (f : SourceFile) :
    (r.succeed name load f).1.directory = r.directory := by
  cases hawaits : r.awaits name load with
  | false =>
    rw [succeed_of_superseded f hawaits]
    rfl
  | true =>
    rw [succeed_of_awaited hawaits]
    exact directory_forgetReplaced _ name

theorem directory_remove (name : String) : (r.remove name).directory = r.directory := by
  unfold remove
  simp only
  split
  · exact directory_forget _ _
  · exact directory_forgetReplaced _ name
  · rfl

theorem directory_rename {r : Registry} {old new : String} {r' : Registry}
    (h : r.rename old new = .ok r') : r'.directory = r.directory := by
  obtain ⟨n, -, -, rfl⟩ := rename_eq_ok h
  rfl

theorem directory_clear : r.clear.directory = r.directory :=
  clear_keeps (P := fun s => s.directory = r.directory) rfl (fun _ _ hs => hs) fun _ _ hs => hs

end Directory

/-! ## Lineage -/

/-- The directory is a proper path, and every file has an origin. -/
structure Lineage (r : Registry) : Prop where
  directory : r.directory.Proper
  files : ∀ {n : Nat} {f : SourceFile}, r.files[n]? = some f → f.HasOrigin

namespace Lineage

open SourceFile

variable {r : Registry} (h : Lineage r)

include h

theorem allFiles : AllFiles HasOrigin r :=
  fun _ _ => h.files

/-- The directory has stayed, and all files still have an origin. -/
theorem of_allFiles {r' : Registry} (hd : r'.directory = r.directory)
    (hf : AllFiles HasOrigin r') : Lineage r' :=
  ⟨hd ▸ h.directory, fun hn => hf _ _ hn⟩

theorem congr {r' : Registry} (hd : r'.directory = r.directory) (hf : r'.files = r.files) :
    Lineage r' :=
  h.of_allFiles hd (h.allFiles.congr hf)

theorem start (name : String) (previous : Option Nat) : Lineage (r.start name previous).1 := by
  cases previous <;> exact h.congr rfl rfl

theorem fail (name : String) (load : Nat) (failure : Failure) :
    Lineage (r.fail name load failure) :=
  h.of_allFiles (r.directory_fail name load failure)
    (.fail isLasting_hasOrigin h.allFiles name load failure)

theorem succeed (name : String) (load : Nat) {f : SourceFile} (hf : f.HasOrigin) :
    Lineage (r.succeed name load f).1 :=
  h.of_allFiles (r.directory_succeed name load f)
    (.succeed isLasting_hasOrigin h.allFiles name load hf)

theorem remove (name : String) : Lineage (r.remove name) :=
  h.of_allFiles (r.directory_remove name) (.remove isLasting_hasOrigin h.allFiles name)

theorem rename {old new : String} {r' : Registry} (hr : r.rename old new = .ok r') :
    Lineage r' :=
  h.of_allFiles (directory_rename hr) (.rename isLasting_hasOrigin h.allFiles hr)

theorem clear : Lineage r.clear :=
  h.of_allFiles r.directory_clear (.clear isLasting_hasOrigin h.allFiles)

theorem replaceAll {directory : Path} (hd : directory.Proper) {files : Ledger SourceFile}
    (hfiles : ∀ entry ∈ files, ∃ origin, entry.2.Made origin) :
    Lineage (r.replaceAll directory files) where
  directory :=
    replaceAll_keeps (P := fun s => s.directory.Proper) hd fun _ _ _ hs => hs
  files := fun hn => AllFiles.replaceAll isLasting_hasOrigin h.allFiles directory
    (fun entry hentry => Or.inr (hfiles entry hentry)) _ _ hn

theorem relink (n : Nat) : Lineage (r.relink n).1 :=
  h.of_allFiles (congrArg Site.directory (site_relink r n))
    (.relink isLasting_hasOrigin h.allFiles n)

end Lineage

end Registry

namespace Session

open Registry

variable {s s' : Session}

theorem lineage_follow (h : s.atlas.registry.Lineage) (name : String) (d : Decision) :
    (s.follow name d).atlas.registry.Lineage := by
  cases d with
  | join load => exact h
  | crash crash => exact h
  | keep n => exact h.congr rfl rfl
  | load plan => exact h.start plan.request.name plan.previous

/-- Every step keeps the lineage. -/
theorem Step.lineage (hstep : Step s s') (h : s.atlas.registry.Lineage) :
    s'.atlas.registry.Lineage := by
  cases hstep with
  | parse _ request => exact lineage_follow h _ _
  | refresh _ disk request => exact lineage_follow h _ _
  | begin a before after working load w =>
    rw [Atlas.registry_openSource]
    exact h.congr rfl rfl
  | settle a started before after load parser opened =>
    refine Atlas.registry_settle_keeps (fun failure => h.fail load.name load.number failure)
      (fun tree contentHash mtime size => ?_) fun r n hr => hr.relink n
    exact h.succeed load.name load.number (Or.inr ⟨load.name, .parsed tree contentHash mtime size⟩)
  | settleUnopened a started before after load fault =>
    exact Atlas.registry_settleUnopened_keeps (fun failure => h.fail load.name load.number failure)
      fun crash => h.congr rfl rfl
  | remove _ name => exact h.remove name
  | rename _ old new => exact Atlas.registry_rename_keeps h fun r hr => h.rename hr
  | clear _ => exact h.clear
  | adopt _ data hdata =>
    refine Atlas.registry_adopt_keeps h h.clear (fun snapshot files _ hfiles => ?_)
      fun r n hr => hr.relink n
    refine h.replaceAll (Path.proper_parse _) fun entry hentry => ?_
    obtain ⟨fs, -, hfs⟩ := restore_of_mem_restoreAll hfiles hentry
    exact ⟨fs.name, .restored rfl hfs⟩
  | relink _ n =>
    rw [Atlas.registry_relink]
    exact h.relink n

theorem Reachable.lineage (h : Reachable s) : s.atlas.registry.Lineage := by
  induction h with
  | fresh directory settings realpath =>
    refine ⟨Path.proper_parse _, fun {n f} hn => ?_⟩
    cases hn
  | step _ hstep ih => exact hstep.lineage ih

end Session

end SymbolAtlas
