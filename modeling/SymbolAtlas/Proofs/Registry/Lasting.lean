import Mathlib
import SymbolAtlas.Proofs.Registry.Steadiness

/-!
# What is true of all files

A registry adds files, and it detaches, renames and links those it has.  So what is true of every
file that is added and is kept by these three changes is true of all files, whatever the registry
does (`Registry.AllFiles`).
-/

namespace SymbolAtlas

/-- What detaching, renaming and linking a file keep. -/
structure SourceFile.IsLasting (P : SourceFile → Prop) : Prop where
  detach : ∀ {f}, P f → P f.detach
  rename : ∀ {f} (name : String), P f → P (f.rename name)
  relink : ∀ {f} (resolve : Value → Except SourceFile.BadName (Option Nat)), P f →
    P (f.relink resolve).1

namespace Registry

/-- All files have a property. -/
def AllFiles (P : SourceFile → Prop) (r : Registry) : Prop :=
  ∀ (n : Nat) (f : SourceFile), r.files[n]? = some f → P f

namespace AllFiles

open SourceFile

variable {P : SourceFile → Prop} (hP : IsLasting P) {r : Registry} (h : AllFiles P r)

theorem congr (h : AllFiles P r) {r' : Registry} (hf : r'.files = r.files) : AllFiles P r' := by
  intro n f hn
  exact h n f (hf ▸ hn)

theorem modifyFile (h : AllFiles P r) (n : Nat) {change : SourceFile → SourceFile}
    (hchange : ∀ f, P f → P (change f)) : AllFiles P (r.modifyFile n change) := by
  intro m f hf
  rw [Registry.modifyFile, Array.getElem?_modify] at hf
  split at hf
  · obtain ⟨g, hg, rfl⟩ := Option.map_eq_some_iff.1 hf
    exact hchange g (h m g hg)
  · exact h m f hf

theorem addFile (h : AllFiles P r) {f : SourceFile} (hf : P f) : AllFiles P (r.addFile f).1 := by
  intro m g hg
  rw [Registry.addFile, Array.getElem?_push] at hg
  split at hg
  · cases hg
    exact hf
  · exact h m g hg

include hP h

theorem forget (n : Nat) : AllFiles P (r.forget n) := by
  unfold Registry.forget
  split
  · exact (h.modifyFile n fun f hf => hP.detach hf).congr rfl
  · exact h

theorem forgetReplaced (name : String) : AllFiles P (r.forgetReplaced name) := by
  unfold Registry.forgetReplaced
  split
  · exact forget hP (r := { r with replaced := r.replaced.erase name }) (h.congr rfl) _
  · exact h

theorem relink (n : Nat) : AllFiles P (r.relink n).1 := by
  unfold Registry.relink
  split
  · rename_i f hf
    exact h.modifyFile n fun _ _ => hP.relink _ (h n f hf)
  · exact h

theorem fail (name : String) (load : Nat) (failure : Failure) :
    AllFiles P (r.fail name load failure) := by
  unfold Registry.fail
  split
  · have hforgotten := forgetReplaced hP (r := { r with
      entries := r.entries.erase name
      failures := r.failures.set name failure
      tally := { r.tally with error := r.tally.error + 1 } }) (h.congr rfl) name
    exact hforgotten.congr rfl
  · exact h.congr rfl

theorem succeed (name : String) (load : Nat) {f : SourceFile} (hf : P f) :
    AllFiles P (r.succeed name load f).1 := by
  cases hawaits : r.awaits name load with
  | false =>
    rw [succeed_of_superseded f hawaits]
    exact AllFiles.addFile (r := r.endWork) (h.congr rfl) (hP.detach hf)
  | true =>
    rw [succeed_of_awaited hawaits]
    have hentering : AllFiles P (r.entering name f) := (h.addFile hf).congr rfl
    exact (forgetReplaced hP hentering name).congr rfl

theorem remove (name : String) : AllFiles P (r.remove name) := by
  have herased : AllFiles P { r with
      entries := r.entries.erase name, failures := r.failures.erase name } := h.congr rfl
  unfold Registry.remove
  simp only
  split
  · exact forget hP herased _
  · exact forgetReplaced hP herased name
  · exact herased

theorem rename {old new : String} {r' : Registry} (hok : r.rename old new = .ok r') :
    AllFiles P r' := by
  obtain ⟨n, -, -, rfl⟩ := rename_eq_ok hok
  exact (h.modifyFile n fun f hf => hP.rename new hf).congr rfl

theorem clear : AllFiles P r.clear :=
  clear_keeps h (fun _ n hs => AllFiles.modifyFile hs n fun _ hf => hP.detach hf)
    fun _ _ hs => hs.congr rfl

theorem replaceAll (directory : Path) {files : Ledger SourceFile}
    (hfiles : ∀ entry ∈ files, P entry.2) : AllFiles P (r.replaceAll directory files) := by
  refine replaceAll_keeps ((clear hP h).congr rfl) fun s entry hentry hs => ?_
  exact (hs.addFile (hP.rename entry.1 (hfiles entry hentry))).congr rfl

end AllFiles

end Registry

end SymbolAtlas
