import Mathlib
import SymbolAtlas.Proofs.Atlas.Course
import SymbolAtlas.Proofs.Registry.Lasting

/-!
# Where the files of a course come from

Whatever happens in a course, what lasts and is true of every file when it is made is true of all
files (`Course.Reachable.allFiles`).  In particular every file is traced: it was made under some
name, or it is an empty shell without directives (`Course.Reachable.traced`).
-/

namespace SymbolAtlas

namespace Atlas

open SourceFile Registry

variable {P : SourceFile → Prop} (hP : IsLasting P) {a : Atlas} (h : AllFiles P a.registry)

include hP h

theorem allFiles_settle (ending : Ending) (load : Load)
    (hparsed : ∀ tree contentHash mtime size, P (ofTree load.name tree contentHash mtime size).1) :
    AllFiles P (ending.settle a load).1.registry :=
  ending.registry_settle_keeps (AllFiles.fail hP h load.name load.number) (fun _ => h.congr rfl)
    (fun tree contentHash mtime size =>
      AllFiles.succeed hP h load.name load.number (hparsed tree contentHash mtime size))
    fun _ n hr => AllFiles.relink hP hr n

theorem allFiles_rename (old new : String) : AllFiles P (a.rename old new).registry :=
  registry_rename_keeps h fun _ hr => AllFiles.rename hP h hr

theorem allFiles_relink (n : Nat) : AllFiles P (a.relink n).1.registry := by
  rw [registry_relink]
  exact AllFiles.relink hP h n

theorem allFiles_adopt {data : Value}
    (hrestored : ∀ snapshot, AtlasSnapshot.check data = .ok snapshot →
      ∀ entry ∈ snapshot.files, ∀ f, entry.2.restore = .ok f → P f) :
    AllFiles P (a.adopt data).1.registry := by
  refine registry_adopt_keeps h (AllFiles.clear hP h) (fun snapshot files hcheck hfiles => ?_)
    fun _ n hr => AllFiles.relink hP hr n
  refine AllFiles.replaceAll hP h _ fun entry hentry => ?_
  obtain ⟨s, hs, hrestore⟩ := restore_of_mem_restoreAll hfiles hentry
  exact hrestored snapshot hcheck _ hs entry.2 hrestore

end Atlas

namespace Course

open SourceFile Registry

variable {P : SourceFile → Prop} (hP : IsLasting P)
  (hparsed : ∀ name tree contentHash mtime size, P (ofTree name tree contentHash mtime size).1)

include hP hparsed

/-- A move keeps what is true of all files, if it lasts and is true of every file that is parsed,
and of every file that the move takes over. -/
theorem allFiles_perform {c : Course} (h : AllFiles P c.atlas.registry) {move : Move}
    (hadopted : ∀ data, move = .adopt data → ∀ snapshot, AtlasSnapshot.check data = .ok snapshot →
      ∀ entry ∈ snapshot.files, ∀ f, entry.2.restore = .ok f → P f) :
    AllFiles P (c.perform move).atlas.registry := by
  exact registry_perform_keeps h
    (fun name previous => h.congr (files_start c.atlas.registry name previous)) (h.congr rfl)
    (fun ending load => Atlas.allFiles_settle hP h ending load (hparsed load.name))
    (AllFiles.remove hP h) (Atlas.allFiles_rename hP h) (AllFiles.clear hP h)
    (fun data hmove => Atlas.allFiles_adopt hP h (hadopted data hmove)) (Atlas.allFiles_relink hP h)

/-- What lasts, and is true of every file when it is made, is true of all files. -/
theorem Reachable.allFiles (hrestored : ∀ (s : FileSnapshot) f, s.restore = .ok f → P f)
    {c : Course} (hc : c.Reachable) : AllFiles P c.atlas.registry := by
  induction hc with
  | fresh directory settings realpath =>
    intro n f hf
    cases hf
  | perform _ move ih =>
    exact allFiles_perform hP hparsed ih fun _ _ _ _ entry _ f => hrestored entry.2 f

end Course

/-! ## Traced files -/

namespace SourceFile

/-- The file is an empty shell: its queue is empty, and it declares nothing. -/
structure IsShell (f : SourceFile) : Prop where
  detached : f.detached = true
  queue : f.queue = []
  size : f.outline.size ≤ 1

/-- The file was made under some name, or it is an empty shell. -/
def Traced (f : SourceFile) : Prop :=
  f.IsShell ∨ ∃ origin, f.Made origin

theorem isShell_detach (f : SourceFile) : f.detach.IsShell where
  detached := rfl
  queue := rfl
  size := by
    simp only [detach, Outline.size, Array.size_extract]
    omega

theorem isLasting_traced : IsLasting Traced where
  detach := fun _ => Or.inl (isShell_detach _)
  rename := by
    rintro f name (hshell | ⟨origin, hmade⟩)
    · refine Or.inl ⟨hshell.detached, hshell.queue, ?_⟩
      rw [rename, Outline.size_modify]
      exact hshell.size
    · exact Or.inr ⟨origin, hmade.renamed name⟩
  relink := by
    rintro f resolve (hshell | ⟨origin, hmade⟩)
    · have hsame : UpToLinks f (f.relink resolve).1 := f.upToLinks_relink
      refine Or.inl ⟨hsame.detached.trans hshell.detached, ?_, ?_⟩
      · rw [queue_relink]
        exact hshell.queue
      · rw [hsame.size_outline]
        exact hshell.size
    · exact Or.inr ⟨origin, hmade.relinked resolve⟩

end SourceFile

theorem Course.Reachable.traced {c : Course} (hc : c.Reachable) :
    Registry.AllFiles SourceFile.Traced c.atlas.registry :=
  hc.allFiles SourceFile.isLasting_traced
    (fun name tree contentHash mtime size => Or.inr ⟨name, .parsed tree contentHash mtime size⟩)
    fun _ _ hf => Or.inr ⟨_, .restored rfl hf⟩

end SymbolAtlas
