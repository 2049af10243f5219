import Mathlib
import SymbolAtlas.Proofs.Atlas.Mirror
import SymbolAtlas.Proofs.Atlas.Provenance

/-!
# Files that were looked up again

Looking up the directives of a file any number of times, against whatever is indexed at the time,
changes nothing but links; and once they are looked up a last time, the links say nothing of the
times before.  So two versions of a file that were last looked up among the same names have the same
snapshot (`SourceFile.Traced.snapshot_eq`).
-/

namespace SymbolAtlas

namespace SourceFile

/-- The second file is the first one after any number of look-ups. -/
inductive Relinked (f : SourceFile) : SourceFile → Prop
  | refl : Relinked f f
  | relink {g : SourceFile} (h : Relinked f g)
      (resolve : Value → Except BadName (Option Nat)) : Relinked f (g.relink resolve).1

namespace Relinked

variable {f g h : SourceFile}

theorem single (f : SourceFile) (resolve : Value → Except BadName (Option Nat)) :
    Relinked f (f.relink resolve).1 :=
  .relink .refl resolve

theorem upToLinks (h : Relinked f g) : UpToLinks f g := by
  induction h with
  | refl => exact .refl f
  | relink _ resolve ih => exact ih.trans (upToLinks_relink _)

theorem queue_eq (h : Relinked f g) : g.queue = f.queue := by
  induction h with
  | refl => rfl
  | relink _ resolve ih => exact (queue_relink _).trans ih

theorem queues (h : Relinked f g) {origin : String} {before : Nat → Value}
    (hf : Queues f origin before) : Queues g origin before := by
  induction h with
  | refl => exact hf
  | relink _ resolve ih => exact ih.relink

end Relinked

/-! ## Last look-ups -/

section Last

variable {f f₁ f₂ g₁ g₂ : SourceFile} {resolve₁ resolve₂ : Value → Except BadName (Option Nat)}
  {nameOf₁ nameOf₂ : Nat → Option String} {missed₁ missed₂ : Nat} (h₁ : Relinked f f₁)
  (h₂ : Relinked f f₂) (hg₁ : f₁.relink resolve₁ = (g₁, .ok missed₁))
  (hg₂ : f₂.relink resolve₂ = (g₂, .ok missed₂))

include h₁ h₂ hg₁ hg₂

theorem upToLinks_last : UpToLinks f g₁ ∧ UpToLinks f g₂ := by
  have hlast₁ := (h₁.relink resolve₁).upToLinks
  have hlast₂ := (h₂.relink resolve₂).upToLinks
  rw [hg₁] at hlast₁
  rw [hg₂] at hlast₂
  exact ⟨hlast₁, hlast₂⟩

/-- An empty shell has no directives that could lead anywhere. -/
theorem IsShell.snapshot_eq (hf : f.IsShell) : g₂.snapshot nameOf₂ = g₁.snapshot nameOf₁ := by
  obtain ⟨hlast₁, hlast₂⟩ := upToLinks_last h₁ h₂ hg₁ hg₂
  have hnone : ∀ {g : SourceFile}, UpToLinks f g → g.heldEntities = [] := by
    intro g hg
    have hsize : g.outline.entities.size ≤ 1 := by
      have hone := hf.size
      rwa [← hg.size_outline] at hone
    rw [heldEntities, hg.detached, hf.detached, if_pos rfl]
    exact List.drop_eq_nil_of_le (by simpa using hsize)
  simp only [snapshot, hnone hlast₁, hnone hlast₂, hlast₁.name_eq, hlast₂.name_eq,
    hlast₁.contentHash, hlast₂.contentHash, hlast₁.mtime, hlast₂.mtime, hlast₁.size, hlast₂.size,
    hlast₁.home, hlast₂.home, hlast₁.namespaces, hlast₂.namespaces, hlast₁.externals,
    hlast₂.externals]
  rfl

variable (hnames : ∀ candidates, (linkTo resolve₂ candidates).target? nameOf₂ =
  (linkTo resolve₁ candidates).target? nameOf₁)

include hnames

theorem Sound.mirrors_last {origin : String} (hf : f.Sound origin) :
    g₁.Mirrors g₂ nameOf₁ nameOf₂ := by
  obtain ⟨hlast₁, hlast₂⟩ := upToLinks_last h₁ h₂ hg₁ hg₂
  obtain ⟨before, hqueues⟩ := hf.queues
  have halike : Outline.Alike g₁.outline g₂.outline := by
    have h₁' := hlast₁.alike hf.wellOwned
    have h₂' := hlast₂.alike hf.wellOwned
    refine ⟨fun i => ?_, fun i => ?_, ?_, ?_, ?_, h₁'.wellOwned', h₂'.wellOwned'⟩
    · rw [h₁'.plain, h₂'.plain]
    · rw [h₁'.shown, h₂'.shown]
    · rw [h₁'.home, h₂'.home]
    · rw [h₁'.namespaces, h₂'.namespaces]
    · rw [h₁'.externals, h₂'.externals]
  refine ⟨halike, hlast₂.contentHash.trans hlast₁.contentHash.symm,
    hlast₂.mtime.trans hlast₁.mtime.symm, hlast₂.size.trans hlast₁.size.symm,
    hlast₁.detached.trans hf.detached, hlast₂.detached.trans hf.detached, ?_⟩
  intro i inc inc' hinc hinc'
  obtain ⟨hlink, -⟩ := (h₁.queues hqueues).link_relink hg₁ hinc
  obtain ⟨hlink', -⟩ := (h₂.queues hqueues).link_relink hg₂ hinc'
  have hbare : inc'.bare = inc.bare := by
    have hsame := bare_directive?_of_alike halike i
    rw [hinc, hinc'] at hsame
    exact Option.some.inj hsame
  rw [hlink, hlink', candidates_congr hbare, hnames]

/-- Versions of a file that were last looked up among the same names have the same snapshot. -/
theorem Traced.snapshot_eq (hf : f.Traced) : g₂.snapshot nameOf₂ = g₁.snapshot nameOf₁ := by
  rcases hf with hshell | ⟨origin, hmade⟩
  · exact hshell.snapshot_eq h₁ h₂ hg₁ hg₂
  · exact (hmade.sound.mirrors_last h₁ h₂ hg₁ hg₂ hnames).snapshot_eq

end Last

end SourceFile

end SymbolAtlas
