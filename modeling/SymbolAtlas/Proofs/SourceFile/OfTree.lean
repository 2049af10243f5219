import Mathlib
import SymbolAtlas.Proofs.Node.Contribution
import SymbolAtlas.Proofs.SourceFile.Linking

/-!
# The file of a tree

A tree is read into a blank file with a home namespace, which is ready for a walk
(`SourceFile.ready_blank`).  The walk enters what the tree declares; queueing the include directives
and closing the scopes change nothing that was stated.  So the entities of the file are the file,
its home and then, number by number, what the tree contributes (`SourceFile.summaries_ofTree`), and
no node is refused (`SourceFile.refusals_ofTree`).
-/

namespace SymbolAtlas

/-- What is stated of an entity, with its owner. -/
structure Summary where
  feature : Feature
  name : Option String
  span : Option Span
  owner : Option Nat

/-- What is stated of an entity. -/
def Entity.summary (e : Entity) : Summary where
  feature := e.feature
  name := e.name
  span := e.span
  owner := e.parent

/-- What a tree states of an entity. -/
def Descriptor.summary (d : Descriptor) : Summary where
  feature := d.feature
  name := d.name
  span := d.span
  owner := some d.owner

namespace Summary

/-- The file itself. -/
def file (name : String) (span : Option Span) : Summary where
  feature := .scope .file
  name := some name
  span := span
  owner := none

/-- The namespace that every file starts in. -/
def home : Summary where
  feature := .scope .namespaceScope
  name := some Qualified.globalName
  span := none
  owner := some 0

end Summary

theorem Entity.summary_bare (e : Entity) : e.bare.summary = e.summary := by
  obtain ⟨detail, name, parent, span, doc⟩ := e
  cases detail <;> rfl

theorem Declaration.summary_entity (d : Declaration) :
    ({ d.entity with parent := some d.owner } : Entity).summary = d.descriptor.summary := by
  rw [← d.owner_descriptor]
  rfl

theorem Outline.map_summary_bares (o : Outline) :
    o.bares.map Entity.summary = o.entities.toList.map Entity.summary := by
  rw [bares, List.map_map]
  exact List.map_congr_left fun e _ => e.summary_bare

namespace SourceFile

open Outline

/-! ## Blank files -/

theorem wellOwned_empty (name : String) (span : Option Span) :
    WellOwned (Outline.empty name span) := by
  have hget : ∀ i, 0 < i → (Outline.empty name span).get? i = none := by
    intro i hi
    exact get?_eq_none_iff.2 hi
  refine ⟨rfl, rfl, rfl, ?_, ?_, ?_⟩
  · intro i hi hlt
    exact absurd hlt (Nat.not_lt.2 hi)
  · intro i hi
    rw [scopeKind?, hget i hi]
    simp
  · intro p
    have hnone : (Outline.empty name span).owner? 0 = none := rfl
    have hrange : List.range (Outline.empty name span).size = [0] := rfl
    rw [hrange, owned_eq]
    rcases Nat.eq_zero_or_pos p with rfl | hp
    · simp only [List.filter_cons, hnone]
      rfl
    · simp [hnone, hget p hp]

theorem ready_blank (name : String) (span : Option Span) :
    Ready (blank name span true).outline := by
  have hw := wellOwned_empty name span
  have hadd := hw.add (p := 0) (by rw [hw.root]; rfl)
    (e := Entity.newNamespace Qualified.globalName none none) rfl
    (by simp [Entity.newNamespace, Entity.scopeKind?])
  refine ⟨hadd.congr rfl fun i => rfl, ?_, 1, rfl, rfl⟩
  intro i e b he hb
  rcases i with _ | _ | i
  · cases he
    cases hb
    rfl
  · cases he
    cases hb
    rfl
  · cases he

theorem canonical_globalName : Qualified.canonical Qualified.globalName = Qualified.globalName := by
  decide

theorem summaries_blank (name : String) (span : Option Span) :
    (blank name span true).outline.bares.map Entity.summary =
      [Summary.file name span, Summary.home] := by
  have hbares : (blank name span true).outline.bares =
      (Outline.empty name span).bares ++
        [{ Entity.newNamespace Qualified.globalName none none with parent := some 0 }] :=
    bares_add (o := Outline.empty name span) rfl 0 _
  have hhome : ({ Entity.newNamespace Qualified.globalName none none with
      parent := some 0 } : Entity).summary = Summary.home := by
    simp only [Entity.newNamespace, canonical_globalName]
    rfl
  rw [hbares, List.map_append, List.map_singleton, hhome]
  rfl

theorem isClass_blank (name : String) (span : Option Span) :
    (blank name span true).outline.isClass 0 = false := by
  rw [isClass, (ready_blank name span).wellOwned.root]
  rfl

/-! ## Files of trees -/

section OfTree

variable (name : String) (tree : Value) (contentHash : Option String) (mtime : Option Double)
  (size : Option Int)

/-- The declarations of a tree, in the order of their numbers. -/
def declarations : List Declaration :=
  (Node.declaresAll 0 false 2 none (Node.ofValue (statements tree))).1

/-- Walking the statements of a tree into a blank file enters the declarations of the tree. -/
theorem enters_declarations :
    Walk.Enters { outline := (blank name (spanOf tree) true).outline }
      ((blank name (spanOf tree) true).outline.populate 0 (Node.ofValue (statements tree)))
      (declarations tree) := by
  have hr := ready_blank name (spanOf tree)
  have hroot : ((blank name (spanOf tree) true).outline.scopeKind? 0).isSome := by
    rw [hr.wellOwned.root]
    rfl
  have h := (Walk.visitAll_spec (Node.ofValue (statements tree)) 0 none
    { outline := (blank name (spanOf tree) true).outline } hr hroot).enters
  rw [isClass_blank] at h
  exact h

/-- The outline of a file once the declarations of its tree have been entered. -/
def entered : Outline :=
  (blank name (spanOf tree) true).outline.enterAll (declarations tree)

theorem ready_entered : Ready (entered name tree) :=
  (enters_declarations name tree).admits.ready (ready_blank name (spanOf tree))

theorem bares_entered :
    (entered name tree).bares = (blank name (spanOf tree) true).outline.bares ++
      (declarations tree).map fun d => { d.entity with parent := some d.owner } :=
  (enters_declarations name tree).admits.bares_enterAll (ready_blank name (spanOf tree))

/-- The file of a tree: the declarations are entered, the include directives are queued, and all
scopes are closed. -/
theorem ofTree_fst :
    (ofTree name tree contentHash mtime size).1 =
      (enqueueEach { outline := entered name tree, contentHash, mtime, size }
        ((entered name tree).externals.map fun id => (id, .null))).close := by
  have h := (enters_declarations name tree).eq
  simp only [ofTree, absorb, h, enqueueEach, List.foldl_map]
  rfl

theorem upToLinks_ofTree :
    UpToLinks { outline := entered name tree, contentHash, mtime, size }
      (ofTree name tree contentHash mtime size).1 := by
  rw [ofTree_fst]
  exact (upToLinks_enqueueEach _ _).trans (upToLinks_close _)

/-- No node of a tree is refused. -/
theorem refusals_ofTree : (ofTree name tree contentHash mtime size).2 = [] := by
  have h := (enters_declarations name tree).eq
  simp only [ofTree, absorb, h]

theorem bares_ofTree :
    (ofTree name tree contentHash mtime size).1.outline.bares = (entered name tree).bares := by
  rw [(upToLinks_ofTree name tree contentHash mtime size).bares]

theorem size_ofTree :
    (ofTree name tree contentHash mtime size).1.outline.size = 2 + (declarations tree).length := by
  rw [← length_bares, bares_ofTree, length_bares]
  exact (enters_declarations name tree).admits.size_enterAll (ready_blank name (spanOf tree))

theorem wellOwned_ofTree : WellOwned (ofTree name tree contentHash mtime size).1.outline :=
  (upToLinks_ofTree name tree contentHash mtime size).wellOwned (ready_entered name tree).wellOwned

theorem name_ofTree : (ofTree name tree contentHash mtime size).1.name = name := by
  rw [name_eq_bares, bares_ofTree, bares_entered]
  rfl

/-- No declaration is lost and none is made up: the entities of a file are the file, its home and,
number by number, what the tree contributes. -/
theorem summaries_ofTree :
    (ofTree name tree contentHash mtime size).1.outline.entities.toList.map Entity.summary =
      Summary.file name (spanOf tree) :: Summary.home ::
        ((statements tree).contribution 0 false 2).map Descriptor.summary := by
  have hdeclared : ((declarations tree).map
      fun d => ({ d.entity with parent := some d.owner } : Entity)).map Entity.summary =
      ((statements tree).contribution 0 false 2).map Descriptor.summary := by
    rw [← Node.describesAll_ofValue, Node.describesAll, List.map_map, List.map_map]
    exact List.map_congr_left fun d _ => d.summary_entity
  rw [← map_summary_bares, bares_ofTree, bares_entered, List.map_append, summaries_blank, hdeclared]
  rfl

end OfTree

end SourceFile

end SymbolAtlas
