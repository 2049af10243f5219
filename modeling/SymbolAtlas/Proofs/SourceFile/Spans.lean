import Mathlib
import SymbolAtlas.Proofs.ParseTree.Placement
import SymbolAtlas.Proofs.SourceFile.Views

/-!
# Spans in the file of a parse tree

In the file of a parse tree whatever has a span lies within the span of its owner, provided that the
conversion keeps the ranges of the tree nested (`SourceFile.spansNested_program`).  This is what
makes the descent from the file to an offset meaningful: an offset in a scope lies in every scope
around it (`Outline.SpansNested.covers_of_mem_ancestors`).  An else-if clause that is followed by
another clause breaks it, since the later clause is nested in a block that ends before it starts.
-/

namespace SymbolAtlas

namespace Outline

/-- Whatever has a span lies within the span of its owner. -/
def SpansNested (o : Outline) : Prop :=
  ∀ (i : Nat) (e : Entity) (p : Nat) (s : Span), o.get? i = some e → e.parent = some p →
    e.span = some s → ∃ q t, o.get? p = some q ∧ q.span = some t ∧ s.Within t

theorem spansNested_of_bares {o : Outline}
    (h : ∀ (i : Nat) (x : Entity) (p : Nat), o.bares[i]? = some x → x.parent = some p →
      Span.Inside x.span (o.bares[p]?.bind Entity.span)) : o.SpansNested := by
  intro i e p s he hp hs
  have hbare : o.bares[i]? = some e.bare := by
    rw [getElem?_bares, he, Option.map_some]
  obtain ⟨t, ht, hwithin⟩ := h i e.bare p hbare hp s hs
  rw [getElem?_bares, Option.bind_map] at ht
  obtain ⟨q, hq, ht⟩ := Option.bind_eq_some_iff.1 ht
  exact ⟨q, t, hq, ht, hwithin⟩

theorem SpansNested.covers_owner {o : Outline} (h : o.SpansNested) (hw : WellOwned o)
    {offset : Int} {i p : Nat} (howner : o.owner? i = some p) (hi : o.covers offset i = true) :
    o.covers offset p = true := by
  obtain ⟨e, he, hparent⟩ := Option.bind_eq_some_iff.1 (o.owner?_eq i ▸ howner)
  unfold covers at hi ⊢
  rw [he] at hi
  cases hspan : e.span with
  | none => simp [hspan] at hi
  | some s =>
    obtain ⟨q, t, hq, ht, hstart, hstop⟩ := h i e p s he hparent hspan
    have hscope : q.isScope = true := by
      have howns := (hw.owner?_spec howner).2
      rwa [scopeKind?, hq, Option.bind_some, ← Entity.isScope_eq] at howns
    simp only [hspan, Span.contains, Bool.and_eq_true, decide_eq_true_eq] at hi
    simp only [hq, ht, hscope, Span.contains, Bool.and_eq_true, decide_eq_true_eq]
    exact ⟨trivial, hstart.trans hi.2.1, hi.2.2.trans hstop⟩

/-- An offset in a scope lies in every scope around it, so a descent from the outside can reach the
scope. -/
theorem SpansNested.covers_of_mem_ancestors {o : Outline} (h : o.SpansNested) (hw : WellOwned o)
    {offset : Int} {i a : Nat} (hi : o.covers offset i = true) (ha : a ∈ o.ancestors i) :
    o.covers offset a = true := by
  induction i using Nat.strong_induction_on with
  | _ i ih =>
    cases howner : o.owner? i with
    | none =>
      rw [hw.ancestors_of_unowned howner] at ha
      cases ha
    | some p =>
      rw [hw.ancestors_of_owner? howner] at ha
      have hp : o.covers offset p = true := h.covers_owner hw howner hi
      rcases List.mem_cons.1 ha with rfl | ha
      · exact hp
      · exact ih p (hw.owner?_lt howner) hp ha

end Outline

namespace SourceFile

open Outline

/-- The declarations of a tidy parse tree lie in the spans of their owners. -/
theorem stated_declarations {t : ParseTree} (h : ∀ n ∈ t.nodes, n.Tidy) :
    Stated (fun c => Declaration.Lies t.label.span? c.entity.span)
      (Declaration.Lies t.label.span? t.label.span?) 0 2 (declarations t.program) := by
  have hself := Span.Inside.refl t.label.span?
  have hkept := (ParseTree.inPlace_of_tidy t h hself).below
  obtain ⟨l, cs⟩ := t
  have hplaced := ParseTree.placed_statements hself
    (hkept.sublist (List.filter_sublist (p := fun c => c.label.named)))
  exact Node.stated_declaresAll (Value.fits_list fun v hv => (hplaced v hv).fits) 0 false 2 none

section OfTree

variable (name : String) (tree : Value) (contentHash : Option String) (mtime : Option Double)
  (size : Option Int)

theorem getElem?_bares_ofTree_zero :
    (ofTree name tree contentHash mtime size).1.outline.bares[0]? =
      some { detail := .scope .file {}, name := some name, span := spanOf tree } := by
  rw [bares_ofTree, bares_entered]
  rfl

theorem getElem?_bares_ofTree_one :
    (ofTree name tree contentHash mtime size).1.outline.bares[1]? =
      some { Entity.newNamespace Qualified.globalName none none with parent := some 0 } := by
  rw [bares_ofTree, bares_entered]
  rfl

/-- Declarations that lie in the spans of their owners make a file with nested spans. -/
theorem spansNested_ofTree
    (h : Stated (fun c => Declaration.Lies (spanOf tree) c.entity.span)
      (Declaration.Lies (spanOf tree) (spanOf tree)) 0 2 (declarations tree)) :
    (ofTree name tree contentHash mtime size).1.outline.SpansNested := by
  refine spansNested_of_bares fun i x p hx hp => ?_
  match i with
  | 0 =>
    rw [getElem?_bares_ofTree_zero] at hx
    cases hx
    cases hp
  | 1 =>
    rw [getElem?_bares_ofTree_one] at hx
    cases hx
    exact Span.Inside.of_none _
  | k + 2 =>
    rw [Nat.add_comm, getElem?_bares_ofTree] at hx
    obtain ⟨d, hd, rfl⟩ := Option.map_eq_some_iff.1 hx
    obtain rfl : d.owner = p := Option.some.inj hp
    have hfile : Option.bind (ofTree name tree contentHash mtime size).1.outline.bares[0]?
        Entity.span = spanOf tree := by
      rw [getElem?_bares_ofTree_zero]
      rfl
    -- a namespace belongs to the file, all others to the declaration that states them
    by_cases hns : d.entity.scopeKind? = some .namespaceScope
    · rw [Declaration.owner, if_pos hns, hfile]
      obtain ⟨-, hlies⟩ | ⟨m, c, -, -, -, hlies⟩ := h.holder hd
      · exact hlies.of_namespace hns
      · exact hlies.of_namespace hns
    · rw [Declaration.owner, if_neg hns]
      obtain ⟨hsite, hlies⟩ | ⟨m, c, -, hc, hsite, hlies⟩ := h.holder hd
      · rw [hsite, hfile]
        exact hlies.of_not_namespace hns
      · rw [hsite, getElem?_bares_ofTree, hc]
        exact hlies.of_not_namespace hns

end OfTree

/-- In the file of a parse tree with nested ranges whatever has a span lies within the span of its
owner, as long as no else-if clause is followed by another clause and namespaces come before what
follows them. -/
theorem spansNested_program (t : ParseTree) (hencloses : ∀ n ∈ t.nodes, n.Encloses)
    (helseIf : ∀ n ∈ t.nodes, n.ElseIfLast) (hnamespace : ∀ n ∈ t.nodes, n.NamespaceFirst)
    (name : String) (contentHash : Option String) (mtime : Option Double) (size : Option Int) :
    (ofTree name t.program contentHash mtime size).1.outline.SpansNested :=
  spansNested_ofTree name t.program contentHash mtime size
    (stated_declarations fun n hn => ⟨hencloses n hn, helseIf n hn, hnamespace n hn⟩)

/-- `<?php namespace A; if ($a) {} elseif ($b) {}` -/
def twoClauses : ParseTree :=
  .node { type := "program", start := 0, stop := 44 }
    [.node { type := "php_tag", start := 0, stop := 5 } [],
     .node { type := "namespace_definition", start := 6, stop := 18 }
      [.node { type := "namespace_name", start := 16, stop := 17, field := some "name",
               text := "A" } []],
     .node { type := "if_statement", start := 19, stop := 44 }
      [.node { type := "compound_statement", start := 27, stop := 29, field := some "body" } [],
       .node { type := "else_if_clause", start := 30, stop := 44, field := some "alternative" }
        [.node { type := "compound_statement", start := 42, stop := 44, field := some "body" } []]]]

theorem spansNested_twoClauses :
    (∀ n ∈ twoClauses.nodes, n.Encloses) ∧ (∀ n ∈ twoClauses.nodes, n.ElseIfLast) ∧
      (∀ n ∈ twoClauses.nodes, n.NamespaceFirst) ∧
      (ofTree "a.php" twoClauses.program none none none).1.outline.SpansNested :=
  ⟨by decide, by decide, by decide,
    spansNested_program twoClauses (by decide) (by decide) (by decide) "a.php" none none none⟩

/-- `<?php if ($a) {} elseif ($b) {} else {}` -/
def threeClauses : ParseTree :=
  .node { type := "program", start := 0, stop := 39 }
    [.node { type := "php_tag", start := 0, stop := 5 } [],
     .node { type := "if_statement", start := 6, stop := 39 }
      [.node { type := "compound_statement", start := 14, stop := 16, field := some "body" } [],
       .node { type := "else_if_clause", start := 17, stop := 31, field := some "alternative" }
        [.node { type := "compound_statement", start := 29, stop := 31, field := some "body" } []],
       .node { type := "else_clause", start := 32, stop := 39, field := some "alternative" }
        [.node { type := "compound_statement", start := 37, stop := 39, field := some "body" } []]]]

theorem declarations_threeClauses :
    declarations threeClauses.program =
      [⟨0, blockEntity (some (Span.between 14 16))⟩, ⟨0, blockEntity (some (Span.between 17 31))⟩,
       ⟨3, blockEntity (some (Span.between 29 31))⟩,
       ⟨3, blockEntity (some (Span.between 37 39))⟩] := by
  rw [ParseTree.program, ParseTree.statements_of_plain (by decide)]
  rfl

/-- The block of the last clause belongs to that of the else-if clause, which ends before it. -/
theorem spans_threeClauses :
    (∀ n ∈ threeClauses.nodes, n.Encloses) ∧
      ∃ e owner,
        (ofTree "a.php" threeClauses.program none none none).1.outline.get? 5 = some e ∧
        (ofTree "a.php" threeClauses.program none none none).1.outline.get? 3 = some owner ∧
        e.isScope = true ∧ e.parent = some 3 ∧ e.span = some (Span.between 37 39) ∧
        owner.span = some (Span.between 17 31) ∧
        ¬ (Span.between 37 39).Within (Span.between 17 31) := by
  refine ⟨by decide, ?_⟩
  have hbares := fun k => getElem?_bares_ofTree "a.php" threeClauses.program none none none k
  simp only [declarations_threeClauses, getElem?_bares] at hbares
  obtain ⟨e, he, hbare⟩ := Option.map_eq_some_iff.1 (hbares 3)
  obtain ⟨q, hq, hbare'⟩ := Option.map_eq_some_iff.1 (hbares 1)
  refine ⟨e, q, he, hq, ?_, congrArg Entity.parent hbare, congrArg Entity.span hbare,
    congrArg Entity.span hbare', by decide⟩
  rw [Entity.isScope_eq, ← Entity.scopeKind?_bare, hbare]
  rfl

end SourceFile

end SymbolAtlas
