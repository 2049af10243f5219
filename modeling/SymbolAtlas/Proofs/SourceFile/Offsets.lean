import Mathlib
import SymbolAtlas.Proofs.SourceFile.Sound
import SymbolAtlas.Proofs.SourceFile.Spans

/-!
# Scopes at offsets

The descent towards an offset steps from scope to scope and looks at nothing but the scopes owned at
each level.  If an offset in an owned scope lies in its owner too, then the descent ends where a
walk through the whole file would: at the last scope that holds the offset
(`Outline.ScopesNested.scopeAt_eq_getLast`).  Files themselves are exempt, since every descent
starts there.
-/

namespace SymbolAtlas

/-- The last entry that passes a test splits a list; none of the entries behind it pass. -/
theorem exists_split_of_getLast?_filter {α : Type} {p : α → Bool} {xs : List α} {x : α}
    (h : (xs.filter p).getLast? = some x) :
    ∃ front back, xs = front ++ x :: back ∧ p x = true ∧ ∀ y ∈ back, p y = false := by
  obtain ⟨kept, hkept⟩ := List.getLast?_eq_some_iff.1 h
  obtain ⟨front, rest, rfl, -, hrest⟩ := List.filter_eq_append_iff.1 hkept
  obtain ⟨skipped, back, rfl, -, hx, hback⟩ := List.filter_eq_cons_iff.1 hrest
  refine ⟨front ++ skipped, back, (List.append_assoc _ _ _).symm, hx, fun y hy => ?_⟩
  simpa using List.filter_eq_nil_iff.1 hback y hy

namespace Outline

/-- What lies in the span of an owned scope lies in that of its owner, unless that is the file. -/
def ScopesNested (o : Outline) : Prop :=
  ∀ (i p : Nat) (e : Entity) (s : Span), o.get? i = some e → e.isScope = true →
    e.parent = some p → p ≠ 0 → e.span = some s →
      ∃ q t, o.get? p = some q ∧ q.span = some t ∧
        ∀ offset, s.contains offset = true → t.contains offset = true

theorem SpansNested.scopesNested {o : Outline} (h : o.SpansNested) : o.ScopesNested := by
  intro i p e s he _ hp _ hs
  obtain ⟨q, t, hq, ht, hstart, hstop⟩ := h i e p s he hp hs
  refine ⟨q, t, hq, ht, fun offset hoffset => ?_⟩
  simp only [Span.contains, Bool.and_eq_true, decide_eq_true_eq] at hoffset ⊢
  exact ⟨hstart.trans hoffset.1, hoffset.2.trans hstop⟩

theorem covers_iff {o : Outline} {offset : Int} {i : Nat} :
    o.covers offset i = true ↔ ∃ e s, o.get? i = some e ∧ e.isScope = true ∧ e.span = some s ∧
      s.contains offset = true := by
  unfold covers
  cases o.get? i with
  | none => simp
  | some e => cases hs : e.span <;> simp [hs]

namespace ScopesNested

variable {o : Outline} (h : o.ScopesNested) (hw : WellOwned o) {offset : Int}

include h hw

theorem covers_owner {i p : Nat} (howner : o.owner? i = some p) (hp : p ≠ 0)
    (hi : o.covers offset i = true) : o.covers offset p = true := by
  obtain ⟨e, s, he, hscope, hs, hoffset⟩ := covers_iff.1 hi
  have hparent : e.parent = some p := by
    rwa [owner?_eq, he, Option.bind_some] at howner
  obtain ⟨q, t, hq, ht, hheld⟩ := h i p e s he hscope hparent hp hs
  have howns : q.isScope = true := by
    have hkind := (hw.owner?_spec howner).2
    rwa [scopeKind?, hq, Option.bind_some, ← Entity.isScope_eq] at hkind
  exact covers_iff.2 ⟨q, t, hq, howns, ht, hheld offset hoffset⟩

/-- A scope holds what some scope below it holds. -/
theorem covers_of_mem_descendants {c j : Nat} (hc : c ≠ 0) (hj : j ∈ o.descendants c)
    (hcovers : o.covers offset j = true) : o.covers offset c = true := by
  rw [hw.mem_descendants] at hj
  induction j using Nat.strong_induction_on with
  | _ j ih =>
    cases howner : o.owner? j with
    | none =>
      rw [hw.ancestors_of_unowned howner] at hj
      cases hj
    | some p =>
      rw [hw.ancestors_of_owner? howner] at hj
      have hp : p ≠ 0 := by
        rintro rfl
        rw [hw.ancestors_of_unowned hw.unowned, List.mem_singleton] at hj
        exact hc hj
      have hheld := h.covers_owner hw howner hp hcovers
      rcases List.mem_cons.1 hj with rfl | hj
      · exact hheld
      · exact ih p (hw.owner?_lt howner) hj hheld

/-- Below a scope that does not hold the offset no scope does. -/
theorem filter_covers_eq_nil {c : Nat} (hc : c ≠ 0) (hcovers : o.covers offset c = false) :
    (c :: o.descendants c).filter (o.covers offset) = [] := by
  rw [List.filter_eq_nil_iff]
  intro j hj hheld
  have hout : ¬ o.covers offset c = true := by simp [hcovers]
  rcases List.mem_cons.1 hj with rfl | hj
  · exact hout hheld
  · exact hout (h.covers_of_mem_descendants hw hc hj hheld)

/-- Below a scope at which the descent ends no scope holds the offset. -/
theorem filter_descendants_eq_nil {i : Nat} (hend : o.innerScope? offset i = none) :
    (o.descendants i).filter (o.covers offset) = [] := by
  rw [innerScope?, hw.children_eq, List.getLast?_eq_none_iff, List.filter_eq_nil_iff] at hend
  rw [hw.descendants_eq, List.filter_flatMap, List.flatMap_eq_nil_iff]
  intro c hc
  have hpos : c ≠ 0 := Nat.ne_of_gt (Nat.zero_lt_of_lt (hw.owned_bounds hc).1)
  exact h.filter_covers_eq_nil hw hpos (by simpa using hend c hc)

/-- The descent from a scope ends at the last scope below it that holds the offset, and stays if
there is none. -/
theorem scopeAt_eq_getLast (i : Nat) :
    o.scopeAt offset i = ((o.descendants i).filter (o.covers offset)).getLast?.getD i := by
  induction hn : o.size - i using Nat.strong_induction_on generalizing i with
  | _ n ih =>
    cases hinner : o.innerScope? offset i with
    | none =>
      rw [WellOwned.scopeAt_of_none hinner, h.filter_descendants_eq_nil hw hinner]
      rfl
    | some c =>
      have hbounds := hw.innerScope?_bounds hinner
      rw [hw.scopeAt_of_some hinner, ih (o.size - c) (by omega) c rfl]
      rw [innerScope?, hw.children_eq] at hinner
      obtain ⟨front, back, howned, hcovers, hback⟩ := exists_split_of_getLast?_filter hinner
      have hbehind :
          back.flatMap (fun d => (d :: o.descendants d).filter (o.covers offset)) = [] := by
        rw [List.flatMap_eq_nil_iff]
        intro d hd
        have hmem : d ∈ o.owned i := by
          rw [howned]
          exact List.mem_append_right _ (.tail _ hd)
        have hpos : d ≠ 0 := Nat.ne_of_gt (Nat.zero_lt_of_lt (hw.owned_bounds hmem).1)
        exact h.filter_covers_eq_nil hw hpos (hback d hd)
      rw [hw.descendants_eq i, List.filter_flatMap, howned, List.flatMap_append, List.flatMap_cons,
        hbehind, List.append_nil, List.filter_cons_of_pos hcovers, List.getLast?_append,
        List.getLast?_cons]
      rfl

end ScopesNested

namespace WellOwned

variable {o : Outline} (hw : WellOwned o) {offset : Int}

include hw

theorem owner?_of_innerScope? {i c : Nat} (hc : o.innerScope? offset i = some c) :
    o.owner? c = some i := by
  have hmem := List.mem_of_getLast? hc
  rw [hw.children_eq] at hmem
  exact hw.mem_owned.1 (List.mem_filter.1 hmem).1

/-- The descent from the file passes everything around the scope at which it ends. -/
theorem innerScope?_of_steps {x : Nat}
    (hsteps : Relation.ReflTransGen (fun j c => o.innerScope? offset j = some c) 0 x) {i c : Nat}
    (howner : o.owner? c = some i) (hc : c ∈ x :: o.ancestors x) :
    o.innerScope? offset i = some c := by
  induction hsteps with
  | refl =>
    rw [hw.ancestors_of_unowned hw.unowned, List.mem_singleton] at hc
    rw [hc, hw.unowned] at howner
    cases howner
  | @tail j x _ hstep ih =>
    have hx := hw.owner?_of_innerScope? hstep
    rcases List.mem_cons.1 hc with rfl | hc
    · cases howner.symm.trans hx
      exact hstep
    · rw [hw.ancestors_of_owner? hx] at hc
      exact ih hc

/-- Of two scopes of one owner that hold the offset the later one counts: the descent does not end
in the earlier one. -/
theorem scopeAt_not_mem_earlier {i c d : Nat} (hc : c ∈ o.children i) (hd : d ∈ o.children i)
    (hcd : c < d) (hheld : o.covers offset d = true) :
    o.scopeAt offset 0 ∉ c :: o.descendants c := by
  intro hmem
  have howner : o.owner? c = some i := hw.mem_owned.1 (hw.children_eq i ▸ hc)
  have haround : c ∈ o.scopeAt offset 0 :: o.ancestors (o.scopeAt offset 0) := by
    rcases List.mem_cons.1 hmem with heq | hbelow
    · exact heq ▸ .head _
    · exact .tail _ (hw.mem_descendants.1 hbelow)
  have hlast : o.innerScope? offset i = some c :=
    hw.innerScope?_of_steps (hw.scopeAt_steps offset 0).1 howner haround
  have hsorted : ((o.children i).filter (o.covers offset)).Pairwise (· < ·) := by
    rw [hw.children_eq]
    exact (hw.pairwise_lt_owned i).filter _
  obtain ⟨front, hsplit⟩ := List.getLast?_eq_some_iff.1 hlast
  have hin : d ∈ front ++ [c] := hsplit ▸ List.mem_filter.2 ⟨hd, hheld⟩
  rw [hsplit, List.pairwise_append] at hsorted
  rcases List.mem_append.1 hin with hfront | hlater
  · exact Nat.lt_asymm hcd (hsorted.2.2 d hfront c (.head _))
  · rw [List.mem_singleton] at hlater
    omega

end WellOwned

end Outline

namespace SourceFile

open Outline

/-- In a file whose inner scopes hold what the scopes in them hold, the scope at an offset is the
last one of the whole file that holds it, and the file itself if there is none.  So nothing below it
holds the offset, and of two scopes side by side that hold it the later one counts. -/
theorem Made.scopeAt_eq_last {f : SourceFile} {origin : String} (hf : f.Made origin)
    (h : f.outline.ScopesNested) (offset : Int) :
    f.outline.scopeAt offset 0 =
      ((f.outline.descendants 0).filter (f.outline.covers offset)).getLast?.getD 0 ∧
    (∀ j ∈ f.outline.descendants (f.outline.scopeAt offset 0),
      f.outline.covers offset j = false) ∧
    ∀ i, ∀ c ∈ f.outline.children i, ∀ d ∈ f.outline.children i, c < d →
      f.outline.covers offset c = true → f.outline.covers offset d = true →
        f.outline.scopeAt offset 0 ∉ c :: f.outline.descendants c := by
  have hw : WellOwned f.outline := hf.sound.wellOwned
  refine ⟨h.scopeAt_eq_getLast hw 0, ?_, ?_⟩
  · obtain ⟨-, hend⟩ := hw.scopeAt_steps offset 0
    intro j hj
    have hnone := List.filter_eq_nil_iff.1 (h.filter_descendants_eq_nil hw hend) j hj
    simpa using hnone
  · intro i c hc d hd hcd _ hheld
    exact hw.scopeAt_not_mem_earlier hc hd hcd hheld

/-- The later clause is nested in the first one, and an offset in its body leads there. -/
theorem scopeAt_twoClauses :
    (ofTree "a.php" twoClauses.program none none none).1.outline.ScopesNested ∧
      (ofTree "a.php" twoClauses.program none none none).1.outline.scopeAt 43 0 = 5 := by
  have hnested : (ofTree "a.php" twoClauses.program none none none).1.outline.ScopesNested :=
    (spansNested_program twoClauses (by decide) (by decide) (by decide) "a.php" none none
      none).scopesNested
  obtain ⟨hlast, -, -⟩ := (Made.parsed _ _ _ _).scopeAt_eq_last hnested 43
  refine ⟨hnested, hlast.trans ?_⟩
  decide +kernel

end SourceFile

end SymbolAtlas
