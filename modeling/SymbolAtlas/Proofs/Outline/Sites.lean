import Mathlib
import SymbolAtlas.Proofs.Outline.Walk

/-!
# Where declarations are stated

The declarations of a walk form a forest: each is stated in the scope that the walk started in, or
in the body of an earlier declaration.  `Stated` carries a relation through this forest, between a
declaration and those that its body states, and `Stated.holder` reads it off again by number.  One
such relation is kept by every walk: what states a method is a class (`Node.stated_methods`).
-/

namespace SymbolAtlas

/-- The declarations are stated in `site`, where `top` holds of each, or in the body of an earlier
one of them, `c`, where `within c` holds of each.  They are numbered from `next` on. -/
inductive Stated (within : Declaration → Declaration → Prop) :
    (Declaration → Prop) → Nat → Nat → List Declaration → Prop
  | nil (top : Declaration → Prop) (site next : Nat) : Stated within top site next []
  | scope {top : Declaration → Prop} {site next : Nat} {d : Declaration}
      {body rest : List Declaration} (hsite : d.site = site) (htop : top d)
      (hbody : Stated within (within d) next (next + 1) body)
      (hrest : Stated within top site (next + 1 + body.length) rest) :
      Stated within top site next (d :: (body ++ rest))

namespace Stated

variable {within : Declaration → Declaration → Prop} {top top' : Declaration → Prop}
  {site next : Nat} {d : Declaration} {ds es : List Declaration}

theorem single (hsite : d.site = site) (htop : top d)
    (hbody : Stated within (within d) next (next + 1) ds) :
    Stated within top site next (d :: ds) := by
  have h := Stated.scope hsite htop hbody (.nil top site _)
  rwa [List.append_nil] at h

theorem leaf (hsite : d.site = site) (htop : top d) : Stated within top site next [d] :=
  .single hsite htop (.nil _ _ _)

theorem append (hds : Stated within top site next ds)
    (hes : Stated within top site (next + ds.length) es) :
    Stated within top site next (ds ++ es) := by
  induction hds with
  | nil => exact hes
  | @scope top site next d body rest hsite htop hbody _ _ ih =>
    rw [List.cons_append, List.append_assoc]
    refine .scope hsite htop hbody (ih ?_)
    rw [List.length_cons, List.length_append] at hes
    have hnumber : next + 1 + body.length + rest.length =
        next + (body.length + rest.length + 1) := by
      omega
    rwa [hnumber]

theorem mono (h : Stated within top site next ds) (himp : ∀ d, top d → top' d) :
    Stated within top' site next ds := by
  induction h generalizing top' with
  | nil => exact .nil _ _ _
  | scope hsite htop hbody _ _ ih => exact .scope hsite (himp _ htop) hbody (ih himp)

/-- A declaration is stated in the site, or by an earlier declaration whose number is its site. -/
theorem holder (h : Stated within top site next ds) {k : Nat} (hk : ds[k]? = some d) :
    (d.site = site ∧ top d) ∨
      ∃ m c, m < k ∧ ds[m]? = some c ∧ d.site = next + m ∧ within c d := by
  induction h generalizing k with
  | nil => cases hk
  | @scope top site next c body rest hsite htop _ _ ihbody ihrest =>
    match k with
    | 0 =>
      cases hk
      exact Or.inl ⟨hsite, htop⟩
    | k + 1 =>
      rw [List.getElem?_cons_succ] at hk
      by_cases hlt : k < body.length
      · rw [List.getElem?_append_left hlt] at hk
        obtain ⟨hsite', hwithin⟩ | ⟨m, c', hm, hc', hsite', hwithin⟩ := ihbody hk
        · exact Or.inr ⟨0, c, by omega, rfl, hsite', hwithin⟩
        · refine Or.inr ⟨m + 1, c', by omega, ?_, by omega, hwithin⟩
          rw [List.getElem?_cons_succ, List.getElem?_append_left (by omega)]
          exact hc'
      · rw [List.getElem?_append_right (by omega)] at hk
        obtain hleft | ⟨m, c', hm, hc', hsite', hwithin⟩ := ihrest hk
        · exact Or.inl hleft
        · refine Or.inr ⟨body.length + m + 1, c', by omega, ?_, by omega, hwithin⟩
          rw [List.getElem?_cons_succ, List.getElem?_append_right (by omega),
            Nat.add_sub_cancel_left]
          exact hc'

end Stated

/-! ## Methods are stated by classes -/

/-- The entity is a method. -/
def Entity.IsMethod (e : Entity) : Prop :=
  e.scopeKind? = some (.functionScope true)

namespace Node

/-- A method is stated by a class. -/
def MethodInClass (c d : Declaration) : Prop :=
  d.entity.IsMethod → c.entity.scopeKind? = some .classScope

mutual

theorem stated_methods : ∀ (n : Node) (site : Nat) (inClass : Bool) (next : Nat)
    (pending : Option String),
    Stated MethodInClass (fun d => d.entity.IsMethod → inClass = true) site next
      (declares site inClass next pending n).1
  | .documentation _ _, _, _, _, _ => .nil _ _ _
  | .remark _, _, _, _, _ => .nil _ _ _
  | .classNode _ body, _, _, next, _ =>
    .single rfl (fun h => nomatch h)
      ((stated_methodsAll body next true (next + 1) none).mono fun _ _ _ => rfl)
  | .functionNode _ body, _, _, next, _ =>
    .single rfl (fun h => nomatch h)
      ((stated_methodsAll body next false (next + 1) none).mono fun _ h hm => nomatch h hm)
  | .methodNode _ body fields, site, inClass, next, _ => by
    cases inClass with
    | true =>
      exact .single rfl (fun _ => rfl)
        ((stated_methodsAll body next false (next + 1) none).mono fun _ h hm => nomatch h hm)
    | false => exact stated_methodsAll fields site false next none
  | .namespaceNode _ body, _, _, next, _ =>
    .single rfl (fun h => nomatch h)
      ((stated_methodsAll body next false (next + 1) none).mono fun _ h hm => nomatch h hm)
  | .includeNode _ _ _ _, _, _, _, _ => .leaf rfl fun h => nomatch h
  | .assignment _, _, _, _, _ => .leaf rfl fun h => nomatch h
  | .branches _ arms, site, _, next, _ =>
    (stated_methodsArms arms site next).mono fun _ h hm => nomatch h hm
  | .other _ fields, site, inClass, next, _ => stated_methodsAll fields site inClass next none
termination_by structural n => n

theorem stated_methodsAll : ∀ (ns : List Node) (site : Nat) (inClass : Bool) (next : Nat)
    (pending : Option String),
    Stated MethodInClass (fun d => d.entity.IsMethod → inClass = true) site next
      (declaresAll site inClass next pending ns).1
  | [], _, _, _, _ => .nil _ _ _
  | n :: rest, site, inClass, next, pending =>
    (stated_methods n site inClass next pending).append
      (stated_methodsAll rest site inClass _ _)
termination_by structural ns => ns

theorem stated_methodsArms : ∀ (arms : List (Option Span × List Node)) (site next : Nat),
    Stated MethodInClass (fun d => d.entity.IsMethod → False) site next
      (declaresArms site next arms)
  | [], _, _ => .nil _ _ _
  | (span, body) :: rest, site, next => by
    have hblock : Stated MethodInClass (fun d => d.entity.IsMethod → False) site next
        (⟨site, blockEntity span⟩ :: (declaresAll next false (next + 1) none body).1) :=
      .single rfl (fun h => nomatch h)
        ((stated_methodsAll body next false (next + 1) none).mono fun _ h hm => nomatch h hm)
    exact hblock.append (stated_methodsArms rest site _)
termination_by structural arms => arms

end

end Node

end SymbolAtlas
