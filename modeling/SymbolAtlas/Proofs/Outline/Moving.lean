import Mathlib
import SymbolAtlas.Proofs.Outline.Sites

/-!
# The same body in another place

What a body declares does not depend on where it is walked: in another scope, with other numbers
free, it declares the same entities in the same order, and the numbers of their owners move along
(`Node.declaresAll_moved`).  All of them lie below the scope that the body is walked into, apart
from namespaces and what lies in those (`Outline.IsBelow`).
-/

namespace SymbolAtlas

/-- The entity of a declaration, owned. -/
def Declaration.owned (d : Declaration) : Entity :=
  { d.entity with parent := some d.owner }

/-- The declaration with another scope number. -/
def Declaration.moved (ρ : Nat → Nat) (d : Declaration) : Declaration where
  site := ρ d.site
  entity := d.entity

/-- The entity with another owner number. -/
def Entity.moved (ρ : Nat → Nat) (e : Entity) : Entity :=
  { e with parent := e.parent.map ρ }

/-- The file keeps the namespaces, wherever the bodies that state them go. -/
theorem Declaration.owned_moved {ρ : Nat → Nat} (hfile : ρ 0 = 0) (d : Declaration) :
    (d.moved ρ).owned = d.owned.moved ρ := by
  have howner : (d.moved ρ).owner = ρ d.owner := by
    by_cases hns : d.entity.scopeKind? = some .namespaceScope
    · rw [owner, owner, if_pos hns, hfile]
      exact if_pos hns
    · rw [owner, owner, if_neg hns]
      exact if_neg hns
  rw [owned, howner]
  rfl

namespace Node

/-- Declarations and the text left pending, with other scope numbers. -/
def movedAll (ρ : Nat → Nat) (r : List Declaration × Option String) :
    List Declaration × Option String :=
  (r.1.map (.moved ρ), r.2)

theorem length_movedAll (ρ : Nat → Nat) (r : List Declaration × Option String) :
    (movedAll ρ r).1.length = r.1.length :=
  List.length_map _

/-- From `next` on numbers move to those from `next'` on. -/
def Shifts (ρ : Nat → Nat) (next next' : Nat) : Prop :=
  ∀ j, ρ (next + j) = next' + j

theorem Shifts.add {ρ : Nat → Nat} {next next' : Nat} (h : Shifts ρ next next') (k : Nat) :
    Shifts ρ (next + k) (next' + k) := by
  intro j
  rw [Nat.add_assoc, h (k + j), Nat.add_assoc]

theorem Shifts.at {ρ : Nat → Nat} {next next' : Nat} (h : Shifts ρ next next') :
    ρ next = next' :=
  h 0

mutual

theorem declares_moved : ∀ (n : Node) {ρ : Nat → Nat} {next next' : Nat}, Shifts ρ next next' →
    ∀ (site : Nat) (inClass : Bool) (pending : Option String),
    declares (ρ site) inClass next' pending n = movedAll ρ (declares site inClass next pending n)
  | .documentation _ _, _, _, _, _, _, _, _ => rfl
  | .remark _, _, _, _, _, _, _, _ => rfl
  | .classNode _ body, ρ, next, next', h, site, _, _ => by
    have hbody := declaresAll_moved body (h.add 1) next true none
    rw [h.at] at hbody
    rw [declares, hbody]
    rfl
  | .functionNode _ body, ρ, next, next', h, site, _, _ => by
    have hbody := declaresAll_moved body (h.add 1) next false none
    rw [h.at] at hbody
    rw [declares, hbody]
    rfl
  | .methodNode _ body fields, ρ, next, next', h, site, inClass, _ => by
    have hbody := declaresAll_moved body (h.add 1) next false none
    rw [h.at] at hbody
    rw [declares, declares, hbody, declaresAll_moved fields h site inClass none]
    split <;> rfl
  | .namespaceNode _ body, ρ, next, next', h, site, _, _ => by
    have hbody := declaresAll_moved body (h.add 1) next false none
    rw [h.at] at hbody
    rw [declares, hbody]
    rfl
  | .includeNode _ _ _ _, _, _, _, _, _, _, _ => rfl
  | .assignment _, _, _, _, _, _, _, _ => rfl
  | .branches _ arms, _, _, _, h, site, _, _ => by
    rw [declares, declaresArms_moved arms h site]
    rfl
  | .other _ fields, _, _, _, h, site, inClass, _ => declaresAll_moved fields h site inClass none
termination_by structural n => n

theorem declaresAll_moved : ∀ (ns : List Node) {ρ : Nat → Nat} {next next' : Nat},
    Shifts ρ next next' → ∀ (site : Nat) (inClass : Bool) (pending : Option String),
    declaresAll (ρ site) inClass next' pending ns =
      movedAll ρ (declaresAll site inClass next pending ns)
  | [], _, _, _, _, _, _, _ => rfl
  | n :: rest, ρ, next, next', h, site, inClass, pending => by
    rw [declaresAll, declares_moved n h site inClass pending, length_movedAll]
    simp only [movedAll]
    rw [declaresAll_moved rest (h.add _) site inClass _, declaresAll]
    simp only [movedAll, List.map_append]
termination_by structural ns => ns

theorem declaresArms_moved : ∀ (arms : List (Option Span × List Node)) {ρ : Nat → Nat}
    {next next' : Nat}, Shifts ρ next next' → ∀ (site : Nat),
    declaresArms (ρ site) next' arms = (declaresArms site next arms).map (.moved ρ)
  | [], _, _, _, _, _ => rfl
  | (span, body) :: rest, ρ, next, next', h, site => by
    have hbody := declaresAll_moved body (h.add 1) next false none
    rw [h.at] at hbody
    rw [declaresArms, hbody]
    simp only [movedAll, List.length_cons, List.length_map]
    rw [declaresArms_moved rest (h.add _) site, declaresArms]
    simp only [List.map_append, List.map_cons]
    rfl
termination_by structural arms => arms

end

end Node

namespace Outline

variable {o : Outline}

/-- Walking nodes into a scope adds what they declare and refuses nothing. -/
theorem populate_eq (h : Ready o) {scope : Nat} (hs : (o.scopeKind? scope).isSome)
    (ns : List Node) :
    (o.populate scope ns).refusals = [] ∧ Ready (o.populate scope ns).outline ∧
      (o.populate scope ns).outline.bares = o.bares ++
        (Node.declaresAll scope (o.isClass scope) o.size none ns).1.map Declaration.owned := by
  have henters := (Walk.visitAll_spec ns scope none { outline := o } h hs).enters
  refine ⟨congrArg Walk.refusals henters.eq, henters.ready h, ?_⟩
  rw [populate, henters.eq]
  exact henters.admits.bares_enterAll h

/-- Numbers of the owners of what is walked into a block, for the same walk into another block: the
file stays, the block and the numbers from `next` on become `block'` and those after it. -/
def transfer (block next block' p : Nat) : Nat :=
  if p = 0 then 0 else if p = block then block' else p - next + (block' + 1)

/-- Two walks of the same nodes into a block: what the second one adds is what the first one adds,
moved. -/
theorem populate_block (h : Ready o) {block : Nat} (hblock : o.scopeKind? block = some .block)
    (ns : List Node) (block' : Nat) :
    (o.populate block ns).refusals = [] ∧ ∃ added,
      (o.populate block ns).outline.bares = o.bares ++ added ∧
      (Node.declaresAll block' false (block' + 1) none ns).1.map Declaration.owned =
        added.map (Entity.moved (transfer block o.size block')) := by
  have hsome : (o.scopeKind? block).isSome := by
    rw [hblock]
    rfl
  have hclass : o.isClass block = false := by
    rw [isClass, hblock]
    rfl
  have hlt : block < o.size := lt_size_of_scopeKind? hsome
  have hpos : block ≠ 0 := by
    rintro rfl
    rw [h.wellOwned.root] at hblock
    cases hblock
  have hat : transfer block o.size block' block = block' := by
    rw [transfer, if_neg hpos, if_pos rfl]
  have hshift : Node.Shifts (transfer block o.size block') o.size (block' + 1) := by
    intro j
    rw [transfer, if_neg (by omega), if_neg (by omega)]
    omega
  obtain ⟨hrefusals, -, hbares⟩ := populate_eq h hsome ns
  refine ⟨hrefusals, _, hbares, ?_⟩
  have hmoved := Node.declaresAll_moved ns hshift block false none
  rw [hat] at hmoved
  rw [hmoved, hclass, Node.movedAll, List.map_map, List.map_map]
  exact List.map_congr_left fun d _ => d.owned_moved rfl

/-! ## Below a scope -/

/-- The entity lies below a scope, or in a namespace of the file that was added after the scope. -/
def IsBelow (o : Outline) (scope i : Nat) : Prop :=
  scope ∈ o.ancestors i ∨
    ∃ n ∈ i :: o.ancestors i, scope < n ∧ o.isNamespace n = true ∧ o.owner? n = some 0

theorem IsBelow.of_owner (h : WellOwned o) {scope i p : Nat} (hi : o.owner? i = some p)
    (hp : o.IsBelow scope p) : o.IsBelow scope i := by
  rw [IsBelow, h.ancestors_of_owner? hi]
  obtain hp | ⟨n, hn, hns⟩ := hp
  · exact Or.inl (List.mem_cons_of_mem _ hp)
  · exact Or.inr ⟨n, List.mem_cons_of_mem _ hn, hns⟩

/-- What a body declares lies below the scope that it is walked into. -/
theorem isBelow_of_stated (h : WellOwned o) {within : Declaration → Declaration → Prop}
    {top : Declaration → Prop} {scope : Nat} {ds : List Declaration}
    (hstated : Stated within top scope (scope + 1) ds)
    (hbares : ∀ (k : Nat) d, ds[k]? = some d → o.bares[scope + 1 + k]? = some d.owned) {k : Nat}
    (hk : k < ds.length) : o.IsBelow scope (scope + 1 + k) := by
  induction k using Nat.strong_induction_on with
  | _ k ih =>
    obtain ⟨d, hd⟩ : ∃ d, ds[k]? = some d := ⟨_, List.getElem?_eq_getElem hk⟩
    have howner : o.owner? (scope + 1 + k) = some d.owner := by
      rw [owner?_eq_bares, hbares k d hd]
      rfl
    by_cases hns : d.entity.scopeKind? = some .namespaceScope
    · refine Or.inr ⟨_, List.mem_cons_self, by omega, ?_, ?_⟩
      · rw [isNamespace_eq_bares, hbares k d hd]
        exact beq_iff_eq.2 hns
      · rw [howner, Declaration.owner, if_pos hns]
    · rw [Declaration.owner, if_neg hns] at howner
      obtain ⟨hsite, -⟩ | ⟨m, c, hm, -, hsite, -⟩ := hstated.holder hd
      · rw [hsite] at howner
        exact Or.inl (h.ancestors_of_owner? howner ▸ List.mem_cons_self)
      · rw [hsite] at howner
        exact .of_owner h howner (ih m hm (hm.trans hk))

end Outline

end SymbolAtlas
