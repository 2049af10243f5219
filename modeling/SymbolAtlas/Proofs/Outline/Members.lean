import Mathlib
import SymbolAtlas.Proofs.Outline.Entering

/-!
# The member lists of an outline

`Outline.shown` gives the member lists that an entity shows.  Adding an entity, listing it for the
file, closing scopes and linking directives leave them alone; displaying and restoring change one
list of one entity.  `Outline.InRange` says that only entities of the outline are shown.
-/

namespace SymbolAtlas

namespace Outline

/-- The member lists of an entity; they are empty if it is no scope. -/
def shown (o : Outline) (i : Nat) : Members :=
  (((o.get? i).bind Entity.body?).map Body.members).getD {}

/-- Every member is an entity of the outline. -/
def InRange (o : Outline) : Prop :=
  ∀ i list, ∀ m ∈ (o.shown i).get list, m < o.size

theorem members_eq_shown (o : Outline) {i : Nat} {e : Entity} (h : o.get? i = some e)
    (list : MemberList) : e.members list = (o.shown i).get list := by
  rw [shown, h]
  simp only [Entity.members, Option.bind_some]
  cases e.body? with
  | none => cases list <;> rfl
  | some b => rfl

theorem shown_modify_of_body {o : Outline} {f : Entity → Entity} (i j : Nat)
    (hf : ∀ e, (f e).body?.map Body.members = e.body?.map Body.members) :
    (o.modify i f).shown j = o.shown j := by
  simp only [shown, get?_modify]
  split
  · rw [Option.bind_map, Option.map_bind, Option.map_bind]
    congr 2
    funext e
    exact hf e
  · rfl

theorem shown_close (o : Outline) (i : Nat) : o.close.shown i = o.shown i := by
  simp only [shown, get?_close, Option.bind_map, Option.map_bind]
  congr 2
  funext e
  simp only [Function.comp_apply, Entity.body?_mapBody, Option.map_map]
  rfl

theorem shown_add {o : Outline} (hl : o.linked = true) (p : Nat) {e : Entity} (he : e.IsFresh)
    (i : Nat) : (o.add p e).1.shown i = o.shown i := by
  have hfresh : e.body?.map Body.members = none ∨ e.body?.map Body.members = some {} := by
    rw [← he.1]
    obtain ⟨detail, name, parent, span, doc⟩ := e
    cases detail with
    | scope k b => exact Or.inr rfl
    | «variable» => exact Or.inl rfl
    | external i => exact Or.inl rfl
  -- adding changes what the owner owns and nothing that it shows
  have hbody : ∀ x : Entity, (if p = i then
      x.mapBody fun b => { b with children := b.children ++ [o.size] } else x).body?.map
      Body.members = x.body?.map Body.members := by
    intro x
    split
    · rw [Entity.body?_mapBody, Option.map_map]
      rfl
    · rfl
  simp only [shown, get?_add hl, Option.bind_map, Option.map_bind]
  have hcomp : (Option.map Body.members ∘ Entity.body? ∘ fun x : Entity =>
      if p = i then x.mapBody fun b => { b with children := b.children ++ [o.size] } else x) =
      fun x => x.body?.map Body.members := funext hbody
  rw [hcomp]
  by_cases hi : i = o.size
  · have hout : o.get? i = none := get?_eq_none_iff.2 (by omega)
    rw [if_pos hi, hout]
    rcases hfresh with h | h
    · exact congrArg (Option.getD · {}) h
    · exact congrArg (Option.getD · {}) h
  · rw [if_neg hi]
    rfl

theorem shown_setMembers (o : Outline) (g : Members → Members) (i j : Nat) :
    (o.modify i (Entity.mapBody fun b => { b with members := g b.members })).shown j =
      if i = j ∧ (o.scopeKind? j).isSome then g (o.shown j) else o.shown j := by
  cases he : o.get? j with
  | none =>
    have hkind : o.scopeKind? j = none := by rw [scopeKind?, he]; rfl
    simp [shown, get?_modify, he, hkind]
  | some e =>
    have hkind : o.scopeKind? j = e.scopeKind? := by rw [scopeKind?, he]; rfl
    rw [hkind]
    simp only [shown, get?_modify, he]
    by_cases hi : i = j
    · obtain ⟨detail, name, parent, span, doc⟩ := e
      cases detail <;> simp [hi, Entity.mapBody, Entity.body?, Entity.scopeKind?]
    · simp [hi]

/-! ## Members in range -/

theorem inRange_of_eq {o o' : Outline} (h : InRange o) (hsize : o.size ≤ o'.size)
    (hshown : ∀ i, o'.shown i = o.shown i) : InRange o' := by
  intro i list m hm
  rw [hshown] at hm
  exact Nat.lt_of_lt_of_le (h i list m hm) hsize

/-- Putting numbers of entities into one list keeps the members in range. -/
theorem InRange.set {o : Outline} (h : InRange o) (i : Nat) (list : MemberList)
    {c : List Nat → List Nat} (hc : ∀ ns, (∀ n ∈ ns, n < o.size) → ∀ n ∈ c ns, n < o.size) :
    InRange (o.modify i (Entity.mapBody fun b =>
      { b with members := b.members.set list (c (b.members.get list)) })) := by
  intro j other m hm
  rw [shown_setMembers o fun ms => ms.set list (c (ms.get list))] at hm
  rw [size_modify]
  split at hm
  · by_cases ho : other = list
    · rw [ho, Members.get_set_self] at hm
      exact hc _ (h j list) m hm
    · rw [Members.get_set_of_ne _ _ ho] at hm
      exact h j other m hm
  · exact h j other m hm

end Outline

end SymbolAtlas
