import Mathlib
import SymbolAtlas.Outline.Query

/-!
# The ownership tree of an outline

What ownership depends on is the *place* of each entity: the kind of scope it is, its owner, and the
numbers it owns.  `WellOwned` says that the file is entity zero, that every other entity has an
earlier scope as its owner, and that what an entity owns is exactly the list, in ascending order, of
the entities that name it as their owner.  Adding an entity below a scope keeps this
(`WellOwned.add`), and so does every change that leaves the places alone (`WellOwned.congr`).

From `WellOwned` follow the facts about whole walks: going up from any entity ends at the file
(`WellOwned.climbs`), going down visits every entity but the file exactly once
(`WellOwned.descendants_perm`), and stepping into scopes at an offset ends
(`WellOwned.scopeAt_steps`).
-/

namespace SymbolAtlas

/-- Where an entity stands in the ownership tree. -/
structure Place where
  /-- The kind of scope, if the entity is one. -/
  scope : Option ScopeKind
  owner : Option Nat
  owned : List Nat

/-- The place of an entity. -/
def Entity.place (e : Entity) : Place where
  scope := e.scopeKind?
  owner := e.parent
  owned := e.children

namespace Entity

theorem isScope_eq (e : Entity) : e.isScope = e.scopeKind?.isSome := by
  unfold isScope body? scopeKind?
  cases e.detail <;> rfl

@[simp] theorem parent_mapBody (f : Body → Body) (e : Entity) :
    (e.mapBody f).parent = e.parent := by
  obtain ⟨detail, name, parent, span, doc⟩ := e
  cases detail <;> rfl

@[simp] theorem scopeKind?_mapBody (f : Body → Body) (e : Entity) :
    (e.mapBody f).scopeKind? = e.scopeKind? := by
  obtain ⟨detail, name, parent, span, doc⟩ := e
  cases detail <;> rfl

@[simp] theorem body?_mapBody (f : Body → Body) (e : Entity) :
    (e.mapBody f).body? = e.body?.map f := by
  obtain ⟨detail, name, parent, span, doc⟩ := e
  cases detail <;> rfl

theorem place_mapBody (f : Body → Body) (hf : ∀ b, (f b).children = b.children) (e : Entity) :
    (e.mapBody f).place = e.place := by
  obtain ⟨detail, name, parent, span, doc⟩ := e
  cases detail <;> simp [mapBody, place, scopeKind?, children, body?, hf]

theorem place_mapInclusion (f : Inclusion → Inclusion) (e : Entity) :
    (e.mapInclusion f).place = e.place := by
  obtain ⟨detail, name, parent, span, doc⟩ := e
  cases detail <;> rfl

end Entity

namespace Outline

/-! ## Entities after a change -/

@[simp] theorem size_modify (o : Outline) (i : Nat) (f : Entity → Entity) :
    (o.modify i f).size = o.size := by
  simp [modify, size]

theorem get?_modify (o : Outline) (i j : Nat) (f : Entity → Entity) :
    (o.modify i f).get? j = if i = j then (o.get? j).map f else o.get? j := by
  simp [modify, get?, Array.getElem?_modify]

theorem get?_eq_none_iff {o : Outline} {i : Nat} : o.get? i = none ↔ o.size ≤ i := by
  simp [get?, size]

theorem get?_isSome_iff {o : Outline} {i : Nat} : (o.get? i).isSome ↔ i < o.size := by
  simp [get?, size]

theorem get?_close (o : Outline) (i : Nat) :
    o.close.get? i = (o.get? i).map (Entity.mapBody fun b => { b with closed := true }) := by
  simp [close, get?]

section Add

variable {o : Outline} (hl : o.linked = true) (p : Nat) (e : Entity)

@[simp] theorem snd_add (o : Outline) (p : Nat) (e : Entity) : (o.add p e).2 = o.size := by
  unfold add
  split <;> rfl

include hl in
theorem size_add : (o.add p e).1.size = o.size + 1 := by
  simp [add, hl, modify, size]

include hl in
/-- After adding an entity the old ones are as before, but for the owner, which owns one more. -/
theorem get?_add (i : Nat) :
    (o.add p e).1.get? i =
      (if i = o.size then some { e with parent := some p } else o.get? i).map fun x =>
        if p = i then x.mapBody fun b => { b with children := b.children ++ [o.size] } else x := by
  simp only [add, hl, ↓reduceIte, get?_modify]
  by_cases hi : i = o.size <;> by_cases hp : p = i <;>
    simp [get?, Array.getElem?_push, hi, hp, size] <;> simp_all [size]

include hl in
theorem linked_add : (o.add p e).1.linked = true := by
  simp [add, hl, modify]

@[simp] theorem namespaces_add (o : Outline) (p : Nat) (e : Entity) :
    (o.add p e).1.namespaces = o.namespaces := by
  unfold add
  split <;> rfl

@[simp] theorem externals_add (o : Outline) (p : Nat) (e : Entity) :
    (o.add p e).1.externals = o.externals := by
  unfold add
  split <;> rfl

@[simp] theorem home_add (o : Outline) (p : Nat) (e : Entity) :
    (o.add p e).1.home = o.home := by
  unfold add
  split <;> rfl

end Add

/-! ## Places -/

/-- The place of the entity with a number. -/
def place? (o : Outline) (i : Nat) : Option Place :=
  (o.get? i).map Entity.place

/-- The owner that an entity names. -/
def owner? (o : Outline) (i : Nat) : Option Nat :=
  (o.place? i).bind Place.owner

/-- The numbers that an entity owns. -/
def owned (o : Outline) (i : Nat) : List Nat :=
  ((o.place? i).map Place.owned).getD []

theorem scopeKind?_eq (o : Outline) (i : Nat) : o.scopeKind? i = (o.place? i).bind Place.scope := by
  simp only [scopeKind?, place?, Option.bind_map]
  rfl

theorem owner?_eq (o : Outline) (i : Nat) : o.owner? i = (o.get? i).bind Entity.parent := by
  simp only [owner?, place?, Option.bind_map]
  rfl

theorem owned_eq (o : Outline) (i : Nat) :
    o.owned i = ((o.get? i).map Entity.children).getD [] := by
  simp only [owned, place?, Option.map_map]
  rfl

theorem lt_size_of_owner? {o : Outline} {i p : Nat} (h : o.owner? i = some p) : i < o.size := by
  rw [owner?_eq, Option.bind_eq_some_iff] at h
  obtain ⟨e, he, -⟩ := h
  exact get?_isSome_iff.1 (by simp [he])

theorem lt_size_of_scopeKind? {o : Outline} {i : Nat} (h : (o.scopeKind? i).isSome) :
    i < o.size := by
  obtain ⟨k, hk⟩ := Option.isSome_iff_exists.1 h
  obtain ⟨e, he, -⟩ := Option.bind_eq_some_iff.1 hk
  exact get?_isSome_iff.1 (by simp [he])

theorem lt_size_of_isNamespace {o : Outline} {n : Nat} (h : o.isNamespace n = true) :
    n < o.size := by
  refine lt_size_of_scopeKind? ?_
  rw [isNamespace, beq_iff_eq] at h
  rw [h]
  rfl

theorem ancestors_eq (o : Outline) (i : Nat) :
    o.ancestors i = match o.parent? i with
      | some p => p :: o.ancestors p
      | none => [] := by
  rw [ancestors]
  split <;> simp only [*]

/-- A change that keeps the place of every entity it meets keeps all places. -/
theorem place?_modify {o : Outline} {f : Entity → Entity} (i j : Nat)
    (hf : ∀ e, (f e).place = e.place) : (o.modify i f).place? j = o.place? j := by
  rw [place?, get?_modify]
  split
  · rw [Option.map_map]
    exact Option.map_congr fun e _ => hf e
  · rfl

theorem place?_close (o : Outline) (i : Nat) : o.close.place? i = o.place? i := by
  rw [place?, get?_close, Option.map_map]
  exact Option.map_congr fun e _ =>
    e.place_mapBody (fun b => { b with closed := true }) fun _ => rfl

theorem size_eq_of_place? {o o' : Outline} (h : ∀ i, o'.place? i = o.place? i) :
    o'.size = o.size := by
  have key : ∀ i, i < o'.size ↔ i < o.size := by
    intro i
    rw [← get?_isSome_iff, ← get?_isSome_iff]
    have := congrArg Option.isSome (h i)
    simpa [place?] using this
  have h1 := key o.size
  have h2 := key o'.size
  omega

/-! ## Well-owned outlines -/

/-- The entities of an outline form a tree with the file as its root. -/
structure WellOwned (o : Outline) : Prop where
  linked : o.linked = true
  root : o.scopeKind? 0 = some .file
  unowned : o.owner? 0 = none
  /-- Every entity but the file is owned by an earlier scope. -/
  owner : ∀ {i : Nat}, 0 < i → i < o.size →
    ∃ p, p < i ∧ o.owner? i = some p ∧ (o.scopeKind? p).isSome
  /-- There is no second file. -/
  inner : ∀ {i : Nat}, 0 < i → o.scopeKind? i ≠ some .file
  /-- What is owned is what names its owner, in ascending order. -/
  owned : ∀ p, o.owned p = (List.range o.size).filter fun i => o.owner? i = some p

/-- Each entity is owned by the one before it or by a scope around that one. -/
def Stacked (o : Outline) : Prop :=
  ∀ i p, o.owner? (i + 1) = some p → p ∈ i :: o.ancestors i

/-- The owned scope that a descent towards an offset steps into: the last one that holds it. -/
def innerScope? (o : Outline) (offset : Int) (i : Nat) : Option Nat :=
  ((o.children i).filter (o.covers offset)).getLast?

section AddPlaces

variable {o : Outline} (hl : o.linked = true) {p : Nat} (hp : p < o.size) (e : Entity)

include hl in
theorem owner?_add (i : Nat) :
    (o.add p e).1.owner? i = if i = o.size then some p else o.owner? i := by
  simp only [owner?_eq, get?_add hl, Option.bind_map]
  by_cases hi : i = o.size
  · simp only [hi, ↓reduceIte, Option.bind_some, Function.comp_apply]
    split <;> simp
  · simp only [hi, ↓reduceIte]
    congr 1
    funext x
    simp only [Function.comp_apply]
    split <;> simp

include hl in
theorem scopeKind?_add (i : Nat) :
    (o.add p e).1.scopeKind? i = if i = o.size then e.scopeKind? else o.scopeKind? i := by
  simp only [scopeKind?, get?_add hl, Option.bind_map]
  by_cases hi : i = o.size
  · simp only [hi, ↓reduceIte, Option.bind_some, Function.comp_apply]
    split
    · rw [Entity.scopeKind?_mapBody]
      rfl
    · rfl
  · simp only [hi, ↓reduceIte]
    congr 1
    funext x
    simp only [Function.comp_apply]
    split <;> simp

include hl hp in
theorem owned_add (hs : (o.scopeKind? p).isSome) (i : Nat) :
    (o.add p e).1.owned i =
      if i = o.size then e.children else if i = p then o.owned i ++ [o.size] else o.owned i := by
  simp only [owned_eq, get?_add hl]
  by_cases hi : i = o.size
  · simp [hi, Nat.ne_of_lt hp, Entity.children, Entity.body?]
  · by_cases hip : p = i
    · subst hip
      obtain ⟨x, hx⟩ := Option.isSome_iff_exists.1 (get?_isSome_iff.2 hp)
      simp only [scopeKind?, hx, Option.bind_some] at hs
      simp only [hi, hx, ↓reduceIte, Option.map_some, Option.getD_some]
      obtain ⟨detail, name, parent, span, doc⟩ := x
      cases detail with
      | scope k b => rfl
      | «variable» => simp [Entity.scopeKind?] at hs
      | external _ => simp [Entity.scopeKind?] at hs
    · simp [hi, hip, Ne.symm hip]

end AddPlaces

namespace WellOwned

variable {o : Outline}

/-- Ownership is a matter of places alone. -/
theorem congr {o' : Outline} (h : WellOwned o) (hl : o'.linked = o.linked)
    (hp : ∀ i, o'.place? i = o.place? i) : WellOwned o' := by
  have hsize : o'.size = o.size := size_eq_of_place? hp
  have howner : ∀ i, o'.owner? i = o.owner? i := fun i => by simp only [owner?, hp]
  have hkind : ∀ i, o'.scopeKind? i = o.scopeKind? i := fun i => by simp only [scopeKind?_eq, hp]
  refine ⟨hl.trans h.linked, (hkind 0).trans h.root, (howner 0).trans h.unowned, ?_, ?_, ?_⟩
  · intro i hi hlt
    obtain ⟨p, hp, ho, hs⟩ := h.owner hi (hsize ▸ hlt)
    exact ⟨p, hp, (howner i).trans ho, by rw [hkind]; exact hs⟩
  · intro i hi
    rw [hkind]
    exact h.inner hi
  · intro p
    have howned : o'.owned p = o.owned p := by simp only [Outline.owned, hp]
    simp only [howned, h.owned p, hsize, howner]

theorem modify {f : Entity → Entity} (h : WellOwned o) (i : Nat)
    (hf : ∀ e, (f e).place = e.place) : WellOwned (o.modify i f) :=
  h.congr rfl fun j => place?_modify i j hf

theorem size_pos (h : WellOwned o) : 0 < o.size :=
  lt_size_of_scopeKind? (by simp [h.root])

/-- An owner is an earlier scope. -/
theorem owner?_spec (h : WellOwned o) {i p : Nat} (hi : o.owner? i = some p) :
    p < i ∧ (o.scopeKind? p).isSome := by
  have hlt := lt_size_of_owner? hi
  rcases Nat.eq_zero_or_pos i with rfl | hpos
  · rw [h.unowned] at hi
    cases hi
  · obtain ⟨q, hq, ho, hscope⟩ := h.owner hpos hlt
    rw [ho] at hi
    cases hi
    exact ⟨hq, hscope⟩

theorem owner?_lt (h : WellOwned o) {i p : Nat} (hi : o.owner? i = some p) : p < i :=
  (h.owner?_spec hi).1

theorem mem_owned (h : WellOwned o) {c p : Nat} : c ∈ o.owned p ↔ o.owner? c = some p := by
  rw [h.owned]
  simp only [List.mem_filter, List.mem_range, decide_eq_true_eq, and_iff_right_iff_imp]
  exact lt_size_of_owner?

/-- A fresh entity below a scope keeps the tree. -/
theorem add (h : WellOwned o) {p : Nat} (hs : (o.scopeKind? p).isSome) {e : Entity}
    (hc : e.children = []) (hk : e.scopeKind? ≠ some .file) : WellOwned (o.add p e).1 := by
  have hl := h.linked
  have hp : p < o.size := lt_size_of_scopeKind? hs
  have hpos := h.size_pos
  refine ⟨linked_add hl p e, ?_, ?_, ?_, ?_, ?_⟩
  · rw [scopeKind?_add hl, if_neg (by omega)]
    exact h.root
  · rw [owner?_add hl, if_neg (by omega)]
    exact h.unowned
  · intro i hi hlt
    rw [size_add hl] at hlt
    rw [owner?_add hl]
    by_cases hie : i = o.size
    · refine ⟨p, by omega, by simp [hie], ?_⟩
      rw [scopeKind?_add hl, if_neg (by omega)]
      exact hs
    · obtain ⟨q, hq, ho, hqs⟩ := h.owner hi (by omega)
      refine ⟨q, hq, by simp [hie, ho], ?_⟩
      rw [scopeKind?_add hl, if_neg (by omega)]
      exact hqs
  · intro i hi
    rw [scopeKind?_add hl]
    split
    · exact hk
    · exact h.inner hi
  · intro q
    -- the old numbers name the owners they named, and the new one names `p`
    have hold : (List.range o.size).filter (fun i => (o.add p e).1.owner? i = some q) =
        o.owned q := by
      rw [h.owned q]
      refine List.filter_congr fun i hi => ?_
      rw [owner?_add hl, if_neg (Nat.ne_of_lt (List.mem_range.1 hi))]
    rw [size_add hl, List.range_succ, List.filter_append, hold, owned_add hl hp e hs]
    simp only [owner?_add hl, List.filter_singleton, ↓reduceIte, Option.some.injEq]
    by_cases hq : q = o.size
    · have hnil : o.owned q = [] := by
        rw [hq, owned_eq, get?_eq_none_iff.2 (Nat.le_refl _)]
        rfl
      have hpq : p ≠ o.size := by omega
      simp [hq ▸ hnil, hq, hc, hpq]
    · by_cases hpq : q = p
      · simp [hpq, Nat.ne_of_lt hp]
      · simp [hq, hpq, Ne.symm hpq]

/-! ## Going up -/

/-- Following owners from any entity leads to the file. -/
theorem climbs (h : WellOwned o) {i : Nat} (hi : i < o.size) :
    Relation.ReflTransGen (fun j p => o.owner? j = some p) i 0 := by
  induction i using Nat.strong_induction_on with
  | _ i ih =>
    rcases Nat.eq_zero_or_pos i with rfl | hpos
    · exact .refl
    · obtain ⟨p, hp, ho, -⟩ := h.owner hpos hi
      exact .head ho (ih p hp (Nat.lt_trans hp hi))

theorem parent?_eq (h : WellOwned o) (i : Nat) : o.parent? i = o.owner? i := by
  rw [Outline.parent?, ← owner?_eq]
  cases ho : o.owner? i with
  | none => rfl
  | some p => simp [h.owner?_lt ho]

theorem ancestors_of_unowned (h : WellOwned o) {i : Nat} (hi : o.owner? i = none) :
    o.ancestors i = [] := by
  rw [ancestors_eq, h.parent?_eq, hi]

theorem ancestors_of_owner? (h : WellOwned o) {i p : Nat} (hi : o.owner? i = some p) :
    o.ancestors i = p :: o.ancestors p := by
  rw [ancestors_eq, h.parent?_eq, hi]

theorem lt_of_mem_ancestors (h : WellOwned o) {i j : Nat} (hj : j ∈ o.ancestors i) : j < i := by
  induction i using Nat.strong_induction_on with
  | _ i ih =>
    cases ho : o.owner? i with
    | none =>
      rw [h.ancestors_of_unowned ho] at hj
      cases hj
    | some p =>
      rw [h.ancestors_of_owner? ho] at hj
      have hp := h.owner?_lt ho
      rcases List.mem_cons.1 hj with rfl | hj
      · exact hp
      · exact Nat.lt_trans (ih p hp hj) hp

/-- A scope around a scope around an entity is around the entity too. -/
theorem mem_ancestors_trans (h : WellOwned o) {i c p : Nat} (hc : c ∈ o.ancestors i)
    (hp : p ∈ o.ancestors c) : p ∈ o.ancestors i := by
  induction i using Nat.strong_induction_on with
  | _ i ih =>
    cases ho : o.owner? i with
    | none =>
      rw [h.ancestors_of_unowned ho] at hc
      cases hc
    | some q =>
      rw [h.ancestors_of_owner? ho] at hc ⊢
      refine List.mem_cons_of_mem _ ?_
      rcases List.mem_cons.1 hc with rfl | hc
      · exact hp
      · exact ih q (h.owner?_lt ho) hc

theorem zero_mem_ancestors (h : WellOwned o) {i : Nat} (hpos : 0 < i) (hi : i < o.size) :
    0 ∈ o.ancestors i := by
  induction i using Nat.strong_induction_on with
  | _ i ih =>
    obtain ⟨p, hp, ho, -⟩ := h.owner hpos hi
    rw [h.ancestors_of_owner? ho]
    rcases Nat.eq_zero_or_pos p with rfl | hp0
    · exact List.mem_cons_self
    · exact List.mem_cons_of_mem _ (ih p hp hp0 (Nat.lt_trans hp hi))

/-- The file around any entity is entity zero. -/
theorem fileOf_eq (h : WellOwned o) {i : Nat} (hi : i < o.size) : o.fileOf i = some 0 := by
  unfold fileOf
  induction i using Nat.strong_induction_on with
  | _ i ih =>
    rcases Nat.eq_zero_or_pos i with rfl | hpos
    · simp [h.root]
    · obtain ⟨p, hp, ho, -⟩ := h.owner hpos hi
      have hne : (o.scopeKind? i == some .file) = false := by simpa using h.inner hpos
      rw [List.find?_cons, hne, h.ancestors_of_owner? ho]
      exact ih p hp (Nat.lt_trans hp hi)

/-! ## Going down -/

theorem children_eq (h : WellOwned o) (i : Nat) : o.children i = o.owned i := by
  have hfilter : (o.owned i).filter (· < o.size) = o.owned i := by
    rw [List.filter_eq_self]
    intro c hc
    simpa using lt_size_of_owner? (h.mem_owned.1 hc)
  rw [← hfilter, owned_eq, Outline.children]
  cases o.get? i <;> rfl

theorem owned_bounds (h : WellOwned o) {i c : Nat} (hc : c ∈ o.owned i) : i < c ∧ c < o.size :=
  ⟨h.owner?_lt (h.mem_owned.1 hc), lt_size_of_owner? (h.mem_owned.1 hc)⟩

/-- Descending never meets a number that is out of order, so nothing is left out. -/
theorem descendants_eq (h : WellOwned o) (i : Nat) :
    o.descendants i = (o.owned i).flatMap fun c => c :: o.descendants c := by
  rw [descendants, h.children_eq]
  refine List.flatMap_congr fun c hc => ?_
  rw [dif_pos (h.owned_bounds hc)]

theorem mem_descendants_cons (h : WellOwned o) {i j : Nat} :
    j ∈ o.descendants i ↔ ∃ c ∈ o.owned i, j = c ∨ j ∈ o.descendants c := by
  rw [h.descendants_eq]
  simp [List.mem_flatMap]

/-- What an entity below a scope owns is below that scope too. -/
theorem mem_descendants_of_owned (h : WellOwned o) {i p j : Nat} (hp : p ∈ o.descendants i)
    (hj : j ∈ o.owned p) : j ∈ o.descendants i := by
  induction hn : o.size - i using Nat.strong_induction_on generalizing i with
  | _ n ih =>
    obtain ⟨c, hc, hpc⟩ := h.mem_descendants_cons.1 hp
    refine h.mem_descendants_cons.2 ⟨c, hc, Or.inr ?_⟩
    rcases hpc with rfl | hpc
    · exact h.mem_descendants_cons.2 ⟨j, hj, Or.inl rfl⟩
    · have hb := h.owned_bounds hc
      exact ih (o.size - c) (by omega) hpc rfl

/-- An entity is below a scope exactly if the scope is around it. -/
theorem mem_descendants (h : WellOwned o) {i j : Nat} :
    j ∈ o.descendants i ↔ i ∈ o.ancestors j := by
  constructor
  · intro hj
    induction hn : o.size - i using Nat.strong_induction_on generalizing i with
    | _ n ih =>
      obtain ⟨c, hc, hjc⟩ := h.mem_descendants_cons.1 hj
      have ho := h.mem_owned.1 hc
      have hb := h.owned_bounds hc
      rcases hjc with rfl | hjc
      · rw [h.ancestors_of_owner? ho]
        exact List.mem_cons_self
      · have hcj : c ∈ o.ancestors j := ih (o.size - c) (by omega) hjc rfl
        refine h.mem_ancestors_trans hcj ?_
        rw [h.ancestors_of_owner? ho]
        exact List.mem_cons_self
  · intro hi
    induction j using Nat.strong_induction_on with
    | _ j ih =>
      cases ho : o.owner? j with
      | none =>
        rw [h.ancestors_of_unowned ho] at hi
        cases hi
      | some p =>
        rw [h.ancestors_of_owner? ho] at hi
        rcases List.mem_cons.1 hi with rfl | hi
        · exact h.mem_descendants_cons.2 ⟨j, h.mem_owned.2 ho, Or.inl rfl⟩
        · exact h.mem_descendants_of_owned (ih p (h.owner?_lt ho) hi) (h.mem_owned.2 ho)

/-- Two entities of one owner are not both around, or equal to, one entity. -/
theorem eq_of_common_descendant (h : WellOwned o) {i c d x : Nat} (hc : o.owner? c = some i)
    (hd : o.owner? d = some i) (hxc : c ∈ x :: o.ancestors x) (hxd : d ∈ x :: o.ancestors x) :
    c = d := by
  have below : ∀ {a b : Nat}, o.owner? a = some i → o.owner? b = some i → b ∉ o.ancestors a := by
    intro a b ha hb hmem
    rw [h.ancestors_of_owner? ha] at hmem
    have hib := h.owner?_lt hb
    rcases List.mem_cons.1 hmem with rfl | hmem
    · omega
    · have := h.lt_of_mem_ancestors hmem
      omega
  induction x using Nat.strong_induction_on with
  | _ x ih =>
    rcases List.mem_cons.1 hxc with rfl | hxc
    · rcases List.mem_cons.1 hxd with rfl | hxd
      · rfl
      · exact absurd hxd (below hc hd)
    · rcases List.mem_cons.1 hxd with rfl | hxd
      · exact absurd hxc (below hd hc)
      · cases ho : o.owner? x with
        | none =>
          rw [h.ancestors_of_unowned ho] at hxc
          cases hxc
        | some p =>
          rw [h.ancestors_of_owner? ho] at hxc hxd
          exact ih p (h.owner?_lt ho) hxc hxd

theorem nodup_owned (h : WellOwned o) (p : Nat) : (o.owned p).Nodup := by
  rw [h.owned]
  exact List.nodup_range.filter _

theorem pairwise_lt_owned (h : WellOwned o) (p : Nat) : (o.owned p).Pairwise (· < ·) := by
  rw [h.owned]
  exact List.pairwise_lt_range.filter _

/-- Descending meets no entity twice. -/
theorem nodup_descendants (h : WellOwned o) (i : Nat) : (o.descendants i).Nodup := by
  induction hn : o.size - i using Nat.strong_induction_on generalizing i with
  | _ n ih =>
    rw [h.descendants_eq, List.nodup_flatMap]
    constructor
    · intro c hc
      have hb := h.owned_bounds hc
      refine List.nodup_cons.2 ⟨fun hmem => ?_, ih (o.size - c) (by omega) c rfl⟩
      exact Nat.lt_irrefl c (h.lt_of_mem_ancestors (h.mem_descendants.1 hmem))
    · refine (h.nodup_owned i).imp_of_mem fun {c d} hc hd hne => ?_
      intro x hxc hxd
      have around : ∀ {a : Nat}, x ∈ a :: o.descendants a → a ∈ x :: o.ancestors x := by
        intro a hx
        rcases List.mem_cons.1 hx with rfl | hx
        · exact List.mem_cons_self
        · exact List.mem_cons_of_mem _ (h.mem_descendants.1 hx)
      exact hne (h.eq_of_common_descendant (h.mem_owned.1 hc) (h.mem_owned.1 hd) (around hxc)
        (around hxd))

/-- Going down from the file meets every other entity exactly once. -/
theorem descendants_perm (h : WellOwned o) :
    (o.descendants 0).Perm (List.range' 1 (o.size - 1)) := by
  refine (List.perm_ext_iff_of_nodup (h.nodup_descendants 0) List.nodup_range').2 fun j => ?_
  rw [h.mem_descendants, List.mem_range'_1]
  constructor
  · intro hj
    have hpos := h.lt_of_mem_ancestors hj
    cases ho : o.owner? j with
    | none =>
      rw [h.ancestors_of_unowned ho] at hj
      cases hj
    | some p =>
      have := lt_size_of_owner? ho
      omega
  · intro hj
    exact h.zero_mem_ancestors (by omega) (by omega)

/-! ## Entities that are numbered as they are visited -/

/-- Once a later entity of the same owner exists, a scope takes in nothing more. -/
theorem not_around_of_le (h : WellOwned o) (hs : o.Stacked) {i c d k : Nat}
    (hc : o.owner? c = some i) (hd : o.owner? d = some i) (hcd : c < d) (hdk : d ≤ k)
    (hk : k < o.size) : c ∉ k :: o.ancestors k := by
  induction k, hdk using Nat.le_induction with
  | base =>
    intro hmem
    have := h.eq_of_common_descendant hc hd hmem List.mem_cons_self
    omega
  | succ k hdk ih =>
    have hk' : c ∉ k :: o.ancestors k := ih (by omega)
    obtain ⟨p, -, ho, -⟩ := h.owner (Nat.succ_pos k) hk
    have hp : p ∈ k :: o.ancestors k := hs k p ho
    intro hmem
    rw [h.ancestors_of_owner? ho] at hmem
    rcases List.mem_cons.1 hmem with rfl | hcp
    · omega
    · apply hk'
      rcases List.mem_cons.1 hp with rfl | hp
      · exact hcp
      · refine List.mem_cons_of_mem _ ?_
        rcases List.mem_cons.1 hcp with rfl | hcp
        · exact hp
        · exact h.mem_ancestors_trans hp hcp

/-- If entities are stacked, descending meets them in ascending order. -/
theorem pairwise_lt_descendants (h : WellOwned o) (hs : o.Stacked) (i : Nat) :
    (o.descendants i).Pairwise (· < ·) := by
  induction hn : o.size - i using Nat.strong_induction_on generalizing i with
  | _ n ih =>
    rw [h.descendants_eq, List.pairwise_flatMap]
    constructor
    · intro c hc
      have hb := h.owned_bounds hc
      refine List.pairwise_cons.2 ⟨fun x hx => ?_, ih (o.size - c) (by omega) c rfl⟩
      exact h.lt_of_mem_ancestors (h.mem_descendants.1 hx)
    · refine (h.pairwise_lt_owned i).imp_of_mem fun {c d} hc hd hcd => ?_
      intro x hx y hy
      have hdy : d ≤ y := by
        rcases List.mem_cons.1 hy with rfl | hy
        · exact Nat.le_refl _
        · exact Nat.le_of_lt (h.lt_of_mem_ancestors (h.mem_descendants.1 hy))
      rcases List.mem_cons.1 hx with rfl | hx
      · omega
      · have hx' := h.mem_descendants.1 hx
        by_contra hge
        have hxsize : x < o.size := by
          by_contra hout
          rw [h.ancestors_of_unowned] at hx'
          · cases hx'
          · rw [owner?_eq, get?_eq_none_iff.2 (by omega)]
            rfl
        exact h.not_around_of_le hs (h.mem_owned.1 hc) (h.mem_owned.1 hd) hcd (by omega) hxsize
          (List.mem_cons_of_mem _ hx')

theorem descendants_eq_range' (h : WellOwned o) (hs : o.Stacked) :
    o.descendants 0 = List.range' 1 (o.size - 1) :=
  h.descendants_perm.eq_of_pairwise
    (fun _ _ _ _ hab hba => absurd (Nat.lt_trans hab hba) (Nat.lt_irrefl _))
    (h.pairwise_lt_descendants hs 0) (List.pairwise_lt_range')

/-! ## Stepping into scopes -/

theorem innerScope?_bounds (h : WellOwned o) {offset : Int} {i c : Nat}
    (hc : o.innerScope? offset i = some c) : i < c ∧ c < o.size := by
  have hmem := List.mem_of_getLast? hc
  rw [h.children_eq] at hmem
  exact h.owned_bounds (List.mem_filter.1 hmem).1

theorem scopeAt_of_none {offset : Int} {i : Nat} (hc : o.innerScope? offset i = none) :
    o.scopeAt offset i = i := by
  rw [scopeAt]
  rw [innerScope?] at hc
  rw [hc]

theorem scopeAt_of_some (h : WellOwned o) {offset : Int} {i c : Nat}
    (hc : o.innerScope? offset i = some c) : o.scopeAt offset i = o.scopeAt offset c := by
  have hb := h.innerScope?_bounds hc
  rw [scopeAt]
  rw [innerScope?] at hc
  simp only [hc, hb, and_self, ↓reduceDIte]

/-- The descent towards an offset goes from scope to inner scope and ends where there is none. -/
theorem scopeAt_steps (h : WellOwned o) (offset : Int) (i : Nat) :
    Relation.ReflTransGen (fun j c => o.innerScope? offset j = some c) i (o.scopeAt offset i) ∧
      o.innerScope? offset (o.scopeAt offset i) = none := by
  induction hn : o.size - i using Nat.strong_induction_on generalizing i with
  | _ n ih =>
    cases hc : o.innerScope? offset i with
    | none =>
      rw [scopeAt_of_none hc]
      exact ⟨.refl, hc⟩
    | some c =>
      have hb := h.innerScope?_bounds hc
      obtain ⟨hsteps, hend⟩ := ih (o.size - c) (by omega) c rfl
      rw [h.scopeAt_of_some hc]
      exact ⟨.head hc hsteps, hend⟩

end WellOwned

end Outline

end SymbolAtlas
