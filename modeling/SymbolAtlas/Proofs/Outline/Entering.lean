import Mathlib
import SymbolAtlas.Outline.Population
import SymbolAtlas.Proofs.Outline.Ownership

/-!
# Entering declarations into an outline

A walk changes an outline in one way only: it enters a declaration, which adds one entity and shows
it.  `Outline.enter` is that step.  In an outline that is ready for a walk (well-owned, open, with a
home namespace) no declaration is refused (`declare_eq` and its companions), the step appends
exactly the stated entity and changes nothing that was stated before (`bares_enter`), and the
outline is ready again (`Ready.enter`).  A property of outlines that one step keeps is kept by a
whole list of admitted declarations (`Admits.keeps`).
-/

namespace SymbolAtlas

/-! ## What is stated of an entity -/

/-- A detail without what the walk and the linking add to it. -/
def Detail.bare : Detail → Detail
  | .scope k _ => .scope k {}
  | .variable => .variable
  | .external i => .external { i with link := .pending }

namespace Entity

/-- What is stated of an entity: all but what it owns, shows and links to. -/
def bare (e : Entity) : Entity :=
  { e with detail := e.detail.bare }

/-- The entity owns and shows nothing, is open and is no file. -/
def IsFresh (e : Entity) : Prop :=
  e.bare = e ∧ e.scopeKind? ≠ some .file

@[simp] theorem bare_mapBody (f : Body → Body) (e : Entity) : (e.mapBody f).bare = e.bare := by
  obtain ⟨detail, name, parent, span, doc⟩ := e
  cases detail <;> rfl

@[simp] theorem bare_mapInclusion_link (l : Link) (e : Entity) :
    (e.mapInclusion fun i => { i with link := l }).bare = e.bare := by
  obtain ⟨detail, name, parent, span, doc⟩ := e
  cases detail <;> rfl

@[simp] theorem scopeKind?_bare (e : Entity) : e.bare.scopeKind? = e.scopeKind? := by
  obtain ⟨detail, name, parent, span, doc⟩ := e
  cases detail <;> rfl

theorem IsFresh.children_eq {e : Entity} (h : e.IsFresh) : e.children = [] := by
  rw [← h.1]
  obtain ⟨detail, name, parent, span, doc⟩ := e
  cases detail <;> rfl

theorem IsFresh.closed_eq {e : Entity} (h : e.IsFresh) {b : Body} (hb : e.body? = some b) :
    b.closed = false := by
  rw [← h.1] at hb
  obtain ⟨detail, name, parent, span, doc⟩ := e
  cases detail <;> simp [bare, Detail.bare, body?] at hb
  rw [← hb]

end Entity

namespace Outline

/-- What is stated of the entities of an outline. -/
def bares (o : Outline) : List Entity :=
  o.entities.toList.map Entity.bare

@[simp] theorem length_bares (o : Outline) : o.bares.length = o.size := by
  simp [bares, size]

theorem getElem?_bares (o : Outline) (i : Nat) : o.bares[i]? = (o.get? i).map Entity.bare := by
  simp [bares, get?]

theorem bares_ext {o o' : Outline}
    (h : ∀ i, (o'.get? i).map Entity.bare = (o.get? i).map Entity.bare) : o'.bares = o.bares := by
  refine List.ext_getElem? fun i => ?_
  rw [getElem?_bares, getElem?_bares, h]

theorem bares_modify (o : Outline) (i : Nat) {f : Entity → Entity}
    (hf : ∀ e, (f e).bare = e.bare) : (o.modify i f).bares = o.bares := by
  refine bares_ext fun j => ?_
  rw [get?_modify]
  split
  · rw [Option.map_map]
    exact Option.map_congr fun e _ => hf e
  · rfl

theorem bares_close (o : Outline) : o.close.bares = o.bares := by
  refine bares_ext fun i => ?_
  rw [get?_close, Option.map_map]
  exact Option.map_congr fun e _ => e.bare_mapBody _

theorem bares_add {o : Outline} (hl : o.linked = true) (p : Nat) (e : Entity) :
    (o.add p e).1.bares = o.bares ++ [{ e.bare with parent := some p }] := by
  refine List.ext_getElem? fun i => ?_
  rw [getElem?_bares, get?_add hl, Option.map_map]
  have hbare : (Entity.bare ∘ fun x : Entity =>
      if p = i then x.mapBody fun b => { b with children := b.children ++ [o.size] } else x) =
      Entity.bare := by
    funext x
    simp only [Function.comp_apply]
    split
    · exact x.bare_mapBody _
    · rfl
  rw [hbare, List.getElem?_append, length_bares]
  by_cases hlt : i < o.size
  · rw [if_neg (by omega), if_pos hlt, getElem?_bares]
  · rw [if_neg hlt]
    by_cases hi : i = o.size
    · subst hi
      simp only [↓reduceIte, Nat.sub_self, List.getElem?_cons_zero]
      rfl
    · rw [if_neg hi, get?_eq_none_iff.2 (by omega), List.getElem?_eq_none (by simp; omega)]
      rfl

/-- Owners and kinds of scopes are stated, so they can be read off. -/
theorem owner?_eq_bares (o : Outline) (i : Nat) : o.owner? i = o.bares[i]?.bind Entity.parent := by
  rw [owner?_eq, getElem?_bares, Option.bind_map]
  rfl

theorem scopeKind?_eq_bares (o : Outline) (i : Nat) :
    o.scopeKind? i = o.bares[i]?.bind Entity.scopeKind? := by
  rw [scopeKind?, getElem?_bares, Option.bind_map]
  congr 1
  funext e
  exact e.scopeKind?_bare.symm

theorem isNamespace_eq_bares (o : Outline) (i : Nat) :
    o.isNamespace i = (o.bares[i]?.bind Entity.scopeKind? == some .namespaceScope) := by
  rw [isNamespace, scopeKind?_eq_bares]

theorem isExternal_eq_bares (o : Outline) (i : Nat) :
    o.isExternal i = (o.bares[i]?.bind Entity.inclusion?).isSome := by
  rw [isExternal, getElem?_bares, Option.bind_map]
  cases o.get? i with
  | none => rfl
  | some e =>
    obtain ⟨detail, name, parent, span, doc⟩ := e
    cases detail <;> rfl

/-! ## Scopes around an entity after a change -/

section Congr

variable {o o' : Outline} {i : Nat}

theorem ancestors_congr (h : ∀ j, j ≤ i → o'.owner? j = o.owner? j) :
    o'.ancestors i = o.ancestors i := by
  induction i using Nat.strong_induction_on with
  | _ i ih =>
    have hp : o'.parent? i = o.parent? i := by
      simp only [parent?, ← owner?_eq, h i (Nat.le_refl i)]
    rw [ancestors_eq, ancestors_eq o, hp]
    cases hq : o.parent? i with
    | none => rfl
    | some p =>
      have hlt := parent?_lt hq
      simp only [ih p hlt fun j hj => h j (Nat.le_trans hj (Nat.le_of_lt hlt))]

theorem mem_ancestors_le {j : Nat} (h : j ∈ o.ancestors i) : j ≤ i := by
  induction i using Nat.strong_induction_on with
  | _ i ih =>
    rw [ancestors_eq] at h
    split at h
    · rename_i p hp
      have hlt := parent?_lt hp
      rcases List.mem_cons.1 h with rfl | h
      · exact Nat.le_of_lt hlt
      · exact Nat.le_trans (ih p hlt h) (Nat.le_of_lt hlt)
    · cases h

theorem namespaceOf_congr (ho : ∀ j, j ≤ i → o'.owner? j = o.owner? j)
    (hk : ∀ j, j ≤ i → o'.scopeKind? j = o.scopeKind? j) (hh : o'.home = o.home) :
    o'.namespaceOf i = o.namespaceOf i := by
  have hle : ∀ j ∈ i :: o.ancestors i, j ≤ i := by
    intro j hj
    rcases List.mem_cons.1 hj with rfl | hj
    · exact Nat.le_refl _
    · exact mem_ancestors_le hj
  have hns : (i :: o.ancestors i).find? o'.isNamespace = (i :: o.ancestors i).find? o.isNamespace :=
    List.find?_congr fun j hj => by simp only [isNamespace, hk j (hle j hj)]
  have hfile : o'.fileOf i = o.fileOf i := by
    rw [fileOf, fileOf, ancestors_congr ho]
    exact List.find?_congr fun j hj => by rw [hk j (hle j hj)]
  rw [namespaceOf, namespaceOf, ancestors_congr ho, hns, hfile, hh]

end Congr

/-! ## Outlines that are ready for a walk -/

/-- An outline that a walk can go on with. -/
structure Ready (o : Outline) : Prop where
  wellOwned : WellOwned o
  /-- Every scope still takes members. -/
  isOpen : ∀ {i : Nat} {e : Entity} {b : Body}, o.get? i = some e → e.body? = some b →
    b.closed = false
  /-- There is a namespace for what is declared outside of all others. -/
  home : ∃ n, o.home = some n ∧ o.isNamespace n = true

/-- Shows a member in one of the lists of a scope. -/
def display (o : Outline) (list : MemberList) (id : Nat) (scope : Nat) : Outline :=
  o.modify scope (Entity.mapBody fun b => { b with members := b.members.push list id })

/-- The scopes that show what is declared in a scope: the scope and, for what is shared, the
namespace around it. -/
def hosts (o : Outline) (scope : Nat) (shared : Bool) : List Nat :=
  scope :: if shared && !o.isNamespace scope then (o.namespaceOf scope).toList else []

section Display

variable (o : Outline) (list : MemberList) (id scope : Nat)

theorem place?_display (i : Nat) : (o.display list id scope).place? i = o.place? i :=
  place?_modify scope i fun e =>
    e.place_mapBody (fun b => { b with members := b.members.push list id }) fun _ => rfl

theorem bares_display : (o.display list id scope).bares = o.bares :=
  o.bares_modify scope fun e => e.bare_mapBody _

theorem owner?_display (i : Nat) : (o.display list id scope).owner? i = o.owner? i := by
  simp only [owner?, place?_display]

theorem scopeKind?_display (i : Nat) : (o.display list id scope).scopeKind? i = o.scopeKind? i := by
  simp only [scopeKind?_eq, place?_display]

theorem isNamespace_display (i : Nat) :
    (o.display list id scope).isNamespace i = o.isNamespace i := by
  simp only [isNamespace, scopeKind?_display]

end Display

namespace Ready

variable {o : Outline}

theorem isClosed_eq (h : Ready o) {i : Nat} (hs : (o.scopeKind? i).isSome) :
    o.isClosed i = false := by
  obtain ⟨k, hk⟩ := Option.isSome_iff_exists.1 hs
  obtain ⟨e, he, hek⟩ := Option.bind_eq_some_iff.1 hk
  have hbody : e.body?.isSome := by
    have := e.isScope_eq
    rw [hek] at this
    exact this
  obtain ⟨b, hb⟩ := Option.isSome_iff_exists.1 hbody
  simp only [isClosed, he, Option.bind_some, hb]
  exact h.isOpen he hb

theorem show?_eq (h : Ready o) {i : Nat} (hs : (o.scopeKind? i).isSome) (list : MemberList)
    (id : Nat) : o.show? i list id = some (o.display list id i) := by
  rw [show?, h.isClosed_eq hs]
  rfl

theorem display (h : Ready o) (list : MemberList) (id scope : Nat) :
    Ready (o.display list id scope) := by
  refine ⟨h.wellOwned.congr rfl (place?_display o list id scope), ?_, ?_⟩
  · intro i e b he hb
    rw [Outline.display, get?_modify] at he
    split at he
    · obtain ⟨x, hx, rfl⟩ := Option.map_eq_some_iff.1 he
      rw [Entity.body?_mapBody, Option.map_eq_some_iff] at hb
      obtain ⟨c, hc, rfl⟩ := hb
      exact h.isOpen (b := c) hx hc
    · exact h.isOpen he hb
  · obtain ⟨n, hn, hns⟩ := h.home
    exact ⟨n, hn, by rw [isNamespace_display]; exact hns⟩

theorem add (h : Ready o) {p : Nat} (hs : (o.scopeKind? p).isSome) {e : Entity}
    (he : e.IsFresh) : Ready (o.add p e).1 := by
  have hl := h.wellOwned.linked
  refine ⟨h.wellOwned.add hs he.children_eq he.2, ?_, ?_⟩
  · intro i x b hx hb
    rw [get?_add hl, Option.map_eq_some_iff] at hx
    obtain ⟨y, hy, rfl⟩ := hx
    have hclosed : ∀ {c : Body}, y.body? = some c → c.closed = false := by
      intro c hc
      split at hy
      · cases hy
        exact he.closed_eq hc
      · exact h.isOpen hy hc
    split at hb
    · rw [Entity.body?_mapBody, Option.map_eq_some_iff] at hb
      obtain ⟨c, hc, rfl⟩ := hb
      exact hclosed (c := c) hc
    · exact hclosed hb
  · obtain ⟨n, hn, hns⟩ := h.home
    refine ⟨n, by simp [hn], ?_⟩
    have hlt : n < o.size := lt_size_of_scopeKind? (by
      simp only [isNamespace, beq_iff_eq] at hns
      simp [hns])
    rw [isNamespace, scopeKind?_add hl, if_neg (by omega)]
    exact hns

theorem congr {o' : Outline} (h : Ready o) (hl : o'.linked = o.linked)
    (he : o'.entities = o.entities) (hh : o'.home = o.home) : Ready o' := by
  have hget : ∀ i, o'.get? i = o.get? i := fun i => by simp only [get?, he]
  refine ⟨h.wellOwned.congr hl fun i => by simp only [place?, hget], ?_, ?_⟩
  · intro i e b hi hb
    exact h.isOpen (hget i ▸ hi) hb
  · obtain ⟨n, hn, hns⟩ := h.home
    exact ⟨n, hh.trans hn, by simpa only [isNamespace, scopeKind?, hget] using hns⟩

/-- Every scope lies in a namespace, if only in the home of the file. -/
theorem exists_namespaceOf (h : Ready o) {i : Nat} (hi : i < o.size) :
    ∃ n, o.namespaceOf i = some n ∧ o.isNamespace n = true := by
  unfold namespaceOf
  split
  · rename_i n hn
    exact ⟨n, rfl, List.find?_some hn⟩
  · obtain ⟨n, hn, hns⟩ := h.home
    exact ⟨n, by simp [h.wellOwned.fileOf_eq hi, hn], hns⟩

end Ready

/-! ## Declaring without a fault -/

section Declare

variable {o : Outline} (h : Ready o) {site : Nat} (hs : (o.scopeKind? site).isSome) {e : Entity}
  (he : e.IsFresh)

/-- An added entity that is shown in scopes. -/
def addShown (o : Outline) (site : Nat) (e : Entity) (list : MemberList) (scopes : List Nat) :
    Outline :=
  scopes.foldl (fun x s => x.display list o.size s) (o.add site e).1

/-- What showing a member keeps is kept by showing it in several scopes. -/
theorem addShown_keeps {P : Outline → Prop} {list : MemberList}
    (step : ∀ x s, P x → P (x.display list o.size s)) (hadd : P (o.add site e).1)
    (scopes : List Nat) : P (o.addShown site e list scopes) := by
  have hshown : ∀ (ss : List Nat) (x : Outline), P x →
      P (ss.foldl (fun x s => x.display list o.size s) x) := by
    intro ss
    induction ss with
    | nil => intro x hx; exact hx
    | cons s ss ih => intro x hx; exact ih _ (step x s hx)
  exact hshown scopes _ hadd

include h hs in
theorem scopeKind?_add_of_isSome (p : Nat) (x : Entity) :
    (o.add p x).1.scopeKind? site = o.scopeKind? site := by
  rw [scopeKind?_add h.wellOwned.linked, if_neg (Nat.ne_of_lt (lt_size_of_scopeKind? hs))]

include h hs he in
/-- Declaring adds the entity and shows it in every host. -/
theorem declare_eq (list : MemberList) (shared : Bool) :
    o.declare site e list shared =
      (o.addShown site e list (o.hosts site shared), o.size, none) := by
  have hlt : site < o.size := lt_size_of_scopeKind? hs
  have hl := h.wellOwned.linked
  have hadd : o.add site e = ((o.add site e).1, o.size) := Prod.ext rfl (snd_add o site e)
  have hkind : (o.add site e).1.scopeKind? site = o.scopeKind? site :=
    scopeKind?_add_of_isSome h hs site e
  have hr := h.add hs he
  have hr' := hr.display list o.size site
  have hns : ((o.add site e).1.display list o.size site).isNamespace site = o.isNamespace site := by
    rw [isNamespace_display, isNamespace, hkind]
    rfl
  rw [declare, hadd]
  simp only [hr.show?_eq (hkind ▸ hs) list o.size, hns, addShown, hosts, List.foldl_cons]
  split
  · -- the namespace around the site is the one it lay in before the entity was added
    have hsame : ((o.add site e).1.display list o.size site).namespaceOf site =
        o.namespaceOf site := by
      refine namespaceOf_congr (fun j hj => ?_) (fun j hj => ?_) (home_add o site e)
      · rw [owner?_display, owner?_add hl, if_neg (by omega)]
      · rw [scopeKind?_display, scopeKind?_add hl, if_neg (by omega)]
    obtain ⟨n, hn, hnn⟩ := h.exists_namespaceOf hlt
    have hnk : o.scopeKind? n = some .namespaceScope := by simpa [isNamespace] using hnn
    have hnk' : (((o.add site e).1.display list o.size site).scopeKind? n).isSome := by
      rw [scopeKind?_display, scopeKind?_add_of_isSome h (by simp [hnk]), hnk]
      rfl
    simp only [hsame, hn, hr'.show?_eq hnk' list o.size]
    rfl
  · rfl

include h hs he in
theorem declareNamespace_eq :
    o.declareNamespace site e =
      ({ (o.add 0 e).1 with namespaces := o.namespaces ++ [o.size] }, o.size, none) := by
  have hroot : (o.scopeKind? 0).isSome := by simp [h.wellOwned.root]
  have hadd : o.add 0 e = ((o.add 0 e).1, o.size) := Prod.ext rfl (snd_add o 0 e)
  have hkind : (o.add 0 e).1.scopeKind? 0 = o.scopeKind? 0 := scopeKind?_add_of_isSome h hroot 0 e
  have hclosed := (h.add hroot he).isClosed_eq (hkind ▸ hroot)
  rw [declareNamespace, h.wellOwned.fileOf_eq (lt_size_of_scopeKind? hs)]
  simp only
  rw [hadd]
  simp [showNamespace?, hclosed]

include h hs he in
theorem declareExternal_eq :
    o.declareExternal site e =
      ({ (o.add site e).1 with externals := o.externals ++ [o.size] }, none) := by
  have hroot : (o.scopeKind? 0).isSome := by simp [h.wellOwned.root]
  have hadd : o.add site e = ((o.add site e).1, o.size) := Prod.ext rfl (snd_add o site e)
  have hkind : (o.add site e).1.scopeKind? 0 = o.scopeKind? 0 :=
    scopeKind?_add_of_isSome h hroot site e
  have hclosed := (h.add hs he).isClosed_eq (hkind ▸ hroot)
  rw [declareExternal, h.wellOwned.fileOf_eq (lt_size_of_scopeKind? hs), hadd]
  simp [showExternal?, hclosed]

include h he in
theorem bares_addShown (list : MemberList) (scopes : List Nat) :
    (o.addShown site e list scopes).bares = o.bares ++ [{ e with parent := some site }] := by
  have hadd := bares_add h.wellOwned.linked site e
  rw [he.1] at hadd
  exact addShown_keeps (fun x s hx => (bares_display x list o.size s).trans hx) hadd scopes

include h hs he in
theorem Ready.addShown (list : MemberList) (scopes : List Nat) :
    Ready (o.addShown site e list scopes) :=
  addShown_keeps (fun _ s hx => hx.display list o.size s) (h.add hs he) scopes

end Declare

end Outline

/-! ## One declaration after the other -/

/-- The list that shows an entity in its owner, and whether the namespace around it shares it.  The
file lists namespaces and include directives by itself. -/
def Entity.showing? (e : Entity) : Option (MemberList × Bool) :=
  match e.detail with
  | .scope .file _ => none
  | .scope .namespaceScope _ => none
  | .scope .classScope _ => some (.classes, true)
  | .scope (.functionScope isMethod) _ => some (.functions, !isMethod)
  | .scope .block _ => some (.blocks, false)
  | .variable => some (.vars, false)
  | .external _ => none

/-- A declaration on its way into an outline. -/
structure Declaration where
  /-- The scope whose body states the declaration. -/
  site : Nat
  entity : Entity

/-- The scope that owns a declaration; namespaces belong to the file, whatever body states them. -/
def Declaration.owner (d : Declaration) : Nat :=
  if d.entity.scopeKind? = some .namespaceScope then 0 else d.site

namespace Outline

/-- Enters a declaration. -/
def enter (o : Outline) (d : Declaration) : Outline :=
  match d.entity.detail with
  | .scope .namespaceScope _ => (o.declareNamespace d.site d.entity).1
  | .scope .classScope _ => (o.declare d.site d.entity .classes true).1
  | .scope (.functionScope isMethod) _ => (o.declare d.site d.entity .functions (!isMethod)).1
  | .scope _ _ => (o.declare d.site d.entity .blocks false).1
  | .variable => (o.declare d.site d.entity .vars false).1
  | .external _ => (o.declareExternal d.site d.entity).1

/-- Enters declarations one after the other. -/
def enterAll (o : Outline) (ds : List Declaration) : Outline :=
  ds.foldl enter o

/-- The declaration is fresh and stated in a scope of the outline. -/
def Takes (o : Outline) (d : Declaration) : Prop :=
  (o.scopeKind? d.site).isSome ∧ d.entity.IsFresh

/-- Each declaration is taken once those before it have been entered. -/
inductive Admits : Outline → List Declaration → Prop
  | nil (o : Outline) : Admits o []
  | cons {o : Outline} {d : Declaration} {ds : List Declaration} (hd : o.Takes d)
      (hds : Admits (o.enter d) ds) : Admits o (d :: ds)

section Enter

variable {o : Outline} {d : Declaration}

/-- What entering amounts to: the entity is added and shown in its hosts, or it is a namespace or an
include directive and listed for the file. -/
theorem enter_cases (h : Ready o) (hd : o.Takes d) :
    (∃ list shared, d.entity.showing? = some (list, shared) ∧ d.owner = d.site ∧
      d.entity.inclusion? = none ∧
      o.enter d = o.addShown d.site d.entity list (o.hosts d.site shared)) ∨
    (d.owner = 0 ∧ d.entity.scopeKind? = some .namespaceScope ∧
      o.enter d = { (o.add 0 d.entity).1 with namespaces := o.namespaces ++ [o.size] }) ∨
    (d.owner = d.site ∧ d.entity.inclusion?.isSome ∧
      o.enter d = { (o.add d.site d.entity).1 with externals := o.externals ++ [o.size] }) := by
  obtain ⟨site, ⟨detail, name, parent, span, doc⟩⟩ := d
  obtain ⟨hs, he⟩ := hd
  have hshown : ∀ list shared, (o.declare site ⟨detail, name, parent, span, doc⟩ list shared).1 =
      o.addShown site ⟨detail, name, parent, span, doc⟩ list (o.hosts site shared) := fun _ _ =>
    congrArg Prod.fst (declare_eq h hs he _ _)
  cases detail with
  | scope k b =>
    cases k with
    | file => exact absurd rfl he.2
    | namespaceScope =>
      exact Or.inr (Or.inl ⟨rfl, rfl, congrArg Prod.fst (declareNamespace_eq h hs he)⟩)
    | classScope => exact Or.inl ⟨_, _, rfl, rfl, rfl, hshown .classes true⟩
    | functionScope m => exact Or.inl ⟨_, _, rfl, rfl, rfl, hshown .functions (!m)⟩
    | block => exact Or.inl ⟨_, _, rfl, rfl, rfl, hshown .blocks false⟩
  | «variable» => exact Or.inl ⟨_, _, rfl, rfl, rfl, hshown .vars false⟩
  | external i => exact Or.inr (Or.inr ⟨rfl, rfl, congrArg Prod.fst (declareExternal_eq h hs he)⟩)

/-- Entering appends what is stated of the declaration and changes no earlier statement. -/
theorem bares_enter (h : Ready o) (hd : o.Takes d) :
    (o.enter d).bares = o.bares ++ [{ d.entity with parent := some d.owner }] := by
  obtain ⟨list, shared, -, hw, -, he⟩ | ⟨hw, -, he⟩ | ⟨hw, -, he⟩ := enter_cases h hd
  · rw [he, bares_addShown h hd.2, hw]
  · rw [he, hw]
    exact (bares_add h.wellOwned.linked 0 d.entity).trans (by rw [hd.2.1])
  · rw [he, hw]
    exact (bares_add h.wellOwned.linked d.site d.entity).trans (by rw [hd.2.1])

theorem getElem?_bares_enter (h : Ready o) (hd : o.Takes d) (i : Nat) :
    (o.enter d).bares[i]? =
      if i = o.size then some { d.entity with parent := some d.owner } else o.bares[i]? := by
  rw [bares_enter h hd, List.getElem?_append, length_bares]
  by_cases hlt : i < o.size
  · rw [if_pos hlt, if_neg (by omega)]
  · rw [if_neg hlt]
    by_cases hi : i = o.size
    · simp [hi]
    · rw [if_neg hi, List.getElem?_eq_none (by simp; omega), List.getElem?_eq_none (by simp; omega)]

theorem isNamespace_enter (h : Ready o) (hd : o.Takes d) (i : Nat) :
    (o.enter d).isNamespace i =
      if i = o.size then d.entity.scopeKind? == some .namespaceScope else o.isNamespace i := by
  rw [isNamespace_eq_bares, isNamespace_eq_bares, getElem?_bares_enter h hd]
  split <;> rfl

theorem isExternal_enter (h : Ready o) (hd : o.Takes d) (i : Nat) :
    (o.enter d).isExternal i =
      if i = o.size then d.entity.inclusion?.isSome else o.isExternal i := by
  rw [isExternal_eq_bares, isExternal_eq_bares, getElem?_bares_enter h hd]
  split <;> rfl

theorem Ready.enter (h : Ready o) (hd : o.Takes d) : Ready (o.enter d) := by
  have hroot : (o.scopeKind? 0).isSome := by simp [h.wellOwned.root]
  obtain ⟨list, shared, -, -, -, he⟩ | ⟨-, -, he⟩ | ⟨-, -, he⟩ := enter_cases h hd
  · rw [he]
    exact h.addShown hd.1 hd.2 list _
  · rw [he]
    exact (h.add hroot hd.2).congr rfl rfl rfl
  · rw [he]
    exact (h.add hd.1 hd.2).congr rfl rfl rfl

end Enter

/-! ## Lists of declarations -/

@[simp] theorem enterAll_nil (o : Outline) : o.enterAll [] = o := rfl

@[simp] theorem enterAll_cons (o : Outline) (d : Declaration) (ds : List Declaration) :
    o.enterAll (d :: ds) = (o.enter d).enterAll ds := rfl

theorem enterAll_append (o : Outline) (ds es : List Declaration) :
    o.enterAll (ds ++ es) = (o.enterAll ds).enterAll es :=
  List.foldl_append

namespace Admits

variable {o : Outline} {ds es : List Declaration}

theorem append (h : Admits o ds) (hes : Admits (o.enterAll ds) es) : Admits o (ds ++ es) := by
  induction h with
  | nil => exact hes
  | cons hd _ ih => exact .cons hd (ih hes)

theorem of_append (h : Admits o (ds ++ es)) : Admits o ds ∧ Admits (o.enterAll ds) es := by
  induction ds generalizing o with
  | nil => exact ⟨.nil o, h⟩
  | cons d rest ih =>
    cases h with
    | cons hd hrest =>
      obtain ⟨hds, hes⟩ := ih hrest
      exact ⟨.cons hd hds, hes⟩

/-- What entering one declaration keeps is kept by entering all. -/
theorem keeps {P : Outline → Prop} (h : Admits o ds) (hr : Ready o)
    (step : ∀ x d, Ready x → x.Takes d → P x → P (x.enter d)) (ho : P o) : P (o.enterAll ds) := by
  induction h with
  | nil => exact ho
  | cons hd _ ih => exact ih (hr.enter hd) (step _ _ hr hd ho)

theorem ready (h : Admits o ds) (hr : Ready o) : Ready (o.enterAll ds) :=
  h.keeps hr (fun _ _ hx hd _ => hx.enter hd) hr

theorem bares_enterAll (h : Admits o ds) (hr : Ready o) :
    (o.enterAll ds).bares =
      o.bares ++ ds.map fun d => { d.entity with parent := some d.owner } := by
  induction h with
  | nil => simp
  | cons hd _ ih => simp [ih (hr.enter hd), bares_enter hr hd]

theorem size_enterAll (h : Admits o ds) (hr : Ready o) :
    (o.enterAll ds).size = o.size + ds.length := by
  have := congrArg List.length (h.bares_enterAll hr)
  simpa using this

/-- Scopes stay what they are. -/
theorem scopeKind?_enterAll (h : Admits o ds) (hr : Ready o) {i : Nat} (hi : i < o.size) :
    (o.enterAll ds).scopeKind? i = o.scopeKind? i := by
  rw [scopeKind?_eq_bares, scopeKind?_eq_bares, h.bares_enterAll hr,
    List.getElem?_append_left (by simpa using hi)]

end Admits

end Outline

end SymbolAtlas
