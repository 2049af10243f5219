import Mathlib
import SymbolAtlas.Report.Outline
import SymbolAtlas.Proofs.Outline.Members
import SymbolAtlas.Proofs.Outline.Search

/-!
# Outlines that read alike

Two outlines are alike if they state the same of every entity, show the same members and list the
same namespaces and include directives.  How the ends of a span were written does not count, nor
does where a directive leads or whether a scope is closed.  Alike outlines own the same entities
(`Outline.Alike.owned`) and answer every question in the same way (`Outline.Alike.select`,
`Outline.Alike.scopeAt`).
-/

namespace SymbolAtlas

/-- The span with its ends as integers. -/
def Span.plain (s : Span) : Span :=
  .between s.start.value s.stop.value

theorem Span.contains_plain (s : Span) (offset : Int) :
    s.plain.contains offset = s.contains offset := rfl

namespace Entity

/-- What is stated of an entity, with a plain span. -/
def plain (e : Entity) : Entity :=
  { e.bare with span := e.span.map Span.plain }

@[simp] theorem name_plain (e : Entity) : e.plain.name = e.name := rfl

@[simp] theorem parent_plain (e : Entity) : e.plain.parent = e.parent := rfl

@[simp] theorem doc_plain (e : Entity) : e.plain.doc = e.doc := rfl

@[simp] theorem scopeKind?_plain (e : Entity) : e.plain.scopeKind? = e.scopeKind? :=
  e.scopeKind?_bare

@[simp] theorem kind_plain (e : Entity) : e.plain.kind = e.kind := by
  obtain ⟨detail, name, parent, span, doc⟩ := e
  cases detail <;> rfl

@[simp] theorem plain_bare (e : Entity) : e.bare.plain = e.plain := by
  obtain ⟨detail, name, parent, span, doc⟩ := e
  cases detail <;> rfl

@[simp] theorem plain_plain (e : Entity) : e.plain.plain = e.plain := by
  obtain ⟨detail, name, parent, span, doc⟩ := e
  cases detail <;> cases span <;> rfl

theorem isSome_inclusion?_plain (e : Entity) : e.plain.inclusion?.isSome = e.inclusion?.isSome := by
  obtain ⟨detail, name, parent, span, doc⟩ := e
  cases detail <;> rfl

theorem isScope_plain (e : Entity) : e.plain.isScope = e.isScope := by
  rw [isScope_eq, isScope_eq, scopeKind?_plain]

end Entity

namespace Outline

/-- What is stated of the entities, with plain spans. -/
def plains (o : Outline) : List Entity :=
  o.entities.toList.map Entity.plain

@[simp] theorem length_plains (o : Outline) : o.plains.length = o.size := by
  simp [plains, size]

theorem getElem?_plains (o : Outline) (i : Nat) : o.plains[i]? = (o.get? i).map Entity.plain := by
  simp [plains, get?]

theorem scopeKind?_eq_plains (o : Outline) (i : Nat) :
    o.scopeKind? i = o.plains[i]?.bind Entity.scopeKind? := by
  rw [scopeKind?, getElem?_plains, Option.bind_map]
  congr 1
  funext e
  exact e.scopeKind?_plain.symm

theorem isExternal_eq_plains (o : Outline) (i : Nat) :
    o.isExternal i = (o.plains[i]?.bind Entity.inclusion?).isSome := by
  rw [isExternal, getElem?_plains, Option.bind_map]
  cases o.get? i with
  | none => rfl
  | some e => exact e.isSome_inclusion?_plain.symm

/-- The outlines read alike. -/
structure Alike (o o' : Outline) : Prop where
  plain : ∀ i, (o'.get? i).map Entity.plain = (o.get? i).map Entity.plain
  shown : ∀ i, o'.shown i = o.shown i
  home : o'.home = o.home
  namespaces : o'.namespaces = o.namespaces
  externals : o'.externals = o.externals
  wellOwned : WellOwned o
  wellOwned' : WellOwned o'

namespace Alike

theorem trans {o o' o'' : Outline} (h : Alike o o') (h' : Alike o' o'') : Alike o o'' where
  plain := fun i => (h'.plain i).trans (h.plain i)
  shown := fun i => (h'.shown i).trans (h.shown i)
  home := h'.home.trans h.home
  namespaces := h'.namespaces.trans h.namespaces
  externals := h'.externals.trans h.externals
  wellOwned := h.wellOwned
  wellOwned' := h'.wellOwned'

variable {o o' : Outline} (h : Alike o o')

include h

/-- An entity is in both outlines or in none. -/
theorem both (i : Nat) :
    (o.get? i = none ∧ o'.get? i = none) ∨
      ∃ e e', o.get? i = some e ∧ o'.get? i = some e' ∧ e'.plain = e.plain := by
  have hplain := h.plain i
  cases he : o.get? i with
  | none =>
    rw [he] at hplain
    exact Or.inl ⟨rfl, Option.map_eq_none_iff.1 hplain⟩
  | some e =>
    rw [he] at hplain
    obtain ⟨e', he', hsame⟩ := Option.map_eq_some_iff.1 hplain
    exact Or.inr ⟨e, e', rfl, he', hsame⟩

theorem size : o'.size = o.size := by
  have hle : ∀ i, o'.size ≤ i ↔ o.size ≤ i := by
    intro i
    rw [← get?_eq_none_iff, ← get?_eq_none_iff]
    rcases h.both i with ⟨he, he'⟩ | ⟨e, e', he, he', -⟩
    · simp [he, he']
    · simp [he, he']
  exact Nat.le_antisymm ((hle o.size).2 (Nat.le_refl _)) ((hle o'.size).1 (Nat.le_refl _))

theorem owner? (i : Nat) : o'.owner? i = o.owner? i := by
  rcases h.both i with ⟨he, he'⟩ | ⟨e, e', he, he', hsame⟩
  · rw [owner?_eq, owner?_eq, he, he']
  · rw [owner?_eq, owner?_eq, he, he', Option.bind_some, Option.bind_some, ← e'.parent_plain, hsame,
      e.parent_plain]

/-- What is owned follows from what names its owner. -/
theorem owned (i : Nat) : o'.owned i = o.owned i := by
  rw [h.wellOwned'.owned, h.wellOwned.owned, h.size]
  simp only [h.owner?]

theorem children (i : Nat) : o'.children i = o.children i := by
  rw [h.wellOwned'.children_eq, h.wellOwned.children_eq, h.owned]

/-! ### Questions -/

theorem descendants (i : Nat) : o'.descendants i = o.descendants i := by
  induction hn : o.size - i using Nat.strong_induction_on generalizing i with
  | _ n ih =>
    rw [h.wellOwned'.descendants_eq, h.wellOwned.descendants_eq, h.owned]
    refine List.flatMap_congr fun c hc => ?_
    have hb := h.wellOwned.owned_bounds hc
    rw [ih (o.size - c) (by omega) c rfl]

theorem isWanted (kind : Kind) (name : Option String) (i : Nat) :
    o'.isWanted kind name i = o.isWanted kind name i := by
  rcases h.both i with ⟨he, he'⟩ | ⟨e, e', he, he', hsame⟩
  · simp only [Outline.isWanted, he, he']
  · simp only [Outline.isWanted, he, he']
    rw [← e'.kind_plain, ← e'.name_plain, hsame, e.kind_plain, e.name_plain]

theorem answer (scope : Nat) (tag : String) (name : Option String) :
    o'.answer scope tag name = o.answer scope tag name := by
  unfold Outline.answer
  cases Kind.ofTag? tag with
  | none => rfl
  | some kind =>
    simp only [h.descendants]
    congr 1
    funext i
    exact h.isWanted kind _ i

theorem select (scope : Nat) (tag : String) (name : Option String) (limit : Int) :
    o'.select scope tag name limit = o.select scope tag name limit := by
  rw [select_eq_cut, select_eq_cut, h.answer]

theorem covers (offset : Int) (i : Nat) : o'.covers offset i = o.covers offset i := by
  rcases h.both i with ⟨he, he'⟩ | ⟨e, e', he, he', hsame⟩
  · simp only [Outline.covers, he, he']
  · have hspan : e'.span.map Span.plain = e.span.map Span.plain := congrArg Entity.span hsame
    have hscope : e'.isScope = e.isScope := by rw [← e'.isScope_plain, hsame, e.isScope_plain]
    simp only [Outline.covers, he, he', hscope]
    congr 1
    cases hs : e.span with
    | none =>
      rw [hs] at hspan
      rw [Option.map_eq_none_iff.1 hspan]
    | some s =>
      rw [hs] at hspan
      obtain ⟨s', hs', hplain⟩ := Option.map_eq_some_iff.1 hspan
      rw [hs']
      show s'.contains offset = s.contains offset
      rw [← s'.contains_plain, hplain, s.contains_plain]

theorem scopeAt (offset : Int) (i : Nat) : o'.scopeAt offset i = o.scopeAt offset i := by
  have hinner : ∀ j, o'.innerScope? offset j = o.innerScope? offset j := by
    intro j
    rw [innerScope?, innerScope?, h.children]
    congr 2
    funext c
    exact h.covers offset c
  induction hn : o.size - i using Nat.strong_induction_on generalizing i with
  | _ n ih =>
    cases hc : o.innerScope? offset i with
    | none => rw [WellOwned.scopeAt_of_none hc, WellOwned.scopeAt_of_none ((hinner i).trans hc)]
    | some c =>
      have hb := h.wellOwned.innerScope?_bounds hc
      rw [h.wellOwned.scopeAt_of_some hc, h.wellOwned'.scopeAt_of_some ((hinner i).trans hc)]
      exact ih (o.size - c) (by omega) c rfl

theorem members {i : Nat} {e e' : Entity} (he : o.get? i = some e) (he' : o'.get? i = some e')
    (list : MemberList) : e'.members list = e.members list := by
  rw [o.members_eq_shown he, o'.members_eq_shown he', h.shown]

/-- References to entities are the same. -/
theorem reference (i : Nat) : o'.reference i = o.reference i := by
  rcases h.both i with ⟨he, he'⟩ | ⟨e, e', he, he', hsame⟩
  · rw [Outline.reference, Outline.reference, he, he']
  · have hlt : i < o.size := by
      rw [← get?_isSome_iff, he]
      rfl
    have hroot : (o'.get? 0).bind Entity.name = (o.get? 0).bind Entity.name := by
      rcases h.both 0 with ⟨hr, hr'⟩ | ⟨r, r', hr, hr', hrsame⟩
      · rw [hr, hr']
      · rw [hr, hr', Option.bind_some, Option.bind_some, ← r'.name_plain, hrsame, r.name_plain]
    simp only [Outline.reference, he, he', h.wellOwned.fileOf_eq hlt,
      h.wellOwned'.fileOf_eq (h.size ▸ hlt), hroot, idValue, h.wellOwned.linked,
      h.wellOwned'.linked]
    rw [← e'.kind_plain, ← e'.name_plain, hsame, e.kind_plain, e.name_plain]

end Alike

end Outline

end SymbolAtlas
