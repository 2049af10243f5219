import Mathlib
import SymbolAtlas.Proofs.Outline.Search
import SymbolAtlas.Proofs.SourceFile.Views

/-!
# The namespaces of a file

The file owns its namespaces, so going down meets them in the order of their numbers, and a
namespace shows the classes and the plain functions that lie in it (`SourceFile.Grouped`).  This
holds of the file of a tree, and it still holds once that file has been renamed, linked or emptied
(`SourceFile.FromTree.grouped`).
-/

namespace SymbolAtlas

open Outline

/-- The kind of scope that a namespace shows in a list of its own, whatever scope owns it. -/
def MemberList.sharedKind? : MemberList → Option ScopeKind
  | .classes => some .classScope
  | .functions => some (.functionScope false)
  | _ => none

theorem Entity.showing?_shared_iff (e : Entity) {list : MemberList} {k : ScopeKind}
    (h : list.sharedKind? = some k) : e.showing? = some (list, true) ↔ e.scopeKind? = some k := by
  cases list with
  | classes =>
    cases h
    rw [e.showing?_classes_iff]
    obtain ⟨detail, name, parent, span, doc⟩ := e
    cases detail with
    | scope k b => cases k <;> simp [kind, ScopeKind.kind, scopeKind?]
    | «variable» => simp [kind, scopeKind?]
    | external inc => simp [kind, scopeKind?]
  | functions =>
    cases h
    exact e.showing?_functions_iff true
  | _ => cases h

namespace Outline

/-- The namespaces of a name, in the order of their numbers. -/
def namespacesNamed (o : Outline) (name : String) : List Nat :=
  o.numbersOf fun _ e => e.kind = .namespaceDecl ∧ e.name = some name

/-- The scopes of a kind that lie in a namespace, in the order of their numbers. -/
def lyingIn (o : Outline) (s : Nat) (k : ScopeKind) : List Nat :=
  o.numbersOf fun i e => e.scopeKind? = some k ∧ o.namespaceOf i = some s

theorem mem_numbersOf {o : Outline} {p : Nat → Entity → Prop} [∀ i e, Decidable (p i e)] {i : Nat} :
    i ∈ o.numbersOf p ↔ ∃ e, o.get? i = some e ∧ p i e := by
  rw [numbersOf, List.mem_filter, List.mem_range, ← get?_isSome_iff]
  cases o.get? i with
  | none => simp
  | some e => simp

theorem nodup_numbersOf (o : Outline) (p : Nat → Entity → Prop) [∀ i e, Decidable (p i e)] :
    (o.numbersOf p).Nodup :=
  List.nodup_range.filter _

theorem lyingIn_eq_filter (o : Outline) (s : Nat) (k : ScopeKind) :
    o.lyingIn s k = (List.range o.size).filter fun i =>
      o.scopeKind? i = some k ∧ o.namespaceOf i = some s := by
  refine (filter_range_eq_numbersOf fun i e he => ?_).symm
  rw [decide_eq_true_iff, scopeKind?, he, Option.bind_some]

end Outline

namespace SourceFile

/-- The file owns its namespaces, and each of them shows what is shared and lies in it. -/
structure Grouped (o : Outline) : Prop where
  wellOwned : WellOwned o
  onTop : ∀ i, o.isNamespace i = true → o.owner? i = some 0
  shared : ∀ s list k, o.isNamespace s = true → list.sharedKind? = some k →
    (o.shown s).get list = o.lyingIn s k

namespace Grouped

variable {o : Outline} (h : Grouped o)

include h

/-- Nothing below an entity that the file owns is a namespace. -/
theorem filter_below {c : Nat} (hc : c ∈ o.owned 0) :
    (c :: o.descendants c).filter o.isNamespace = [c].filter o.isNamespace := by
  have hbelow : (o.descendants c).filter o.isNamespace = [] := by
    rw [List.filter_eq_nil_iff]
    intro j hj hns
    have howner := h.onTop j hns
    have haround := h.wellOwned.mem_descendants.1 hj
    have hroot : o.ancestors 0 = [] := h.wellOwned.ancestors_of_unowned h.wellOwned.unowned
    rw [h.wellOwned.ancestors_of_owner? howner, hroot, List.mem_singleton] at haround
    exact absurd (h.wellOwned.owned_bounds hc).1 (by omega)
  rw [List.filter_cons, List.filter_cons, hbelow, List.filter_nil]

/-- Going down from the file meets the namespaces in the order of their numbers. -/
theorem filter_descendants :
    (o.descendants 0).filter o.isNamespace = (List.range o.size).filter o.isNamespace := by
  calc (o.descendants 0).filter o.isNamespace
      = (o.owned 0).flatMap fun c => (c :: o.descendants c).filter o.isNamespace := by
        rw [h.wellOwned.descendants_eq, List.filter_flatMap]
    _ = (o.owned 0).flatMap fun c => [c].filter o.isNamespace :=
        List.flatMap_congr fun c hc => h.filter_below hc
    _ = (o.owned 0).filter o.isNamespace := by
        rw [← List.filter_flatMap, List.flatMap_singleton']
    _ = (List.range o.size).filter o.isNamespace := by
        rw [h.wellOwned.owned, List.filter_filter]
        refine List.filter_congr fun i _ => ?_
        cases hi : o.isNamespace i with
        | false => rfl
        | true => rw [h.onTop i hi, Bool.true_and, decide_eq_true rfl]

/-- A search for a namespace finds those whose name is the canonical one. -/
theorem answer_eq (name : String) :
    o.answer 0 Kind.namespaceDecl.tag (some name) =
      o.namespacesNamed (Qualified.canonical name) := by
  have hanswer : o.answer 0 Kind.namespaceDecl.tag (some name) = (o.descendants 0).filter
      (o.isWanted .namespaceDecl (some (Qualified.canonical name))) := rfl
  rw [hanswer]
  generalize Qualified.canonical name = n
  -- whatever is wanted is a namespace
  have hwanted : ∀ i, o.isWanted .namespaceDecl (some n) i =
      (o.isWanted .namespaceDecl (some n) i && o.isNamespace i) := by
    intro i
    cases hi : o.get? i with
    | none => simp only [isWanted, hi, Bool.false_and]
    | some e =>
      have hkind : o.isNamespace i = (e.kind == .namespaceDecl) :=
        Bool.eq_iff_iff.2 ((isNamespace_iff hi).trans beq_iff_eq.symm)
      simp only [isWanted, hi, hkind]
      cases e.kind == Kind.namespaceDecl <;> simp
  calc (o.descendants 0).filter (o.isWanted .namespaceDecl (some n))
      = ((o.descendants 0).filter o.isNamespace).filter (o.isWanted .namespaceDecl (some n)) := by
        rw [List.filter_filter]
        exact List.filter_congr fun i _ => hwanted i
    _ = (List.range o.size).filter (o.isWanted .namespaceDecl (some n)) := by
        rw [h.filter_descendants, List.filter_filter]
        exact List.filter_congr fun i _ => (hwanted i).symm
    _ = o.namespacesNamed n := by
        apply filter_range_eq_numbersOf
        intro i e he
        simp only [isWanted, he, Bool.and_eq_true, beq_iff_eq]

/-- A namespace shows what is shared and lies in it. -/
theorem members_eq {s : Nat} {e : Entity} (he : o.get? s = some e) (hs : e.kind = .namespaceDecl)
    {list : MemberList} {k : ScopeKind} (hlist : list.sharedKind? = some k) :
    e.members list = o.lyingIn s k := by
  rw [o.members_eq_shown he]
  exact h.shared s list k ((isNamespace_iff he).2 hs) hlist

omit h in
/-- Only places, members and the home matter. -/
theorem congr {o' : Outline} (h : Grouped o) (hlinked : o'.linked = o.linked)
    (hplace : ∀ i, o'.place? i = o.place? i) (hshown : ∀ i, o'.shown i = o.shown i)
    (hhome : o'.home = o.home) : Grouped o' := by
  have hkind : ∀ i, o'.scopeKind? i = o.scopeKind? i := by
    intro i
    rw [scopeKind?_eq, scopeKind?_eq, hplace]
  have howner : ∀ i, o'.owner? i = o.owner? i := by
    intro i
    rw [owner?, owner?, hplace]
  have hns : ∀ i, o'.isNamespace i = o.isNamespace i := by
    intro i
    rw [isNamespace, isNamespace, hkind]
  refine ⟨h.wellOwned.congr hlinked hplace, ?_, ?_⟩
  · intro i hi
    rw [howner]
    exact h.onTop i (by rwa [← hns])
  · intro s list k hs hlist
    rw [hshown, h.shared s list k (by rwa [← hns]) hlist, lyingIn_eq_filter, lyingIn_eq_filter,
      size_eq_of_place? hplace]
    refine List.filter_congr fun i _ => ?_
    rw [hkind, namespaceOf_congr (fun j _ => howner j) (fun j _ => hkind j) hhome]

end Grouped

/-- Exact lists group what is shared, provided that only classes own methods. -/
theorem grouped_of_exact {o : Outline} (hw : WellOwned o) (hx : Exact o) (hc : Catalogued o)
    (hm : MethodsInClasses o) : Grouped o where
  wellOwned := hw
  onTop := hc.owned
  shared := by
    intro s list k hs hlist
    obtain ⟨e, he⟩ := Option.isSome_iff_exists.1 (get?_isSome_iff.2 (lt_size_of_isNamespace hs))
    have hk : e.kind = .namespaceDecl := (isNamespace_iff he).1 hs
    rw [← o.members_eq_shown he]
    refine hx.members_eq he fun i x hi => ?_
    rw [showsIn_iff_inside he hw hk hi, x.showing?_shared_iff hlist]
    cases list with
    | classes => simp [Entity.showing?_classes_iff]
    | functions => exact hm.not_in_namespace he hk hi
    | _ => cases hlist

/-! ## Files that come from trees -/

/-- The file was read from a tree, and since then only renamed, linked and emptied. -/
inductive FromTree (tree : Value) : SourceFile → Prop
  | parsed (name : String) (contentHash : Option String) (mtime : Option Double)
      (size : Option Int) : FromTree tree (ofTree name tree contentHash mtime size).1
  | renamed {f : SourceFile} (hf : FromTree tree f) (name : String) : FromTree tree (f.rename name)
  | relinked {f : SourceFile} (hf : FromTree tree f)
      (resolve : Value → Except BadName (Option Nat)) : FromTree tree (f.relink resolve).1
  | detached {f : SourceFile} (hf : FromTree tree f) : FromTree tree f.detach

/-- Nothing is left in an empty shell but the file, which owns nothing. -/
theorem place?_detach (f : SourceFile) (i : Nat) :
    f.detach.outline.place? i =
      if i = 0 then (f.outline.place? 0).map fun p => { p with owner := none, owned := [] }
      else none := by
  have hplace : ∀ e : Entity, Entity.place
      { (e.mapBody fun _ => { closed := true }) with parent := none } =
      { e.place with owner := none, owned := [] } := by
    rintro ⟨detail, name, parent, span, doc⟩
    cases detail <;> rfl
  simp only [place?, get?, detach, scattered, Array.getElem?_extract, Array.getElem?_map]
  by_cases hi : i = 0
  · subst hi
    rw [if_pos rfl]
    cases h : f.outline.entities[0]? with
    | none => simp
    | some e =>
      have hpos : 0 < f.outline.entities.size := (Array.getElem?_eq_some_iff.1 h).1
      simp [hplace, hpos]
  · rw [if_neg hi, if_neg (by omega)]
    rfl

theorem grouped_detach {f : SourceFile} (h : Grouped f.outline) : Grouped f.detach.outline := by
  obtain ⟨p, hp, hscope⟩ := Option.bind_eq_some_iff.1 ((scopeKind?_eq f.outline 0).symm.trans
    h.wellOwned.root)
  have hroot : f.detach.outline.scopeKind? 0 = some .file := by
    rw [scopeKind?_eq, place?_detach, if_pos rfl, hp]
    exact hscope
  have hkind : ∀ {i}, 0 < i → f.detach.outline.scopeKind? i = none := by
    intro i hi
    rw [scopeKind?_eq, place?_detach, if_neg (by omega)]
    rfl
  have howner : ∀ i, f.detach.outline.owner? i = none := by
    intro i
    rw [owner?, place?_detach]
    split
    · rw [hp]
      rfl
    · rfl
  have hns : ∀ i, f.detach.outline.isNamespace i = false := by
    intro i
    rw [isNamespace]
    rcases Nat.eq_zero_or_pos i with rfl | hi
    · rw [hroot]
      rfl
    · rw [hkind hi]
      rfl
  have hsize : f.detach.outline.size ≤ 1 := by
    rw [← get?_eq_none_iff, ← Option.map_eq_none_iff]
    exact f.place?_detach 1
  refine ⟨⟨rfl, hroot, howner 0, ?_, ?_, ?_⟩, ?_, ?_⟩
  · intro i hpos hlt
    omega
  · intro i hi
    rw [hkind hi]
    simp
  · intro q
    have hnone : f.detach.outline.owned q = [] := by
      rw [owned, place?_detach]
      split
      · rw [hp]
        rfl
      · rfl
    rw [hnone]
    simp [howner]
  · intro i hi
    rw [hns] at hi
    cases hi
  · intro s list k hs
    rw [hns] at hs
    cases hs

section OfTree

variable (name : String) (tree : Value) (contentHash : Option String) (mtime : Option Double)
  (size : Option Int)

theorem grouped_ofTree : Grouped (ofTree name tree contentHash mtime size).1.outline := by
  exact grouped_of_exact (wellOwned_ofTree name tree contentHash mtime size)
    (exact_ofTree name tree contentHash mtime size)
    (catalogued_ofTree name tree contentHash mtime size)
    (methodsInClasses_ofTree name tree contentHash mtime size)

end OfTree

theorem FromTree.grouped {tree : Value} {f : SourceFile} (h : f.FromTree tree) :
    Grouped f.outline := by
  induction h with
  | parsed name contentHash mtime size => exact grouped_ofTree name tree contentHash mtime size
  | renamed _ name ih =>
    refine ih.congr rfl (fun i => place?_modify 0 i fun _ => rfl) (fun i => ?_) rfl
    exact shown_modify_of_body 0 i fun _ => rfl
  | @relinked f _ resolve ih =>
    have hlinks : UpToLinks f (f.relink resolve).1 := f.upToLinks_relink
    exact ih.congr hlinks.linked hlinks.place? hlinks.shown hlinks.home
  | detached _ ih => exact grouped_detach ih

end SourceFile

end SymbolAtlas
