import Mathlib
import SymbolAtlas.Proofs.Outline.Sites

/-!
# Declarations come nested

The declarations of a walk form a forest in written order: each is followed by what lies in it, and
then by its next neighbour (`Nests`).  Only namespaces can break this, because the file owns them
whatever body states them.  Entering a forest below a scope on the way from the last entity up to
the file leaves the scope on that way, and every new entity is owned by something on it
(`Nests.stacked`).
-/

namespace SymbolAtlas

/-- The declarations form a forest that belongs to `site`, numbered from `next` on. -/
inductive Nests : Nat → Nat → List Declaration → Prop
  | nil (site next : Nat) : Nests site next []
  | scope {site next : Nat} {d : Declaration} {body rest : List Declaration}
      (howner : d.owner = site) (hbody : Nests next (next + 1) body)
      (hrest : Nests site (next + 1 + body.length) rest) : Nests site next (d :: (body ++ rest))

/-! ## Nodes declare forests -/

namespace Node

/-- Every declaration belongs to the scope whose body states it. -/
def Settled (ds : List Declaration) : Prop :=
  ∀ d ∈ ds, d.owner = d.site

theorem Settled.of_cons {d : Declaration} {ds : List Declaration} (h : Settled (d :: ds)) :
    d.owner = d.site ∧ Settled ds :=
  List.forall_mem_cons.1 h

theorem Settled.of_append {ds es : List Declaration} (h : Settled (ds ++ es)) :
    Settled ds ∧ Settled es :=
  List.forall_mem_append.1 h

/-- Declarations that belong to where they are stated form a forest. -/
theorem Settled.nests {within : Declaration → Declaration → Prop} {top : Declaration → Prop}
    {site next : Nat} {ds : List Declaration} (hs : Settled ds)
    (h : Stated within top site next ds) : Nests site next ds := by
  induction h with
  | nil => exact .nil _ _
  | scope hsite _ _ _ ihbody ihrest =>
    obtain ⟨howner, hmore⟩ := hs.of_cons
    obtain ⟨hbody, hrest⟩ := hmore.of_append
    exact .scope (howner.trans hsite) (ihbody hbody) (ihrest hrest)

end Node

/-! ## Forests are entered in the order of a descent -/

namespace Outline

/-- The last entity and the scopes around it. -/
def spine (o : Outline) : List Nat :=
  (o.size - 1) :: o.ancestors (o.size - 1)

section Enter

variable {o : Outline} {d : Declaration}

theorem owner?_enter (h : Ready o) (hd : o.Takes d) (i : Nat) :
    (o.enter d).owner? i = if i = o.size then some d.owner else o.owner? i := by
  rw [owner?_eq_bares, bares_enter h hd, owner?_eq_bares]
  split
  · rename_i hi
    rw [hi, ← length_bares, List.getElem?_concat_length]
    rfl
  · rename_i hi
    by_cases hlt : i < o.size
    · rw [List.getElem?_append_left (by simpa using hlt)]
    · rw [List.getElem?_eq_none (by simp; omega), List.getElem?_eq_none (by simp; omega)]

theorem owner?_enterAll_of_lt {ds : List Declaration} (ha : Admits o ds) (h : Ready o) {i : Nat}
    (hi : i < o.size) : (o.enterAll ds).owner? i = o.owner? i := by
  rw [owner?_eq_bares, owner?_eq_bares, ha.bares_enterAll h,
    List.getElem?_append_left (by simpa using hi)]

theorem ancestors_enter_of_lt (h : Ready o) (hd : o.Takes d) {i : Nat} (hi : i < o.size) :
    (o.enter d).ancestors i = o.ancestors i := by
  refine ancestors_congr fun j hj => ?_
  rw [owner?_enter h hd, if_neg (by omega)]

theorem owner_lt_size (h : Ready o) (hd : o.Takes d) : d.owner < o.size := by
  unfold Declaration.owner
  split
  · exact h.wellOwned.size_pos
  · exact lt_size_of_scopeKind? hd.1

/-- The way up from an entered entity goes through its owner. -/
theorem spine_enter (h : Ready o) (hd : o.Takes d) :
    (o.enter d).spine = o.size :: d.owner :: o.ancestors d.owner := by
  have hlast : (o.enter d).size - 1 = o.size := by
    rw [size_enter h hd]
    rfl
  have howner : (o.enter d).owner? o.size = some d.owner := by
    rw [owner?_enter h hd, if_pos rfl]
  rw [spine, hlast, (h.enter hd).wellOwned.ancestors_of_owner? howner,
    ancestors_enter_of_lt h hd (owner_lt_size h hd)]

/-- An entity whose owner is on the way up from the last one can be stacked on it. -/
theorem Stacked.enter (hs : o.Stacked) (h : Ready o) (hd : o.Takes d) (howner : d.owner ∈ o.spine) :
    (o.enter d).Stacked := by
  have hpos := h.wellOwned.size_pos
  intro i p hp
  rw [owner?_enter h hd] at hp
  by_cases hi : i + 1 = o.size
  · rw [if_pos hi] at hp
    cases hp
    rw [ancestors_enter_of_lt h hd (by omega)]
    have hlast : o.size - 1 = i := by omega
    rwa [spine, hlast] at howner
  · rw [if_neg hi] at hp
    have hlt : i + 1 < o.size := lt_size_of_owner? hp
    rw [ancestors_enter_of_lt h hd (by omega)]
    exact hs i p hp

end Enter

theorem mem_spine_of_mem_ancestors {o : Outline} (h : WellOwned o) {i p : Nat} (hi : i ∈ o.spine)
    (hp : p ∈ o.ancestors i) : p ∈ o.spine := by
  rcases List.mem_cons.1 hi with rfl | hi
  · exact List.mem_cons_of_mem _ hp
  · exact List.mem_cons_of_mem _ (h.mem_ancestors_trans hi hp)

end Outline

open Outline

/-- Entering a forest stacks its entities, and the way up still goes through its site. -/
theorem Nests.stacked {site next : Nat} {ds : List Declaration} (hn : Nests site next ds)
    {o : Outline} (h : Ready o) (ha : Admits o ds) (hnext : o.size = next) (hs : o.Stacked)
    (hsite : site ∈ o.spine) : (o.enterAll ds).Stacked ∧ site ∈ (o.enterAll ds).spine := by
  induction hn generalizing o with
  | nil => exact ⟨hs, hsite⟩
  | @scope site next d body rest howner _ _ ihbody ihrest =>
    subst hnext
    cases ha with
    | cons hd hmore =>
      obtain ⟨habody, harest⟩ := hmore.of_append
      have hr := h.enter hd
      have hown : (o.enter d).owner? o.size = some site := by
        rw [owner?_enter h hd, if_pos rfl, howner]
      -- the new entity is the end of the way up, so its own body is stacked on it
      have hnew : o.size ∈ (o.enter d).spine := by
        rw [spine_enter h hd]
        exact List.mem_cons_self
      obtain ⟨hsbody, hspine⟩ := ihbody hr habody (size_enter h hd)
        (hs.enter h hd (howner ▸ hsite)) hnew
      -- then the way up goes through the entity and so through its owner, the site
      have hback : site ∈ ((o.enter d).enterAll body).spine := by
        have hrb := habody.ready hr
        refine mem_spine_of_mem_ancestors hrb.wellOwned hspine ?_
        rw [hrb.wellOwned.ancestors_of_owner?
          ((owner?_enterAll_of_lt habody hr (by rw [size_enter h hd]; omega)).trans hown)]
        exact List.mem_cons_self
      have hsize : ((o.enter d).enterAll body).size = o.size + 1 + body.length := by
        rw [habody.size_enterAll hr, size_enter h hd]
      rw [enterAll_cons, enterAll_append]
      exact ihrest (habody.ready hr) harest hsize hsbody hback

end SymbolAtlas
