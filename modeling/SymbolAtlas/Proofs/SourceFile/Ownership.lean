import Mathlib
import SymbolAtlas.SourceFile.Export
import SymbolAtlas.Proofs.Outline.Nesting
import SymbolAtlas.Proofs.SourceFile.Restore

/-!
# Files own their entities as a tree

`OwnershipTree` states what a well-owned outline means for a file, in terms of its entities alone:
who owns whom, and that going up, going down and stepping into scopes all end.  Files of trees and
files that are taken back from snapshots are such trees (`SourceFile.ownership_tree`).  If a tree
states namespaces at its top level only, going down meets the entities in the order of their
numbers.
-/

namespace SymbolAtlas

open Outline

/-- The entities of a file form a tree by ownership, with the file as its root. -/
structure OwnershipTree (f : SourceFile) : Prop where
  /-- Each entity is written down under the number of its position. -/
  numbered : ∀ nameOf, (f.snapshot nameOf).entities.map EntitySnapshot.id =
    (List.range f.outline.size).map Int.ofNat
  root : ∃ e, f.outline.get? 0 = some e ∧ e.kind = .file ∧ e.parent = none
  /-- Every other entity is owned by one scope, which comes before it. -/
  owner : ∀ i e, 0 < i → f.outline.get? i = some e →
    ∃ p x, e.parent = some p ∧ p < i ∧ f.outline.get? p = some x ∧ x.isScope = true ∧
      x.children.count i = 1 ∧
      ∀ q y, q ≠ p → f.outline.get? q = some y → i ∉ y.children
  ascending : ∀ p x, f.outline.get? p = some x → x.children.Pairwise (· < ·)
  /-- Following owners leads to the file. -/
  climbs : ∀ i, i < f.outline.size →
    Relation.ReflTransGen (fun j p => ∃ e, f.outline.get? j = some e ∧ e.parent = some p) i 0
  /-- Stepping into scopes that hold an offset ends at one that has no such scope in it. -/
  steps : ∀ offset i,
    Relation.ReflTransGen (fun j c => f.outline.innerScope? offset j = some c) i
      (f.outline.scopeAt offset i) ∧
    f.outline.innerScope? offset (f.outline.scopeAt offset i) = none
  /-- Going down leaves out nothing that is owned. -/
  descends : ∀ i e, f.outline.get? i = some e →
    f.outline.descendants i = e.children.flatMap fun c => c :: f.outline.descendants c
  /-- Going down from the file meets every other entity once. -/
  visits : (f.outline.descendants 0).Perm (List.range' 1 (f.outline.size - 1))

namespace SourceFile

theorem map_id_snapshotsFrom (nameOf : Nat → Option String) (i : Nat) (es : List Entity) :
    (snapshotsFrom nameOf i es).map EntitySnapshot.id =
      (List.range' i es.length).map Int.ofNat := by
  induction es generalizing i with
  | nil => rfl
  | cons e rest ih =>
    rw [snapshotsFrom, List.map_cons, ih, List.length_cons, List.range'_succ, List.map_cons]
    rfl

theorem ownershipTree_of_wellOwned {f : SourceFile} (h : WellOwned f.outline)
    (hd : f.detached = false) : OwnershipTree f := by
  have howned : ∀ {i e}, f.outline.get? i = some e → f.outline.owned i = e.children := by
    intro i e he
    rw [owned_eq, he]
    rfl
  have howner : ∀ {i e}, f.outline.get? i = some e → f.outline.owner? i = e.parent := by
    intro i e he
    rw [owner?_eq, he]
    rfl
  refine ⟨?_, ?_, ?_, ?_, ?_, h.scopeAt_steps, ?_, h.descendants_perm⟩
  · intro nameOf
    have hheld : f.heldEntities = f.outline.entities.toList := by
      rw [heldEntities, hd]
      rfl
    rw [snapshot, map_id_snapshotsFrom, hheld, Array.length_toList, List.range_eq_range']
    rfl
  · obtain ⟨e, he, hk⟩ := Option.bind_eq_some_iff.1 h.root
    refine ⟨e, he, ?_, ?_⟩
    · obtain ⟨detail, name, parent, span, doc⟩ := e
      cases detail with
      | scope k b =>
        cases hk
        rfl
      | _ => cases hk
    · rw [← howner he, h.unowned]
  · intro i e hpos he
    obtain ⟨p, hp, ho, hs⟩ := h.owner hpos (get?_isSome_iff.1 (by rw [he]; rfl))
    obtain ⟨k, hk⟩ := Option.isSome_iff_exists.1 hs
    obtain ⟨x, hx, hxk⟩ := Option.bind_eq_some_iff.1 hk
    refine ⟨p, x, (howner he).symm.trans ho, hp, hx, ?_, ?_, ?_⟩
    · rw [Entity.isScope_eq, hxk]
      rfl
    · rw [← howned hx]
      exact List.count_eq_one_of_mem (h.nodup_owned p) (h.mem_owned.2 ho)
    · intro q y hq hy hmem
      rw [← howned hy, h.mem_owned, ho] at hmem
      exact hq (Option.some.inj hmem).symm
  · intro p x hx
    rw [← howned hx]
    exact h.pairwise_lt_owned p
  · intro i hi
    refine (h.climbs hi).lift id fun j p hj => ?_
    rw [owner?_eq] at hj
    exact Option.bind_eq_some_iff.1 hj
  · intro i e he
    rw [← howned he]
    exact h.descendants_eq i

/-! ## Trees with namespaces at their top level only -/

section OfTree

variable (name : String) (tree : Value) (contentHash : Option String) (mtime : Option Double)
  (size : Option Int)

theorem stacked_blank (span : Option Span) : (blank name span true).outline.Stacked := by
  intro i p hp
  match i with
  | 0 =>
    cases hp
    exact List.mem_cons_self
  | _ + 1 => cases hp

/-- Unless a namespace lies in another scope, every declaration belongs to the scope that states
it. -/
theorem settled_declarations
    (h : ∀ d ∈ (statements tree).contribution 0 false 2, d.IsNamespace → d.site = 0) :
    Node.Settled (declarations tree) := by
  intro d hd
  have hmem : d.descriptor ∈ (statements tree).contribution 0 false 2 := by
    rw [← Node.describesAll_ofValue]
    exact List.mem_map.2 ⟨d, hd, rfl⟩
  rw [← d.owner_descriptor]
  unfold Descriptor.owner
  split
  · rename_i hfeature
    exact (h _ hmem hfeature).symm
  · rfl

theorem stacked_ofTree
    (h : ∀ d ∈ (statements tree).contribution 0 false 2, d.IsNamespace → d.site = 0) :
    (ofTree name tree contentHash mtime size).1.outline.Stacked := by
  have hready := ready_blank name (spanOf tree)
  have hnests : Nests 0 2 (declarations tree) :=
    (settled_declarations tree h).nests
      (Node.stated_methodsAll (Node.ofValue (statements tree)) 0 false 2 none)
  have hsize : (blank name (spanOf tree) true).outline.size = 2 := rfl
  have hspine : 0 ∈ (blank name (spanOf tree) true).outline.spine :=
    List.mem_cons_of_mem _
      (hready.wellOwned.zero_mem_ancestors (by rw [hsize]; decide) (by rw [hsize]; decide))
  have hentered : (entered name tree).Stacked :=
    (hnests.stacked hready (enters_declarations name tree).admits rfl
      (stacked_blank name (spanOf tree)) hspine).1
  have howner : ∀ i, (ofTree name tree contentHash mtime size).1.outline.owner? i =
      (entered name tree).owner? i := by
    intro i
    rw [owner?_eq_bares, owner?_eq_bares, bares_ofTree]
  intro i p hp
  rw [ancestors_congr fun j _ => howner j]
  exact hentered i p (by rwa [howner] at hp)

theorem detached_ofTree : (ofTree name tree contentHash mtime size).1.detached = false :=
  (upToLinks_ofTree name tree contentHash mtime size).detached

end OfTree

/-- The file of any tree and the file of any accepted snapshot own their entities as a tree.  The
entities of a tree that states namespaces at its top level only are met in the order of their
numbers. -/
theorem ownership_tree :
    (∀ (name : String) (tree : Value) (contentHash : Option String) (mtime : Option Double)
        (size : Option Int),
      OwnershipTree (ofTree name tree contentHash mtime size).1 ∧
      ((∀ d ∈ (statements tree).contribution 0 false 2, d.IsNamespace → d.site = 0) →
        (ofTree name tree contentHash mtime size).1.outline.descendants 0 =
          List.range' 1 ((ofTree name tree contentHash mtime size).1.outline.size - 1))) ∧
    ∀ (data : Value) (s : FileSnapshot) (f : SourceFile),
      FileSnapshot.check data = .ok s → s.restore = .ok f → OwnershipTree f := by
  refine ⟨fun name tree contentHash mtime size => ?_, fun data s f _ hf => ?_⟩
  · have hw := wellOwned_ofTree name tree contentHash mtime size
    refine ⟨ownershipTree_of_wellOwned hw (detached_ofTree name tree contentHash mtime size), ?_⟩
    intro h
    exact hw.descendants_eq_range' (stacked_ofTree name tree contentHash mtime size h)
  · exact ownershipTree_of_wellOwned (FileSnapshot.wellOwned_restore hf)
      (FileSnapshot.detached_restore hf)

/-- A namespace with a class, as a tree. -/
def sampleTree : Value :=
  .list [.object [("kind", .str "namespace"), ("name", .str "shop"),
    ("children", .list [.object [("kind", .str "class"), ("name", .str "Cart")]])]]

/-- A file with its home, as a snapshot. -/
def sampleSnapshot : Value :=
  .object [("name", .str "shop"), ("default_namespace", .int 1),
    ("entities", .list [
      .object [("id", .int 0), ("kind", .str "file")],
      .object [("id", .int 1), ("kind", .str "namespace"), ("parent", .int 0)]])]

theorem ownership_tree_sample :
    (ofTree "shop" sampleTree none none none).1.outline.descendants 0 = List.range' 1 3 ∧
      ∃ s f, FileSnapshot.check sampleSnapshot = .ok s ∧ s.restore = .ok f ∧ OwnershipTree f := by
  have htop : ∀ d ∈ (statements sampleTree).contribution 0 false 2, d.IsNamespace → d.site = 0 := by
    rw [← Node.describesAll_ofValue]
    exact List.forall_mem_cons.2 ⟨fun _ => rfl, List.forall_mem_singleton.2 (fun h => nomatch h)⟩
  have hsize : (ofTree "shop" sampleTree none none none).1.outline.size = 4 := by
    rw [size_ofTree]
    rfl
  have haccepted : ∃ s f, FileSnapshot.check sampleSnapshot = .ok s ∧ s.restore = .ok f := by
    refine ⟨_, ?file, rfl, ?restored⟩
    case restored =>
      rw [FileSnapshot.restore, FileSnapshot.outline?, FileSnapshot.inOrder,
        List.mergeSort_of_pairwise (by decide)]
      rfl
  obtain ⟨s, f, hs, hf⟩ := haccepted
  have hvisits := (ownership_tree.1 "shop" sampleTree none none none).2 htop
  rw [hsize] at hvisits
  exact ⟨hvisits, s, f, hs, hf, ownership_tree.2 sampleSnapshot s f hs hf⟩

end SourceFile

end SymbolAtlas
