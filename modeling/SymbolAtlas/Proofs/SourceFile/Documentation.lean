import Mathlib
import SymbolAtlas.Proofs.Node.Stream
import SymbolAtlas.Proofs.SourceFile.Spans

/-!
# Documentation in the file of a tree

The entities of a file of a tree are the file, its home and then, number by number, what the stream
of the tree leads to.  The first two have no documentation.  Every other entity has the
documentation that stands directly before it in the stream of the body that states it, if there is
any; the blocks of branches never have one (`SourceFile.doc_ofTree`).
-/

namespace SymbolAtlas

@[simp] theorem Entity.profile_bare (e : Entity) : e.bare.profile = e.profile := by
  obtain ⟨detail, name, parent, span, doc⟩ := e
  cases detail <;> rfl

/-- What documentation at a place means: it stands directly before an entity that is no block. -/
theorem Spot.doc?_eq_some_iff {s : Spot} {text : String} :
    s.doc? = some text ↔ s.isBlock = false ∧ s.before.getLast? = some (.doc text) := by
  rw [Spot.doc?]
  cases s.isBlock with
  | true => simp
  | false => simp [lastDoc_eq_some_iff]

namespace SourceFile

open Outline

/-- The places in the statements of a tree, in the order of the numbers of their entities. -/
def spots (tree : Value) : List Spot :=
  spotsFrom [] ((statements tree).stream false)

section OfTree

variable (name : String) (tree : Value) (contentHash : Option String) (mtime : Option Double)
  (size : Option Int)

/-- The declarations of a tree are what its places state, each with its documentation. -/
theorem notes_declarations :
    (declarations tree).map Declaration.note = (spots tree).map Spot.note :=
  (Node.reads_ofValue (statements tree) false 0 2 []).1

/-- An entity of a file of a tree with the note of its place. -/
theorem exists_get?_ofTree {k : Nat} {spot : Spot} (hk : (spots tree)[k]? = some spot) :
    ∃ e, (ofTree name tree contentHash mtime size).1.outline.get? (2 + k) = some e ∧
      e.profile = spot.entity ∧ e.doc = spot.doc? := by
  have hnote : ((declarations tree)[k]?).map Declaration.note = some spot.note := by
    rw [← List.getElem?_map, notes_declarations, List.getElem?_map, hk, Option.map_some]
  obtain ⟨d, hd, hspot⟩ := Option.map_eq_some_iff.1 hnote
  have hbare := getElem?_bares_ofTree name tree contentHash mtime size k
  rw [hd, Option.map_some, getElem?_bares] at hbare
  obtain ⟨e, he, hstated⟩ := Option.map_eq_some_iff.1 hbare
  obtain ⟨hprofile, hdoc⟩ := Prod.mk.inj hspot
  refine ⟨e, he, ?_, ?_⟩
  · rw [← e.profile_bare, hstated, ← hprofile]
    rfl
  · have hsame : e.bare.doc = d.entity.doc := by rw [hstated]
    exact hsame.trans hdoc

/-- The file and its home have no documentation. -/
theorem doc_of_lt_two {i : Nat} (hi : i < 2) {e : Entity}
    (he : (ofTree name tree contentHash mtime size).1.outline.get? i = some e) : e.doc = none := by
  have hbare : (ofTree name tree contentHash mtime size).1.outline.bares[i]? = some e.bare := by
    rw [getElem?_bares, he, Option.map_some]
  have hdoc : e.bare.doc = none := by
    match i with
    | 0 =>
      rw [getElem?_bares_ofTree_zero] at hbare
      rw [← Option.some.inj hbare]
    | 1 =>
      rw [getElem?_bares_ofTree_one] at hbare
      rw [← Option.some.inj hbare]
      rfl
  exact hdoc

/-- Entity by entity, the documentation in the file of a tree is what stands directly before the
declaration in the stream of the body that states it.  Blocks, the file and its home have none. -/
theorem doc_ofTree :
    (ofTree name tree contentHash mtime size).1.outline.size = 2 + (spots tree).length ∧
    (∀ i < 2, ∀ e, (ofTree name tree contentHash mtime size).1.outline.get? i = some e →
      e.doc = none) ∧
    ∀ k spot, (spots tree)[k]? = some spot →
      spot.LiesIn ((statements tree).stream false) ∧
      ∃ e, (ofTree name tree contentHash mtime size).1.outline.get? (2 + k) = some e ∧
        e.profile = spot.entity ∧
        ∀ text, e.doc = some text ↔
          spot.isBlock = false ∧ spot.before.getLast? = some (.doc text) := by
  refine ⟨?_, ?_, ?_⟩
  · have hlength := congrArg List.length (notes_declarations tree)
    rw [List.length_map, List.length_map] at hlength
    rw [size_ofTree, hlength]
  · intro i hi e he
    exact doc_of_lt_two name tree contentHash mtime size hi he
  · intro k spot hk
    obtain ⟨e, he, hprofile, hdoc⟩ := exists_get?_ofTree name tree contentHash mtime size hk
    refine ⟨?_, e, he, hprofile, fun text => ?_⟩
    · exact liesIn_of_mem_spotsFrom ((statements tree).stream false) [] .whole spot
        (List.mem_of_getElem? hk)
    · rw [hdoc, Spot.doc?_eq_some_iff]

end OfTree

end SourceFile

end SymbolAtlas
