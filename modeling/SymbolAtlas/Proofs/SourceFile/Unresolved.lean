import Mathlib
import SymbolAtlas.Proofs.SourceFile.Sound
import SymbolAtlas.Proofs.SourceFile.Stems

/-!
# Directives that lead nowhere

A file queues none of its directives twice (`SourceFile.Made.nodup_queue`).  Looking its queue up a
second time, with the same answers, changes no link; and what is counted on the way are the queued
directives that lead nowhere (`SourceFile.Made.relink_again`).
-/

namespace SymbolAtlas

namespace SourceFile

/-- Whether the directive with a number leads nowhere. -/
def leadsNowhere (f : SourceFile) (i : Nat) : Bool :=
  (f.directive? i).any (·.link = .unresolved)

/-- The queued directives that lead nowhere. -/
def unresolved (f : SourceFile) : List Nat :=
  (List.range f.outline.size).filter fun i => f.queue.any (·.entity = i) && f.leadsNowhere i

theorem leadsNowhere_eq {f : SourceFile} {i : Nat} {inc : Inclusion}
    (h : f.directive? i = some inc) : f.leadsNowhere i = decide (inc.link = .unresolved) := by
  rw [leadsNowhere, h, Option.any_some]

theorem lt_size_of_directive? {f : SourceFile} {i : Nat} {inc : Inclusion}
    (h : f.directive? i = some inc) : i < f.outline.size := by
  obtain ⟨e, he, -⟩ := Option.bind_eq_some_iff.1 h
  exact Outline.get?_isSome_iff.1 (by rw [he]; rfl)

/-! ## No directive is queued twice -/

/-- What is queued comes from what was to be queued, in order. -/
theorem queue_enqueueEach (f : SourceFile) (lookups : List (Nat × Value)) :
    ∃ added : List Nat, added.Sublist (lookups.map Prod.fst) ∧
      (f.enqueueEach lookups).queue.map Lookup.entity = f.queue.map Lookup.entity ++ added := by
  induction lookups generalizing f with
  | nil => exact ⟨[], .slnil, (List.append_nil _).symm⟩
  | cons q rest ih =>
    obtain ⟨id, before⟩ := q
    obtain ⟨added, hadded, hqueue⟩ := ih (f.enqueue id before)
    have hskipped : (f.enqueue id before).queue = f.queue →
        ∃ added : List Nat, added.Sublist (id :: rest.map Prod.fst) ∧
          ((f.enqueue id before).enqueueEach rest).queue.map Lookup.entity =
            f.queue.map Lookup.entity ++ added :=
      fun hsame => ⟨added, hadded.cons id, by rw [hqueue, hsame]⟩
    rcases enqueue_cases f id before with ⟨-, heq⟩ | ⟨inc, -, ⟨-, heq⟩ | heq⟩
    · exact hskipped (by rw [heq])
    · exact hskipped (by rw [heq]; rfl)
    · refine ⟨id :: added, hadded.cons_cons id, hqueue.trans ?_⟩
      rw [heq, List.map_append, List.append_assoc]
      rfl

theorem nodup_queue_enqueueEach {f : SourceFile} (hqueue : f.queue = [])
    {lookups : List (Nat × Value)} (h : (lookups.map Prod.fst).Nodup) :
    ((f.enqueueEach lookups).queue.map Lookup.entity).Nodup := by
  obtain ⟨added, hadded, heq⟩ := queue_enqueueEach f lookups
  rw [heq, hqueue, List.map_nil, List.nil_append]
  exact h.sublist hadded

theorem nodup_queue_ofTree (name : String) (tree : Value) (contentHash : Option String)
    (mtime : Option Double) (size : Option Int) :
    ((ofTree name tree contentHash mtime size).1.queue.map Lookup.entity).Nodup := by
  rw [ofTree_fst]
  refine nodup_queue_enqueueEach rfl ?_
  rw [List.map_map, (catalogued_entered name tree).externals]
  exact (List.nodup_range.filter _).map_on fun _ _ _ _ heq => heq

end SourceFile

/-- The entities of a snapshot are numbered in order. -/
theorem FileSnapshot.nodup_lookups {s : FileSnapshot} {o : Outline} (h : s.outline? = .ok o) :
    (s.lookups.map Prod.fst).Nodup := by
  obtain ⟨-, -, -, -, -, -, -, -, hcontiguous, -⟩ := outline?_eq_ok.1 h
  have hnumbers : s.lookups.map Prod.fst = List.range s.inOrder.length := by
    refine List.ext_getElem? fun j => ?_
    rw [lookups, List.map_map, List.getElem?_map]
    cases he : s.inOrder[j]? with
    | none =>
      rw [List.getElem?_eq_none (by rw [List.length_range]; exact List.getElem?_eq_none_iff.1 he)]
      rfl
    | some e =>
      have hid := id_of_isContiguous hcontiguous he
      rw [List.getElem?_range (List.getElem?_eq_some_iff.1 he).1]
      simp [hid]
  rw [hnumbers]
  exact List.nodup_range

namespace SourceFile

variable {f g : SourceFile} {origin : String}

theorem Made.nodup_queue (h : Made origin f) : (f.queue.map Lookup.entity).Nodup := by
  induction h with
  | parsed tree contentHash mtime size =>
    exact nodup_queue_ofTree origin tree contentHash mtime size
  | restored hname hf =>
    obtain ⟨o, ho, rfl⟩ := FileSnapshot.restore_eq_ok.1 hf
    exact nodup_queue_enqueueEach rfl (FileSnapshot.nodup_lookups ho)
  | renamed _ name ih => exact ih
  | relinked _ resolve ih => rwa [queue_relink]

/-! ## Looking up again -/

/-- A link that is set to what it is stays as it is. -/
theorem setLink_self {i : Nat} {inc : Inclusion} (h : f.directive? i = some inc) :
    f.setLink i inc.link = f := by
  obtain ⟨e, he, hinc⟩ := Option.bind_eq_some_iff.1 h
  have hsame : e.mapInclusion (fun x => { x with link := inc.link }) = e := by
    obtain ⟨detail, name, parent, span, doc⟩ := e
    cases detail with
    | external x =>
      cases hinc
      rfl
    | _ => cases hinc
  have hentities : f.outline.entities.modify i (Entity.mapInclusion fun x =>
      { x with link := inc.link }) = f.outline.entities := by
    refine Array.ext_getElem? fun j => ?_
    rw [Array.getElem?_modify]
    split
    · rename_i hij
      subst hij
      rw [show f.outline.entities[i]? = some e from he, Option.map_some, hsame]
    · rfl
  simp only [setLink, Outline.modify, hentities]

section Again

variable {resolve : Value → Except BadName (Option Nat)}

/-- A queue whose directives are all linked as the look-ups say is gone through without a change. -/
theorem relinkAll_linked {queue : List Lookup}
    (h : ∀ q ∈ queue, ∃ inc hit, f.directive? q.entity = some inc ∧
      firstHit resolve q.candidates = .ok hit ∧ inc.link = Link.ofHit hit) (missed : Nat) :
    relinkAll resolve f queue missed =
      (f, .ok (missed + queue.countP fun q => f.leadsNowhere q.entity)) := by
  induction queue generalizing missed with
  | nil => rfl
  | cons q rest ih =>
    obtain ⟨⟨inc, hit, hinc, hhit, hlink⟩, hrest⟩ := List.forall_mem_cons.1 h
    have hself := setLink_self hinc
    have hcount := leadsNowhere_eq hinc
    rw [hlink] at hself hcount
    rw [relinkAll, hhit, List.countP_cons, hcount]
    cases hit with
    | none =>
      show relinkAll resolve (f.setLink q.entity (Link.ofHit none)) rest (missed + 1) = _
      rw [hself, ih hrest, Nat.add_right_comm, Nat.add_assoc]
      rfl
    | some n =>
      show relinkAll resolve (f.setLink q.entity (Link.ofHit (some n))) rest missed = _
      rw [hself, ih hrest]
      rfl

/-- As no directive is queued twice, the entries of the queue count the directives. -/
theorem length_unresolved (h : (f.queue.map Lookup.entity).Nodup) :
    f.unresolved.length = f.queue.countP fun q => f.leadsNowhere q.entity := by
  have hperm : f.unresolved.Perm
      ((f.queue.filter fun q => f.leadsNowhere q.entity).map Lookup.entity) := by
    refine (List.perm_ext_iff_of_nodup (List.nodup_range.filter _)
      (h.sublist (List.filter_sublist.map _))).2 fun i => ?_
    rw [List.mem_filter, List.mem_range, List.mem_map, Bool.and_eq_true,
      List.any_eq_true]
    constructor
    · rintro ⟨-, ⟨q, hq, hqi⟩, hlink⟩
      obtain rfl := of_decide_eq_true hqi
      exact ⟨q, List.mem_filter.2 ⟨hq, hlink⟩, rfl⟩
    · rintro ⟨q, hq, rfl⟩
      obtain ⟨hmem, hlink⟩ := List.mem_filter.1 hq
      obtain ⟨inc, hinc, -⟩ := (Option.any_eq_true _ _).1 hlink
      exact ⟨lt_size_of_directive? hinc, ⟨q, hmem, decide_eq_true rfl⟩, hlink⟩
  rw [hperm.length_eq, List.length_map, List.countP_eq_length_filter]

/-- Looking up the directives of a file again, with the same answers, changes nothing and counts
those that are queued and lead nowhere. -/
theorem Made.relink_again (hf : Made origin f) {missed : Nat}
    (h : f.relink resolve = (g, .ok missed)) :
    g.relink resolve = (g, .ok g.unresolved.length) := by
  have hg : Made origin (f.relink resolve).1 := hf.relinked resolve
  have hok : ∃ total, (f.relink resolve).2 = .ok total := ⟨missed, by rw [h]⟩
  have hqueue : (f.relink resolve).1.queue = f.queue := queue_relink f
  rw [h] at hg hqueue
  obtain ⟨before, hqueues⟩ := hg.sound.queues
  have hlinked : ∀ q ∈ g.queue, ∃ inc hit, g.directive? q.entity = some inc ∧
      firstHit resolve q.candidates = .ok hit ∧ inc.link = Link.ofHit hit := by
    intro q hq
    obtain ⟨inc, hinc, hcandidates⟩ := hqueues.sound q hq
    obtain ⟨hlink, hit, hhit⟩ := hqueues.link_of_relink h hinc
    rw [← hcandidates] at hlink hhit
    refine ⟨inc, hit, hinc, hhit, hlink.trans ?_⟩
    rw [linkTo, hhit]
    cases hit <;> rfl
  rw [relink, relinkAll_linked hlinked, Nat.zero_add, length_unresolved hg.nodup_queue]

end Again

end SourceFile

end SymbolAtlas
