import Mathlib
import SymbolAtlas.SourceFile
import SymbolAtlas.Proofs.Outline.Members

/-!
# Linking include directives

Queueing and looking up directives changes nothing but links and the queue, and closing scopes
changes nothing that is stated, owned or shown; `SourceFile.UpToLinks` collects what stays.

`SourceFile.Queues` says that every directive is queued with the names it may lead to, or leads
nowhere because there are none.  Looking up the queue then links every directive to the first of its
names that leads to a file (`SourceFile.Queues.link_relink`).
-/

namespace SymbolAtlas

/-- A directive without its link. -/
def Inclusion.bare (i : Inclusion) : Inclusion :=
  { i with link := .pending }

namespace SourceFile

open Outline

theorem name_eq_bares (f : SourceFile) :
    f.name = (f.outline.bares[0]?.bind Entity.name).getD "" := by
  rw [name, fileName, getElem?_bares, Option.bind_map]
  rfl

/-- The second file is the first one up to links, the queue and closed scopes. -/
structure UpToLinks (f g : SourceFile) : Prop where
  bares : g.outline.bares = f.outline.bares
  place? : ∀ i, g.outline.place? i = f.outline.place? i
  shown : ∀ i, g.outline.shown i = f.outline.shown i
  linked : g.outline.linked = f.outline.linked
  home : g.outline.home = f.outline.home
  namespaces : g.outline.namespaces = f.outline.namespaces
  externals : g.outline.externals = f.outline.externals
  contentHash : g.contentHash = f.contentHash
  mtime : g.mtime = f.mtime
  size : g.size = f.size
  detached : g.detached = f.detached

namespace UpToLinks

variable {f g h : SourceFile}

theorem refl (f : SourceFile) : UpToLinks f f :=
  ⟨rfl, fun _ => rfl, fun _ => rfl, rfl, rfl, rfl, rfl, rfl, rfl, rfl, rfl⟩

theorem trans (hfg : UpToLinks f g) (hgh : UpToLinks g h) : UpToLinks f h where
  bares := hgh.bares.trans hfg.bares
  place? := fun i => (hgh.place? i).trans (hfg.place? i)
  shown := fun i => (hgh.shown i).trans (hfg.shown i)
  linked := hgh.linked.trans hfg.linked
  home := hgh.home.trans hfg.home
  namespaces := hgh.namespaces.trans hfg.namespaces
  externals := hgh.externals.trans hfg.externals
  contentHash := hgh.contentHash.trans hfg.contentHash
  mtime := hgh.mtime.trans hfg.mtime
  size := hgh.size.trans hfg.size
  detached := hgh.detached.trans hfg.detached

theorem wellOwned (h : UpToLinks f g) (hf : WellOwned f.outline) : WellOwned g.outline :=
  hf.congr h.linked h.place?

theorem size_outline (h : UpToLinks f g) : g.outline.size = f.outline.size := by
  rw [← length_bares, h.bares, length_bares]

theorem name_eq (h : UpToLinks f g) : g.name = f.name := by
  rw [name_eq_bares, name_eq_bares, h.bares]

theorem symbolCount_eq (h : UpToLinks f g) : g.symbolCount = f.symbolCount := by
  rw [symbolCount, symbolCount, h.detached, h.size_outline]

end UpToLinks

theorem upToLinks_setLink (f : SourceFile) (id : Nat) (link : Link) :
    UpToLinks f (f.setLink id link) where
  bares := f.outline.bares_modify id fun e => e.bare_mapInclusion_link link
  place? := fun i => place?_modify id i fun e => e.place_mapInclusion _
  shown := fun i => shown_modify_of_body id i fun e => by
    obtain ⟨detail, name, parent, span, doc⟩ := e
    cases detail <;> rfl
  linked := rfl
  home := rfl
  namespaces := rfl
  externals := rfl
  contentHash := rfl
  mtime := rfl
  size := rfl
  detached := rfl

theorem upToLinks_close (f : SourceFile) : UpToLinks f f.close where
  bares := f.outline.bares_close
  place? := f.outline.place?_close
  shown := f.outline.shown_close
  linked := rfl
  home := rfl
  namespaces := rfl
  externals := rfl
  contentHash := rfl
  mtime := rfl
  size := rfl
  detached := rfl

/-! ## Directives -/

/-- The include directive with a number. -/
def directive? (f : SourceFile) (i : Nat) : Option Inclusion :=
  (f.outline.get? i).bind Entity.inclusion?

theorem bare_directive? (f : SourceFile) (i : Nat) :
    (f.directive? i).map Inclusion.bare = f.outline.bares[i]?.bind Entity.inclusion? := by
  rw [directive?, getElem?_bares, Option.bind_map, Option.map_bind]
  congr 1
  funext e
  obtain ⟨detail, name, parent, span, doc⟩ := e
  cases detail <;> rfl

theorem directive?_setLink (f : SourceFile) (id : Nat) (link : Link) (i : Nat) :
    (f.setLink id link).directive? i =
      if id = i then (f.directive? i).map fun inc => { inc with link := link }
      else f.directive? i := by
  unfold directive? setLink
  rw [get?_modify]
  split
  · rw [Option.bind_map, Option.map_bind]
    congr 1
    funext e
    obtain ⟨detail, name, parent, span, doc⟩ := e
    cases detail <;> rfl
  · rfl

theorem directive?_close (f : SourceFile) (i : Nat) : f.close.directive? i = f.directive? i := by
  rw [directive?, close, get?_close, Option.bind_map, directive?]
  congr 1
  funext e
  obtain ⟨detail, name, parent, span, doc⟩ := e
  cases detail <;> rfl

theorem directive?_rename (f : SourceFile) (name : String) (i : Nat) :
    (f.rename name).directive? i = f.directive? i := by
  rw [directive?, rename, get?_modify, directive?]
  split
  · rw [Option.bind_map]
    rfl
  · rfl

/-- What a directive may lead to does not depend on where it leads. -/
theorem candidates_congr {inc inc' : Inclusion} (h : inc.bare = inc'.bare) (name : String)
    (before : Value) : candidates name inc before = candidates name inc' before := by
  have htarget : inc.bare.target = inc'.bare.target := congrArg Inclusion.target h
  have hpath : inc.path? = inc'.path? := congrArg Value.text? htarget
  simp only [candidates, hpath]

/-! ## Queues -/

/-- The queue holds every directive with the names that it may lead to, seen from the name of the
file at the time and from where it led before.  A directive that is not queued leads nowhere. -/
structure Queues (f : SourceFile) (origin : String) (before : Nat → Value) : Prop where
  sound : ∀ q ∈ f.queue, ∃ inc, f.directive? q.entity = some inc ∧
    q.candidates = candidates origin inc (before q.entity)
  complete : ∀ {i inc}, f.directive? i = some inc → (∃ q ∈ f.queue, q.entity = i) ∨
    (candidates origin inc (before i) = [] ∧ inc.link = .unresolved)

namespace Queues

variable {f g : SourceFile} {origin : String} {before : Nat → Value}

theorem congr (h : Queues f origin before) (hq : g.queue = f.queue)
    (hd : ∀ i, g.directive? i = f.directive? i) : Queues g origin before where
  sound := by
    intro q hmem
    rw [hd]
    exact h.sound q (hq ▸ hmem)
  complete := by
    intro i inc hi
    rw [hq]
    exact h.complete (hd i ▸ hi)

theorem close (h : Queues f origin before) : Queues f.close origin before :=
  h.congr rfl f.directive?_close

theorem rename (h : Queues f origin before) (name : String) :
    Queues (f.rename name) origin before :=
  h.congr rfl (f.directive?_rename name)

/-- Linking a queued directive keeps it queued. -/
theorem setLink (h : Queues f origin before) {q : Lookup} (hq : q ∈ f.queue) (link : Link) :
    Queues (f.setLink q.entity link) origin before where
  sound := by
    intro q' hq'
    obtain ⟨inc, hinc, hc⟩ := h.sound q' hq'
    rw [directive?_setLink]
    split
    · rw [hinc]
      exact ⟨_, rfl, hc⟩
    · exact ⟨inc, hinc, hc⟩
  complete := by
    intro i inc hi
    rw [directive?_setLink] at hi
    split at hi
    · rename_i heq
      exact Or.inl ⟨q, hq, heq⟩
    · exact h.complete hi

end Queues

section Enqueue

variable (f : SourceFile) (id : Nat) (before : Value)

/-- What queueing amounts to: nothing, if there is no such directive; else the directive is queued,
or marked because it can lead nowhere. -/
theorem enqueue_cases :
    (f.directive? id = none ∧ f.enqueue id before = f) ∨
    ∃ inc, f.directive? id = some inc ∧
      ((candidates f.name inc before = [] ∧ f.enqueue id before = f.setLink id .unresolved) ∨
        f.enqueue id before = { f with
          queue := f.queue ++
            [{ entity := id, candidates := candidates f.name inc before }] }) := by
  unfold enqueue
  split
  · rename_i hnone
    exact Or.inl ⟨hnone, rfl⟩
  · rename_i inc hinc
    refine Or.inr ⟨inc, hinc, ?_⟩
    split
    · rename_i hempty
      exact Or.inl ⟨hempty, rfl⟩
    · exact Or.inr rfl

theorem upToLinks_enqueue : UpToLinks f (f.enqueue id before) := by
  rcases enqueue_cases f id before with ⟨-, h⟩ | ⟨inc, -, ⟨-, h⟩ | h⟩
  · rw [h]
    exact .refl f
  · rw [h]
    exact upToLinks_setLink f id .unresolved
  · rw [h]
    exact ⟨rfl, fun _ => rfl, fun _ => rfl, rfl, rfl, rfl, rfl, rfl, rfl, rfl, rfl⟩

end Enqueue

/-- Queues directives one after the other, each with what it led to before. -/
def enqueueEach (f : SourceFile) (lookups : List (Nat × Value)) : SourceFile :=
  lookups.foldl (fun f q => f.enqueue q.1 q.2) f

theorem upToLinks_enqueueEach (f : SourceFile) (lookups : List (Nat × Value)) :
    UpToLinks f (f.enqueueEach lookups) := by
  induction lookups generalizing f with
  | nil => exact .refl f
  | cons q rest ih => exact (upToLinks_enqueue f q.1 q.2).trans (ih _)

/-- On the way to a full queue: a directive is queued, marked, or still to come. -/
structure Queueing (f : SourceFile) (origin : String) (before : Nat → Value)
    (rest : List (Nat × Value)) : Prop where
  sound : ∀ q ∈ f.queue, ∃ inc, f.directive? q.entity = some inc ∧
    q.candidates = candidates origin inc (before q.entity)
  complete : ∀ {i inc}, f.directive? i = some inc → (∃ q ∈ f.queue, q.entity = i) ∨
    (candidates origin inc (before i) = [] ∧ inc.link = .unresolved) ∨ ∃ q ∈ rest, q.1 = i

namespace Queueing

variable {f : SourceFile} {origin : String} {before : Nat → Value} {id : Nat}
  {rest : List (Nat × Value)}

/-- What is left to come once the first has been dealt with. -/
theorem others {value : Value} (h : Queueing f origin before ((id, value) :: rest)) {i : Nat}
    {inc : Inclusion} (hi : f.directive? i = some inc) (hne : id ≠ i) :
    (∃ q ∈ f.queue, q.entity = i) ∨
      (candidates origin inc (before i) = [] ∧ inc.link = .unresolved) ∨ ∃ q ∈ rest, q.1 = i := by
  rcases h.complete hi with hc | hc | ⟨q, hq, rfl⟩
  · exact Or.inl hc
  · exact Or.inr (Or.inl hc)
  · rcases List.mem_cons.1 hq with rfl | hq
    · exact absurd rfl hne
    · exact Or.inr (Or.inr ⟨q, hq, rfl⟩)

theorem enqueue (h : Queueing f origin before ((id, before id) :: rest)) (hname : f.name = origin) :
    Queueing (f.enqueue id (before id)) origin before rest := by
  subst hname
  rcases enqueue_cases f id (before id) with ⟨hnone, heq⟩ | ⟨inc, hinc, ⟨hempty, heq⟩ | heq⟩
  · rw [heq]
    refine ⟨h.sound, fun {i inc} hi => h.others hi ?_⟩
    rintro rfl
    rw [hnone] at hi
    cases hi
  · rw [heq]
    refine ⟨?_, ?_⟩
    · intro q hq
      obtain ⟨old, hold, hc⟩ := h.sound q hq
      rw [directive?_setLink]
      split
      · rw [hold]
        exact ⟨_, rfl, hc⟩
      · exact ⟨old, hold, hc⟩
    · intro i inc' hi
      rw [directive?_setLink] at hi
      split at hi
      · rename_i hid
        subst hid
        rw [hinc] at hi
        cases hi
        exact Or.inr (Or.inl ⟨hempty, rfl⟩)
      · rename_i hne
        exact h.others hi hne
  · rw [heq]
    refine ⟨?_, ?_⟩
    · intro q hq
      rcases List.mem_append.1 hq with hq | hq
      · exact h.sound q hq
      · rw [List.mem_singleton] at hq
        subst hq
        exact ⟨inc, hinc, rfl⟩
    · intro i inc' hi
      by_cases hid : id = i
      · exact Or.inl ⟨_, List.mem_append_right _ (List.mem_singleton.2 rfl), hid⟩
      · rcases h.others hi hid with ⟨q, hq, hqi⟩ | hc
        · exact Or.inl ⟨q, List.mem_append_left _ hq, hqi⟩
        · exact Or.inr hc

theorem enqueueEach (h : Queueing f origin before rest) (hname : f.name = origin)
    (hbefore : ∀ q ∈ rest, q.2 = before q.1) : Queues (f.enqueueEach rest) origin before := by
  induction rest generalizing f with
  | nil =>
    refine ⟨h.sound, fun hi => ?_⟩
    rcases h.complete hi with hc | hc | ⟨q, hq, -⟩
    · exact Or.inl hc
    · exact Or.inr hc
    · cases hq
  | cons first rest ih =>
    obtain ⟨id, value⟩ := first
    obtain ⟨hvalue, hrest⟩ := List.forall_mem_cons.1 hbefore
    have hfirst : value = before id := hvalue
    subst hfirst
    exact ih (h.enqueue hname) ((upToLinks_enqueue f id _).name_eq.trans hname) hrest

end Queueing

/-- Queueing every directive of a file fills the queue. -/
theorem queues_enqueueEach {f : SourceFile} (hqueue : f.queue = []) {before : Nat → Value}
    {lookups : List (Nat × Value)} (hbefore : ∀ q ∈ lookups, q.2 = before q.1)
    (hall : ∀ i inc, f.directive? i = some inc → ∃ q ∈ lookups, q.1 = i) :
    Queues (f.enqueueEach lookups) f.name before := by
  refine Queueing.enqueueEach ⟨?_, fun hi => Or.inr (Or.inr (hall _ _ hi))⟩ rfl hbefore
  rw [hqueue]
  intro q hq
  cases hq

/-! ## Looking up the queue -/

section Relink

variable {resolve : Value → Except BadName (Option Nat)}

/-- What setting one link keeps is kept by looking up a queue. -/
theorem relinkAll_keeps {P : SourceFile → Prop} {queue : List Lookup}
    (step : ∀ f, ∀ q ∈ queue, ∀ link, P f → P (f.setLink q.entity link)) {f : SourceFile}
    (hf : P f) (missed : Nat) : P (relinkAll resolve f queue missed).1 := by
  induction queue generalizing f missed with
  | nil => exact hf
  | cons q rest ih =>
    have hrest := fun g q' hq' => step g q' (List.mem_cons_of_mem q hq')
    have hq := fun link => step f q List.mem_cons_self link hf
    rw [relinkAll]
    split
    · exact hf
    · exact ih hrest (hq _) _
    · exact ih hrest (hq _) _

theorem upToLinks_relink (f : SourceFile) : UpToLinks f (f.relink resolve).1 :=
  relinkAll_keeps (fun g q _ link hg => hg.trans (upToLinks_setLink g q.entity link)) (.refl f) 0

theorem Queues.relink {f : SourceFile} {origin : String} {before : Nat → Value}
    (h : Queues f origin before) : Queues (f.relink resolve).1 origin before := by
  refine (relinkAll_keeps (P := fun g => Queues g origin before ∧ g.queue = f.queue) ?_
    ⟨h, rfl⟩ 0).1
  rintro g q hq link ⟨hg, hqueue⟩
  exact ⟨hg.setLink (hqueue ▸ hq) link, hqueue⟩

/-- The link to the first name that leads to a file. -/
def linkTo (resolve : Value → Except BadName (Option Nat)) (names : List Value) : Link :=
  match firstHit resolve names with
  | .ok (some n) => .file n
  | _ => .unresolved

/-- After a queue was looked up, a directive is linked as its names say, if it was queued, and as
before otherwise. -/
theorem directive?_relinkAll {f g : SourceFile} {queue : List Lookup} {missed total : Nat}
    (hok : relinkAll resolve f queue missed = (g, .ok total)) {i : Nat} {inc : Inclusion}
    (hi : g.directive? i = some inc) :
    (∃ q ∈ queue, q.entity = i ∧ inc.link = linkTo resolve q.candidates ∧
      ∃ hit, firstHit resolve q.candidates = .ok hit) ∨
    ((∀ q ∈ queue, q.entity ≠ i) ∧ f.directive? i = some inc) := by
  induction queue generalizing f missed with
  | nil =>
    cases hok
    refine Or.inr ⟨?_, hi⟩
    intro q hq
    cases hq
  | cons q rest ih =>
    -- the first directive gets its link, and the rest of the queue may link it again
    have hstep : ∀ {link : Link} {m : Nat},
        relinkAll resolve (f.setLink q.entity link) rest m = (g, .ok total) →
        link = linkTo resolve q.candidates → (∃ hit, firstHit resolve q.candidates = .ok hit) →
        (∃ q' ∈ q :: rest, q'.entity = i ∧ inc.link = linkTo resolve q'.candidates ∧
          ∃ hit, firstHit resolve q'.candidates = .ok hit) ∨
        ((∀ q' ∈ q :: rest, q'.entity ≠ i) ∧ f.directive? i = some inc) := by
      intro link m hrest hlink hhit
      rcases ih hrest with ⟨q', hq', hfound⟩ | ⟨hnone, hold⟩
      · exact Or.inl ⟨q', List.mem_cons_of_mem q hq', hfound⟩
      · rw [directive?_setLink] at hold
        split at hold
        · rename_i hentity
          obtain ⟨old, -, rfl⟩ := Option.map_eq_some_iff.1 hold
          exact Or.inl ⟨q, List.mem_cons_self, hentity, hlink, hhit⟩
        · rename_i hentity
          exact Or.inr ⟨List.forall_mem_cons.2 ⟨hentity, hnone⟩, hold⟩
    rw [relinkAll] at hok
    split at hok
    · cases hok
    · rename_i n hn
      exact hstep hok (by rw [linkTo, hn]) ⟨_, hn⟩
    · rename_i hn
      exact hstep hok (by rw [linkTo, hn]) ⟨_, hn⟩

theorem queue_relink (f : SourceFile) : (f.relink resolve).1.queue = f.queue :=
  relinkAll_keeps (P := fun g => g.queue = f.queue) (fun _ _ _ _ hg => hg) rfl 0

/-- Once its queue was looked up, every directive of a file is linked to the first of its names that
leads to a file. -/
theorem Queues.link_of_relink {f g : SourceFile} {origin : String} {before : Nat → Value}
    (h : Queues g origin before) {total : Nat} (hok : f.relink resolve = (g, .ok total)) {i : Nat}
    {inc : Inclusion} (hi : g.directive? i = some inc) :
    inc.link = linkTo resolve (candidates origin inc (before i)) ∧
      ∃ hit, firstHit resolve (candidates origin inc (before i)) = .ok hit := by
  have hqueue : (f.relink resolve).1.queue = f.queue := queue_relink f
  rw [hok] at hqueue
  rcases directive?_relinkAll hok hi with ⟨q, hq, rfl, hlink, hhit⟩ | ⟨hnone, -⟩
  · obtain ⟨inc', hinc', hc⟩ := h.sound q (hqueue ▸ hq)
    cases hi.symm.trans hinc'
    rw [← hc]
    exact ⟨hlink, hhit⟩
  · rcases h.complete hi with ⟨q, hq, hqi⟩ | ⟨hempty, hlink⟩
    · exact absurd hqi (hnone q (hqueue ▸ hq))
    · rw [hempty]
      exact ⟨hlink, _, rfl⟩

theorem Queues.link_relink {f g : SourceFile} {origin : String} {before : Nat → Value}
    (h : Queues f origin before) {total : Nat} (hok : f.relink resolve = (g, .ok total)) {i : Nat}
    {inc : Inclusion} (hi : g.directive? i = some inc) :
    inc.link = linkTo resolve (candidates origin inc (before i)) ∧
      ∃ hit, firstHit resolve (candidates origin inc (before i)) = .ok hit := by
  have hg : Queues (f.relink resolve).1 origin before := h.relink
  rw [hok] at hg
  exact hg.link_of_relink hok hi

/-- A queue is gone through to its end if and only if none of its look-ups fails. -/
theorem relinkAll_ok_iff {f : SourceFile} {queue : List Lookup} {missed : Nat} :
    (∃ total, (relinkAll resolve f queue missed).2 = .ok total) ↔
      ∀ q ∈ queue, ∃ hit, firstHit resolve q.candidates = .ok hit := by
  induction queue generalizing f missed with
  | nil => simp [relinkAll]
  | cons q rest ih =>
    rw [relinkAll, List.forall_mem_cons]
    cases hhit : firstHit resolve q.candidates with
    | error e => simp
    | ok hit =>
      have hsome : ∃ hit', (Except.ok hit : Except BadName (Option Nat)) = .ok hit' := ⟨hit, rfl⟩
      rw [and_iff_right hsome]
      cases hit with
      | none => exact ih
      | some n => exact ih

theorem relink_ok_iff {f : SourceFile} : (∃ total, (f.relink resolve).2 = .ok total) ↔
    ∀ q ∈ f.queue, ∃ hit, firstHit resolve q.candidates = .ok hit :=
  relinkAll_ok_iff

end Relink

end SourceFile

end SymbolAtlas
