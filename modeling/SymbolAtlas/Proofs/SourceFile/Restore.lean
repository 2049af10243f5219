import Mathlib
import SymbolAtlas.SourceFile.Restore
import SymbolAtlas.Proofs.Outline.Members
import SymbolAtlas.Proofs.SourceFile.OfTree

/-!
# Files that are taken back from snapshots

Taking back an entity adds it below an earlier scope, so the outline stays well-owned
(`Outline.restoreEntities_spec`); taking back a member list leaves the places alone and shows only
entities that exist (`Outline.restoreAllLists_keeps`).  `FileSnapshot.outline?_eq_ok` and
`FileSnapshot.restore_eq_ok` say what an accepted snapshot amounts to.
-/

namespace SymbolAtlas

theorem bind_eq_ok {ε α β : Type} {x : Except ε α} {f : α → Except ε β} {b : β} :
    (x >>= f) = .ok b ↔ ∃ a, x = .ok a ∧ f a = .ok b := by
  cases x with
  | error e => simp [bind, Except.bind]
  | ok a => simp [bind, Except.bind]

namespace EntitySnapshot

/-- The entity that is added for a snapshot. -/
def restored (e : EntitySnapshot) (detail : Detail) : Entity where
  detail := detail
  name := e.restoredName
  span := e.span
  doc := e.doc

theorem isFresh_restored {e : EntitySnapshot} {detail : Detail} (h : e.detail? = some detail) :
    (e.restored detail).IsFresh := by
  unfold detail? at h
  split at h <;> cases h <;> exact ⟨rfl, by simp [restored, Entity.scopeKind?]⟩

/-- What is stated of the entity that is added for a snapshot. -/
def bare (e : EntitySnapshot) : Entity :=
  { e.restored (e.detail?.getD .variable) with parent := e.parent.map Int.toNat }

end EntitySnapshot

namespace Outline

/-! ## Taking back entities -/

theorem find?_isScope_iff {o : Outline} {p : Int} :
    ((o.find? p).map Entity.isScope).getD false = true ↔
      0 ≤ p ∧ (o.scopeKind? p.toNat).isSome := by
  unfold find? Numbered.lookup? scopeKind? get?
  split
  · rename_i hp
    cases o.entities[p.toNat]? with
    | none => simp
    | some e => simp [hp, Entity.isScope_eq]
  · rename_i hp
    simp [hp]

/-- An entity is taken back below a scope with a smaller number. -/
theorem restoreEntity_eq_ok {o o' : Outline} {e : EntitySnapshot} :
    o.restoreEntity e = .ok o' ↔
      ∃ (p : Nat) (detail : Detail), e.parent = some (p : Int) ∧ (o.scopeKind? p).isSome ∧
        (p : Int) < e.id ∧ e.detail? = some detail ∧ o' = (o.add p (e.restored detail)).1 := by
  unfold restoreEntity
  constructor
  · intro h
    split at h
    · cases h
    · rename_i p hp
      split at h
      · rename_i hc
        rw [Bool.and_eq_true, decide_eq_true_eq, find?_isScope_iff] at hc
        obtain ⟨⟨hnonneg, hs⟩, hlt⟩ := hc
        split at h
        · cases h
        · rename_i detail hd
          cases h
          have hcast : ((p.toNat : Nat) : Int) = p := Int.toNat_of_nonneg hnonneg
          exact ⟨p.toNat, detail, by rw [hp, hcast], hs, by rwa [hcast], hd, rfl⟩
      · cases h
  · rintro ⟨p, detail, hp, hs, hlt, hd, rfl⟩
    have hscope : ((o.find? (p : Int)).map Entity.isScope).getD false = true :=
      find?_isScope_iff.2 ⟨Int.natCast_nonneg p, hs⟩
    simp only [hp, hscope, hlt, hd, decide_true, Bool.and_self, ↓reduceIte]
    rfl

theorem restoreEntities_cons_eq_ok {o o' : Outline} {e : EntitySnapshot}
    {rest : List EntitySnapshot} : o.restoreEntities (e :: rest) = .ok o' ↔
      ∃ o₁, o.restoreEntity e = .ok o₁ ∧ o₁.restoreEntities rest = .ok o' := by
  rw [restoreEntities]
  cases o.restoreEntity e with
  | error fault => simp
  | ok o₁ => simp

/-- Taking back entities adds them, one after the other, to the ownership tree. -/
theorem restoreEntities_spec {o o' : Outline} (h : WellOwned o) {es : List EntitySnapshot}
    (hok : o.restoreEntities es = .ok o') :
    WellOwned o' ∧ o'.bares = o.bares ++ es.map EntitySnapshot.bare ∧
      ∀ i, o'.shown i = o.shown i := by
  induction es generalizing o with
  | nil =>
    cases hok
    exact ⟨h, by simp, fun _ => rfl⟩
  | cons e rest ih =>
    obtain ⟨o₁, ho₁, hrest⟩ := restoreEntities_cons_eq_ok.1 hok
    obtain ⟨p, detail, hp, hs, -, hd, rfl⟩ := restoreEntity_eq_ok.1 ho₁
    have hfresh := e.isFresh_restored hd
    obtain ⟨hw, hbares, hshown⟩ := ih (h.add hs hfresh.children_eq hfresh.2) hrest
    refine ⟨hw, ?_, fun i => (hshown i).trans (shown_add h.linked p hfresh i)⟩
    have hbare : e.bare = { e.restored detail with parent := some p } := by
      simp [EntitySnapshot.bare, hd, hp]
    rw [hbares, bares_add h.linked, hfresh.1, List.map_cons, hbare]
    simp

/-! ## Taking back member lists -/

theorem member?_eq_ok {o : Outline} {fits : Nat → Bool} {id : Int} {n : Nat} :
    o.member? fits id = .ok n ↔ id = (n : Int) ∧ n < o.size ∧ fits n = true := by
  unfold member?
  constructor
  · intro h
    split at h
    · rename_i hc
      cases h
      rw [Bool.and_eq_true] at hc
      obtain ⟨hsome, hfits⟩ := hc
      unfold find? Numbered.lookup? at hsome
      split at hsome
      · rename_i hnonneg
        exact ⟨(Int.toNat_of_nonneg hnonneg).symm, get?_isSome_iff.1 hsome, hfits⟩
      · cases hsome
    · cases h
  · rintro ⟨rfl, hlt, hfits⟩
    have hsome : (o.find? (n : Int)).isSome = true := get?_isSome_iff.2 hlt
    simp [hsome, hfits]

theorem members?_cons_eq_ok {o : Outline} {fits : Nat → Bool} {id : Int} {rest : List Int}
    {ns : List Nat} : o.members? fits (id :: rest) = .ok ns ↔
      ∃ n ms, o.member? fits id = .ok n ∧ o.members? fits rest = .ok ms ∧ ns = n :: ms := by
  rw [members?]
  cases o.member? fits id with
  | error fault => simp
  | ok n =>
    cases o.members? fits rest with
    | error fault => simp
    | ok ms => simp [eq_comm]

theorem members?_eq_ok {o : Outline} {fits : Nat → Bool} {ids : List Int} {ns : List Nat} :
    o.members? fits ids = .ok ns ↔
      ids = ns.map Int.ofNat ∧ ∀ n ∈ ns, n < o.size ∧ fits n = true := by
  induction ids generalizing ns with
  | nil =>
    cases ns <;> simp [members?]
  | cons id rest ih =>
    rw [members?_cons_eq_ok]
    constructor
    · rintro ⟨n, ms, hn, hms, rfl⟩
      obtain ⟨hid, hlt⟩ := member?_eq_ok.1 hn
      obtain ⟨hrest, hall⟩ := ih.1 hms
      exact ⟨by rw [hid, hrest]; rfl, List.forall_mem_cons.2 ⟨hlt, hall⟩⟩
    · rintro ⟨hids, hall⟩
      cases ns with
      | nil => cases hids
      | cons n ms =>
        cases hids
        obtain ⟨hn, hms⟩ := List.forall_mem_cons.1 hall
        exact ⟨n, ms, member?_eq_ok.2 ⟨rfl, hn⟩, ih.2 ⟨rfl, hms⟩, rfl⟩

/-- The outline with another member list of one entity. -/
def setMembers (o : Outline) (i : Nat) (list : MemberList) (ns : List Nat) : Outline :=
  o.modify i (Entity.mapBody fun b => { b with members := b.members.set list ns })

/-- The next list of an entity is taken back if it is a list of a scope and its members exist. -/
theorem restoreLists_cons_eq_ok {o o' : Outline} {id : Int} {name : String} {ids : List Int}
    {rest : Ledger (List Int)} : o.restoreLists id ((name, ids) :: rest) = .ok o' ↔
      ∃ list ns, ((o.find? id).map Entity.isScope).getD false = true ∧
        MemberList.ofName? name = some list ∧ o.members? (fun _ => true) ids = .ok ns ∧
          (o.setMembers id.toNat list ns).restoreLists id rest = .ok o' := by
  rw [restoreLists]
  constructor
  · intro h
    split at h
    · rename_i list hscope hlist
      split at h
      · cases h
      · rename_i ns hns
        exact ⟨list, ns, hscope, hlist, hns, h⟩
    · cases h
  · rintro ⟨list, ns, hscope, hlist, hns, hrest⟩
    simp only [hscope, hlist, hns]
    exact hrest

theorem restoreAllLists_cons_eq_ok {o o' : Outline} {e : EntitySnapshot}
    {rest : List EntitySnapshot} : o.restoreAllLists (e :: rest) = .ok o' ↔
      ∃ o₁, o.restoreLists e.id e.lists = .ok o₁ ∧ o₁.restoreAllLists rest = .ok o' := by
  rw [restoreAllLists]
  cases o.restoreLists e.id e.lists with
  | error fault => simp
  | ok o₁ => simp

section Lists

variable {P : Outline → Prop}
  (step : ∀ o i list ns, (∀ n ∈ ns, n < o.size) → P o → P (o.setMembers i list ns))

include step

/-- What setting one list to existing members keeps is kept by taking back lists. -/
theorem restoreLists_keeps {o o' : Outline} {id : Int} {lists : Ledger (List Int)}
    (hok : o.restoreLists id lists = .ok o') (h : P o) : P o' := by
  induction lists generalizing o with
  | nil =>
    cases hok
    exact h
  | cons entry rest ih =>
    obtain ⟨list, ns, -, -, hns, hrest⟩ := restoreLists_cons_eq_ok.1 hok
    exact ih hrest (step o _ list ns (fun n hn => ((members?_eq_ok.1 hns).2 n hn).1) h)

theorem restoreAllLists_keeps {o o' : Outline} {es : List EntitySnapshot}
    (hok : o.restoreAllLists es = .ok o') (h : P o) : P o' := by
  induction es generalizing o with
  | nil =>
    cases hok
    exact h
  | cons e rest ih =>
    obtain ⟨o₁, ho₁, hrest⟩ := restoreAllLists_cons_eq_ok.1 hok
    exact ih hrest (restoreLists_keeps step ho₁ h)

end Lists

section SetMembers

variable (o : Outline) (i : Nat) (list : MemberList) (ns : List Nat)

theorem place?_setMembers (j : Nat) : (o.setMembers i list ns).place? j = o.place? j :=
  place?_modify i j fun e =>
    e.place_mapBody (fun b => { b with members := b.members.set list ns }) fun _ => rfl

theorem bares_setMembers : (o.setMembers i list ns).bares = o.bares :=
  o.bares_modify i fun e => e.bare_mapBody _

end SetMembers

theorem restoreAllLists_spec {o o' : Outline} {es : List EntitySnapshot}
    (hok : o.restoreAllLists es = .ok o') (h : WellOwned o) (hr : InRange o) :
    WellOwned o' ∧ InRange o' ∧ o'.bares = o.bares := by
  refine restoreAllLists_keeps (P := fun x => WellOwned x ∧ InRange x ∧ x.bares = o.bares) ?_ hok
    ⟨h, hr, rfl⟩
  rintro x i list ns hns ⟨hw, hx, hb⟩
  refine ⟨hw.congr rfl (place?_setMembers x i list ns), ?_, (bares_setMembers x i list ns).trans hb⟩
  exact hx.set (c := fun _ => ns) i list fun _ _ => hns

end Outline

/-! ## Taking back files -/

namespace FileSnapshot

open Outline SourceFile

/-- The outline that the listed entities are added to. -/
def start (s : FileSnapshot) (root : EntitySnapshot) : Outline :=
  (Outline.empty s.name root.span).modify 0 fun e => { e with doc := root.doc }

theorem shown_start (s : FileSnapshot) (root : EntitySnapshot) (i : Nat) :
    (s.start root).shown i = {} := by
  cases i <;> rfl

theorem bares_start (s : FileSnapshot) (root : EntitySnapshot) :
    (s.start root).bares =
      [{ detail := .scope .file {}, name := some s.name, span := root.span, doc := root.doc }] :=
  rfl

/-- What an accepted outline amounts to. -/
theorem outline?_eq_ok {s : FileSnapshot} {o : Outline} :
    s.outline? = .ok o ↔
      ∃ (root : EntitySnapshot) (others : List EntitySnapshot) (o₁ o₂ : Outline) (home : Nat)
        (namespaces externals : List Nat),
        s.inOrder = root :: others ∧ isContiguous 0 s.inOrder = true ∧ root.kind = .file ∧
        (s.start root).restoreEntities others = .ok o₁ ∧
        o₁.restoreAllLists s.inOrder = .ok o₂ ∧
        o₂.member? o₂.isNamespace s.defaultNamespace = .ok home ∧
        o₂.members? o₂.isNamespace s.namespaces = .ok namespaces ∧
        o₂.members? o₂.isExternal s.externals = .ok externals ∧
        o = { o₂ with home := some home, namespaces := namespaces, externals := externals } := by
  unfold outline?
  constructor
  · intro h
    by_cases hc : isContiguous 0 s.inOrder = true
    · simp only [hc, Bool.not_true, Bool.false_eq_true, ↓reduceIte] at h
      split at h
      · cases h
      · rename_i root others hs
        by_cases hk : root.kind = .file
        · simp only [hk, ne_eq, not_true_eq_false, ↓reduceIte] at h
          obtain ⟨o₁, h₁, h⟩ := bind_eq_ok.1 h
          obtain ⟨o₂, h₂, h⟩ := bind_eq_ok.1 h
          split at h
          · rename_i home hh
            obtain ⟨_, ⟨⟩, h⟩ := bind_eq_ok.1 h
            obtain ⟨namespaces, hn, h⟩ := bind_eq_ok.1 h
            obtain ⟨externals, he, ⟨⟩⟩ := bind_eq_ok.1 h
            exact ⟨root, others, o₁, o₂, home, namespaces, externals, hs, hc, hk, h₁, h₂, hh,
              hn, he, rfl⟩
          · cases h
        · simp only [hk, ne_eq, not_false_eq_true, ↓reduceIte] at h
          cases h
    · simp only [hc, Bool.not_false, ↓reduceIte] at h
      cases h
  · rintro ⟨root, others, o₁, o₂, home, namespaces, externals, hs, hc, hk, h₁, h₂, hh, hn, he, rfl⟩
    rw [hs] at hc h₂
    simp only [hs, hc, hk, Bool.not_true, Bool.false_eq_true, ne_eq, not_true_eq_false, ↓reduceIte]
    refine bind_eq_ok.2 ⟨o₁, h₁, ?_⟩
    refine bind_eq_ok.2 ⟨o₂, h₂, ?_⟩
    simp only [hh]
    exact bind_eq_ok.2 ⟨home, rfl, bind_eq_ok.2 ⟨namespaces, hn, bind_eq_ok.2 ⟨externals, he, rfl⟩⟩⟩

/-- What is known of a file before its directives are queued. -/
def unqueued (s : FileSnapshot) (o : Outline) : SourceFile :=
  { outline := o, contentHash := s.contentHash, mtime := s.mtime, size := s.size }

/-- The directives to queue, each with what it led to before. -/
def lookups (s : FileSnapshot) : List (Nat × Value) :=
  s.inOrder.map fun e => (e.id.toNat, e.payloadField "resolved")

theorem restore_eq_ok {s : FileSnapshot} {f : SourceFile} :
    s.restore = .ok f ↔
      ∃ o, s.outline? = .ok o ∧ f = ((s.unqueued o).enqueueEach s.lookups).close := by
  have heach : ∀ o, (s.unqueued o).enqueueEach s.lookups =
      s.inOrder.foldl (fun f e => f.enqueue e.id.toNat (e.payloadField "resolved"))
        (s.unqueued o) := by
    intro o
    rw [enqueueEach, lookups, List.foldl_map]
  unfold restore
  constructor
  · intro h
    obtain ⟨o, ho, ⟨⟩⟩ := bind_eq_ok.1 h
    exact ⟨o, ho, by rw [heach]; rfl⟩
  · rintro ⟨o, ho, rfl⟩
    refine bind_eq_ok.2 ⟨o, ho, ?_⟩
    rw [heach]
    rfl

/-- Entities that are listed by their numbers stand in order. -/
theorem inOrder_of_pairwise {s : FileSnapshot}
    (h : (s.entities.map (·.id)).Pairwise (· ≤ ·)) : s.inOrder = s.entities := by
  refine List.mergeSort_of_pairwise ?_
  simpa [List.pairwise_map] using h

/-- Entities without gaps are those whose numbers count on. -/
theorem isContiguous_iff {i : Nat} {es : List EntitySnapshot} :
    isContiguous i es = true ↔ es.map (·.id) = (List.range' i es.length).map Int.ofNat := by
  induction es generalizing i with
  | nil => simp [isContiguous]
  | cons e rest ih =>
    rw [isContiguous, Bool.and_eq_true, beq_iff_eq, ih, List.length_cons, List.range'_succ,
      List.map_cons, List.map_cons, List.cons_eq_cons]
    rfl

theorem id_of_isContiguous {i j : Nat} {es : List EntitySnapshot} {e : EntitySnapshot}
    (h : isContiguous i es = true) (he : es[j]? = some e) : e.id = ((i + j : Nat) : Int) := by
  obtain ⟨hlt, -⟩ := List.getElem?_eq_some_iff.1 he
  have hid := congrArg (·[j]?) (isContiguous_iff.1 h)
  simp only [List.getElem?_map, he, List.getElem?_range' hlt, Option.map_some, Nat.one_mul] at hid
  exact Option.some.inj hid

theorem pairwise_of_isContiguous {i : Nat} {es : List EntitySnapshot}
    (h : isContiguous i es = true) : (es.map (·.id)).Pairwise (· ≤ ·) := by
  rw [isContiguous_iff.1 h, List.pairwise_map]
  exact List.pairwise_le_range'.imp Int.ofNat_le.2

section Accepted

variable {s : FileSnapshot} {o : Outline} (h : s.outline? = .ok o)

include h

/-- The outline of an accepted snapshot is well-owned, its members are in range, and it states what
the snapshot lists. -/
theorem outline?_spec :
    WellOwned o ∧ InRange o ∧ ∃ root others, s.inOrder = root :: others ∧
      o.bares = (s.start root).bares ++ others.map EntitySnapshot.bare := by
  obtain ⟨root, others, o₁, o₂, home, namespaces, externals, hs, -, -, h₁, h₂, -, -, -, rfl⟩ :=
    outline?_eq_ok.1 h
  have hstart : WellOwned (s.start root) :=
    (wellOwned_empty s.name root.span).modify 0 fun _ => rfl
  obtain ⟨hw₁, hb₁, hshown⟩ := restoreEntities_spec hstart h₁
  have hr₁ : InRange o₁ := by
    intro i list m hm
    rw [hshown, shown_start] at hm
    cases list <;> cases hm
  obtain ⟨hw₂, hr₂, hb₂⟩ := restoreAllLists_spec h₂ hw₁ hr₁
  exact ⟨hw₂.congr rfl fun _ => rfl, inRange_of_eq hr₂ (Nat.le_refl _) fun _ => rfl, root, others,
    hs, hb₂.trans hb₁⟩

theorem size_outline? : o.size = s.inOrder.length := by
  obtain ⟨-, -, root, others, hs, hb⟩ := outline?_spec h
  have hlength := congrArg List.length hb
  rw [length_bares] at hlength
  rw [hlength, hs]
  simp [bares_start]

theorem root_outline? : ∃ e, o.get? 0 = some e ∧ e.name = some s.name := by
  obtain ⟨-, -, root, others, -, hb⟩ := outline?_spec h
  have hroot : (o.get? 0).map Entity.bare = (s.start root).bares[0]? := by
    rw [← getElem?_bares, hb]
    rfl
  obtain ⟨e, he, hbare⟩ := Option.map_eq_some_iff.1 hroot
  have hname : e.bare.name = some s.name := by
    rw [hbare]
    rfl
  exact ⟨e, he, hname⟩

theorem name_unqueued : (s.unqueued o).name = s.name := by
  obtain ⟨e, he, hname⟩ := root_outline? h
  rw [SourceFile.name, fileName, unqueued, he, Option.bind_some, hname]
  rfl

end Accepted

/-- A restored file is its outline up to links. -/
theorem upToLinks_restore {s : FileSnapshot} {f : SourceFile} (h : s.restore = .ok f) :
    ∃ o, s.outline? = .ok o ∧ UpToLinks (s.unqueued o) f := by
  obtain ⟨o, ho, rfl⟩ := restore_eq_ok.1 h
  exact ⟨o, ho, (upToLinks_enqueueEach _ _).trans (upToLinks_close _)⟩

theorem wellOwned_restore {s : FileSnapshot} {f : SourceFile} (h : s.restore = .ok f) :
    WellOwned f.outline := by
  obtain ⟨o, ho, hf⟩ := upToLinks_restore h
  exact hf.wellOwned (outline?_spec ho).1

theorem detached_restore {s : FileSnapshot} {f : SourceFile} (h : s.restore = .ok f) :
    f.detached = false := by
  obtain ⟨o, -, hf⟩ := upToLinks_restore h
  exact hf.detached

end FileSnapshot

end SymbolAtlas
