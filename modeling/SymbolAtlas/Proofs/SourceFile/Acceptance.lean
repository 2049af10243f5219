import Mathlib
import SymbolAtlas.Proofs.SourceFile.RoundTrip
import SymbolAtlas.Proofs.SourceFile.Views

/-!
# Which snapshots of files are taken back

A snapshot is taken back exactly if it is consistent (`FileSnapshot.restore_iff_isConsistent`):  its
entities are numbered without gaps, all numbers it mentions denote listed entities of the right
kind, and every entity but the file lies below an earlier scope.  Whether a step of the restoration
succeeds depends on nothing but the kinds of the entities that are there already (`Outline.kinds`),
so each step is matched with what it asks of the kinds that are listed.
-/

namespace SymbolAtlas

/-! ## Kinds -/

namespace Kind

/-- Whether it is a kind of scope. -/
def isScope : Kind → Bool
  | file | namespaceDecl | classDecl | functionDecl | block => true
  | _ => false

/-- Whether what a snapshot lists below a scope can be of this kind. -/
def isOwnable : Kind → Bool
  | namespaceDecl | classDecl | functionDecl | block | variableDecl | external => true
  | _ => false

/-- The number denotes an entry of a list of kinds, and the kind passes. -/
def Fits (kinds : List Kind) (id : Int) (passes : Kind → Bool) : Prop :=
  ∃ (n : Nat) (k : Kind), id = n ∧ kinds[n]? = some k ∧ passes k = true

theorem Fits.nonneg {kinds : List Kind} {id : Int} {passes : Kind → Bool}
    (h : Fits kinds id passes) : 0 ≤ id := by
  obtain ⟨n, -, rfl, -⟩ := h
  exact Int.natCast_nonneg n

/-- What comes later in the list does not matter to the numbers before it. -/
theorem fits_append_iff {kinds : List Kind} {id : Int} {passes : Kind → Bool} (more : List Kind)
    (h : id < kinds.length) : Fits (kinds ++ more) id passes ↔ Fits kinds id passes := by
  constructor
  · rintro ⟨n, k, rfl, hk, hpass⟩
    rw [List.getElem?_append_left (by omega)] at hk
    exact ⟨n, k, rfl, hk, hpass⟩
  · rintro ⟨n, k, rfl, hk, hpass⟩
    refine ⟨n, k, rfl, ?_, hpass⟩
    rw [List.getElem?_append_left (by omega), hk]

theorem fits_natCast_iff {kinds : List Kind} {n : Nat} {passes : Kind → Bool} :
    Fits kinds n passes ↔ kinds[n]?.any passes = true := by
  rw [Option.any_eq_true]
  constructor
  · rintro ⟨m, k, hm, hk, hpass⟩
    cases Int.ofNat.inj hm
    exact ⟨k, hk, hpass⟩
  · rintro ⟨k, hk, hpass⟩
    exact ⟨n, k, rfl, hk, hpass⟩

end Kind

open Kind

namespace EntitySnapshot

theorem isSome_detail? (e : EntitySnapshot) : e.detail?.isSome = e.kind.isOwnable := by
  unfold detail?
  cases e.kind <;> rfl

theorem kind_restored {e : EntitySnapshot} {detail : Detail} (h : e.detail? = some detail) :
    (e.restored detail).kind = e.kind := by
  unfold detail? at h
  split at h <;> cases h <;> exact Eq.symm ‹_›

/-- The entity can be owned, and its owner is a scope with a smaller number. -/
def Owned (kinds : List Kind) (e : EntitySnapshot) : Prop :=
  e.kind.isOwnable = true ∧
    ∃ p, e.parent = some p ∧ p < e.id ∧ Fits kinds p Kind.isScope

/-- Only scopes have lists, each under one of the names, and members are listed themselves. -/
def Lists (kinds : List Kind) (id : Int) (lists : Ledger (List Int)) : Prop :=
  ∀ entry ∈ lists, Fits kinds id Kind.isScope ∧ (∃ list : MemberList, list.name = entry.1) ∧
    ∀ member ∈ entry.2, Fits kinds member fun _ => true

end EntitySnapshot

open EntitySnapshot

@[simp] theorem Entity.kind_bare (e : Entity) : e.bare.kind = e.kind := by
  obtain ⟨detail, name, parent, span, doc⟩ := e
  cases detail <;> rfl

theorem Entity.isScope_eq_kind (e : Entity) : e.isScope = e.kind.isScope := by
  obtain ⟨detail, name, parent, span, doc⟩ := e
  cases detail with
  | scope k b => cases k <;> rfl
  | «variable» => rfl
  | external inc => rfl

namespace Outline

/-! ## Kinds of the entities that are there -/

/-- The kinds of the entities, by number. -/
def kinds (o : Outline) : List Kind :=
  o.bares.map Entity.kind

@[simp] theorem length_kinds (o : Outline) : o.kinds.length = o.size := by
  rw [kinds, List.length_map, length_bares]

theorem getElem?_kinds (o : Outline) (i : Nat) : o.kinds[i]? = (o.get? i).map Entity.kind := by
  rw [kinds, List.getElem?_map, getElem?_bares, Option.map_map]
  exact Option.map_congr fun e _ => e.kind_bare

theorem kinds_add {o : Outline} (hl : o.linked = true) (p : Nat) (e : Entity) :
    (o.add p e).1.kinds = o.kinds ++ [e.kind] := by
  have hkind : Entity.kind { e.bare with parent := some p } = e.kind := e.kind_bare
  rw [kinds, bares_add hl, List.map_append, List.map_singleton, hkind, ← kinds]

theorem isSome_scopeKind?_iff {o : Outline} {p : Nat} :
    (o.scopeKind? p).isSome ↔ Fits o.kinds p Kind.isScope := by
  rw [fits_natCast_iff, getElem?_kinds, scopeKind?]
  cases o.get? p with
  | none => simp
  | some e => simp [← Entity.isScope_eq_kind, Entity.isScope_eq]

/-- A number that may be out of range denotes a member of a kind. -/
theorem exists_member?_iff {o : Outline} {fits : Nat → Bool} {passes : Kind → Bool}
    (hfits : ∀ n e, o.get? n = some e → fits n = passes e.kind) {id : Int} :
    (∃ n, o.member? fits id = .ok n) ↔ Fits o.kinds id passes := by
  constructor
  · rintro ⟨n, hn⟩
    obtain ⟨rfl, hlt, hpass⟩ := member?_eq_ok.1 hn
    obtain ⟨e, he⟩ := Option.isSome_iff_exists.1 (get?_isSome_iff.2 hlt)
    exact ⟨n, e.kind, rfl, by rw [getElem?_kinds, he, Option.map_some], hfits n e he ▸ hpass⟩
  · rintro ⟨n, k, rfl, hk, hpass⟩
    rw [getElem?_kinds] at hk
    obtain ⟨e, he, rfl⟩ := Option.map_eq_some_iff.1 hk
    have hlt : n < o.size := get?_isSome_iff.1 (by rw [he]; rfl)
    exact ⟨n, member?_eq_ok.2 ⟨rfl, hlt, (hfits n e he).trans hpass⟩⟩

theorem exists_members?_iff {o : Outline} {fits : Nat → Bool} {passes : Kind → Bool}
    (hfits : ∀ n e, o.get? n = some e → fits n = passes e.kind) {ids : List Int} :
    (∃ ns, o.members? fits ids = .ok ns) ↔ ∀ id ∈ ids, Fits o.kinds id passes := by
  induction ids with
  | nil => simp [members?]
  | cons id rest ih =>
    rw [List.forall_mem_cons, ← ih, ← exists_member?_iff hfits]
    simp only [members?_cons_eq_ok]
    constructor
    · rintro ⟨_, n, ms, hn, hms, rfl⟩
      exact ⟨⟨n, hn⟩, ms, hms⟩
    · rintro ⟨⟨n, hn⟩, ms, hms⟩
      exact ⟨n :: ms, n, ms, hn, hms, rfl⟩

/-! ## Taking back entities -/

theorem exists_restoreEntity_iff {o : Outline} {e : EntitySnapshot} :
    (∃ o', o.restoreEntity e = .ok o') ↔ e.Owned o.kinds := by
  constructor
  · rintro ⟨o', ho'⟩
    obtain ⟨p, detail, hp, hscope, hlt, hdetail, -⟩ := restoreEntity_eq_ok.1 ho'
    refine ⟨?_, p, hp, hlt, isSome_scopeKind?_iff.1 hscope⟩
    rw [← isSome_detail?, hdetail]
    rfl
  · rintro ⟨hownable, p, hp, hlt, hfits⟩
    rw [← isSome_detail?] at hownable
    obtain ⟨detail, hdetail⟩ := Option.isSome_iff_exists.1 hownable
    obtain ⟨n, k, rfl, hk⟩ := hfits
    exact ⟨_, restoreEntity_eq_ok.2
      ⟨n, detail, hp, isSome_scopeKind?_iff.2 ⟨n, k, rfl, hk⟩, hlt, hdetail, rfl⟩⟩

theorem kinds_restoreEntity {o o' : Outline} (hl : o.linked = true) {e : EntitySnapshot}
    (h : o.restoreEntity e = .ok o') : o'.linked = true ∧ o'.kinds = o.kinds ++ [e.kind] := by
  obtain ⟨p, detail, -, -, -, hdetail, rfl⟩ := restoreEntity_eq_ok.1 h
  rw [kinds_add hl, kind_restored hdetail]
  exact ⟨linked_add hl p _, rfl⟩

theorem kinds_restoreEntities {o o' : Outline} (hl : o.linked = true) {es : List EntitySnapshot}
    (h : o.restoreEntities es = .ok o') : o'.kinds = o.kinds ++ es.map EntitySnapshot.kind := by
  induction es generalizing o with
  | nil =>
    cases h
    rw [List.map_nil, List.append_nil]
  | cons e rest ih =>
    obtain ⟨o₁, ho₁, hrest⟩ := restoreEntities_cons_eq_ok.1 h
    obtain ⟨hl₁, hkinds₁⟩ := kinds_restoreEntity hl ho₁
    rw [ih hl₁ hrest, hkinds₁, List.map_cons, List.append_assoc, List.singleton_append]

/-- Entities that are numbered on from those that are there can be taken back if each of them is
owned by an earlier scope, among all of them. -/
theorem exists_restoreEntities_iff {o : Outline} (hl : o.linked = true) {es : List EntitySnapshot}
    (hids : FileSnapshot.isContiguous o.size es = true) :
    (∃ o', o.restoreEntities es = .ok o') ↔
      ∀ e ∈ es, e.Owned (o.kinds ++ es.map EntitySnapshot.kind) := by
  induction es generalizing o with
  | nil => simp [restoreEntities]
  | cons e rest ih =>
    rw [FileSnapshot.isContiguous, Bool.and_eq_true, beq_iff_eq] at hids
    obtain ⟨hid, hrest⟩ := hids
    have hhere : e.Owned (o.kinds ++ (e :: rest).map EntitySnapshot.kind) ↔ e.Owned o.kinds := by
      refine and_congr_right fun _ => exists_congr fun p => and_congr_right fun _ =>
        and_congr_right fun hlt => fits_append_iff _ ?_
      rwa [length_kinds, ← hid]
    have hlater : ∀ {o₁ : Outline}, o.restoreEntity e = .ok o₁ →
        ((∃ o', o₁.restoreEntities rest = .ok o') ↔
          ∀ x ∈ rest, x.Owned (o.kinds ++ (e :: rest).map EntitySnapshot.kind)) := by
      intro o₁ ho₁
      obtain ⟨hl₁, hkinds₁⟩ := kinds_restoreEntity hl ho₁
      have hsize : o₁.size = o.size + 1 := by
        rw [← length_kinds, hkinds₁, List.length_append, length_kinds, List.length_singleton]
      rw [ih hl₁ (hsize ▸ hrest), hkinds₁, List.map_cons, List.append_assoc,
        List.singleton_append]
    rw [List.forall_mem_cons, hhere, ← exists_restoreEntity_iff]
    simp only [restoreEntities_cons_eq_ok]
    constructor
    · rintro ⟨o', o₁, ho₁, hlast⟩
      exact ⟨⟨o₁, ho₁⟩, (hlater ho₁).1 ⟨o', hlast⟩⟩
    · rintro ⟨⟨o₁, ho₁⟩, howned⟩
      obtain ⟨o', hlast⟩ := (hlater ho₁).2 howned
      exact ⟨o', o₁, ho₁, hlast⟩

/-! ## Taking back lists -/

theorem exists_ofName?_iff {name : String} :
    (∃ list, MemberList.ofName? name = some list) ↔ ∃ list : MemberList, list.name = name := by
  constructor
  · rintro ⟨list, hlist⟩
    exact ⟨list, by simpa using List.find?_some hlist⟩
  · rintro ⟨list, rfl⟩
    exact ⟨list, MemberList.ofName?_name list⟩

theorem find?_isScope_iff_fits {o : Outline} {id : Int} :
    ((o.find? id).map Entity.isScope).getD false = true ↔ Fits o.kinds id Kind.isScope := by
  rw [find?_isScope_iff]
  constructor
  · rintro ⟨hnonneg, hscope⟩
    have hcast : ((id.toNat : Nat) : Int) = id := Int.toNat_of_nonneg hnonneg
    exact hcast ▸ isSome_scopeKind?_iff.1 hscope
  · rintro ⟨n, k, rfl, hk⟩
    exact ⟨Int.natCast_nonneg n, isSome_scopeKind?_iff.2 ⟨n, k, rfl, hk⟩⟩

theorem kinds_setMembers (o : Outline) (i : Nat) (list : MemberList) (ns : List Nat) :
    (o.setMembers i list ns).kinds = o.kinds := by
  rw [kinds, bares_setMembers, ← kinds]

/-- The lists of an entity can be taken back if it is a scope that has them and their members exist.
-/
theorem exists_restoreLists_iff {o : Outline} {id : Int} {lists : Ledger (List Int)} :
    (∃ o', o.restoreLists id lists = .ok o') ↔ EntitySnapshot.Lists o.kinds id lists := by
  induction lists generalizing o with
  | nil => simp [restoreLists, EntitySnapshot.Lists]
  | cons entry rest ih =>
    obtain ⟨name, ids⟩ := entry
    have hmembers : (∃ ns, o.members? (fun _ => true) ids = .ok ns) ↔
        ∀ id ∈ ids, Fits o.kinds id fun _ => true := exists_members?_iff fun _ _ _ => rfl
    have hlater : ∀ list ns, (∃ o', (o.setMembers id.toNat list ns).restoreLists id rest = .ok o') ↔
        EntitySnapshot.Lists o.kinds id rest := by
      intro list ns
      rw [ih, kinds_setMembers]
    rw [EntitySnapshot.Lists, List.forall_mem_cons, ← EntitySnapshot.Lists,
      ← find?_isScope_iff_fits, ← exists_ofName?_iff, ← hmembers]
    simp only [restoreLists_cons_eq_ok]
    constructor
    · rintro ⟨o', list, ns, hscope, hlist, hns, hlast⟩
      exact ⟨⟨hscope, ⟨list, hlist⟩, ns, hns⟩, (hlater list ns).1 ⟨o', hlast⟩⟩
    · rintro ⟨⟨hscope, ⟨list, hlist⟩, ns, hns⟩, hrest⟩
      obtain ⟨o', hlast⟩ := (hlater list ns).2 hrest
      exact ⟨o', list, ns, hscope, hlist, hns, hlast⟩

theorem kinds_restoreLists {o o' : Outline} {id : Int} {lists : Ledger (List Int)}
    (h : o.restoreLists id lists = .ok o') : o'.kinds = o.kinds := by
  rw [kinds, bares_restoreLists h, ← kinds]

theorem exists_restoreAllLists_iff {o : Outline} {es : List EntitySnapshot} :
    (∃ o', o.restoreAllLists es = .ok o') ↔
      ∀ e ∈ es, EntitySnapshot.Lists o.kinds e.id e.lists := by
  induction es generalizing o with
  | nil => simp [restoreAllLists]
  | cons e rest ih =>
    have hlater : ∀ {o₁ : Outline}, o.restoreLists e.id e.lists = .ok o₁ →
        ((∃ o', o₁.restoreAllLists rest = .ok o') ↔
          ∀ x ∈ rest, EntitySnapshot.Lists o.kinds x.id x.lists) := by
      intro o₁ ho₁
      rw [ih, kinds_restoreLists ho₁]
    rw [List.forall_mem_cons, ← exists_restoreLists_iff]
    simp only [restoreAllLists_cons_eq_ok]
    constructor
    · rintro ⟨o', o₁, ho₁, hlast⟩
      exact ⟨⟨o₁, ho₁⟩, (hlater ho₁).1 ⟨o', hlast⟩⟩
    · rintro ⟨⟨o₁, ho₁⟩, hrest⟩
      obtain ⟨o', hlast⟩ := (hlater ho₁).2 hrest
      exact ⟨o', o₁, ho₁, hlast⟩

theorem kinds_restoreAllLists {o o' : Outline} {es : List EntitySnapshot}
    (h : o.restoreAllLists es = .ok o') : o'.kinds = o.kinds :=
  restoreAllLists_keeps (P := fun x => x.kinds = o.kinds)
    (fun x i list ns _ hx => (kinds_setMembers x i list ns).trans hx) h rfl

end Outline

/-! ## Consistent snapshots -/

namespace FileSnapshot

open Outline

/-- An entity with the number is listed, and its kind passes. -/
def Denotes (s : FileSnapshot) (id : Int) (passes : Kind → Bool) : Prop :=
  ∃ e ∈ s.entities, e.id = id ∧ passes e.kind = true

/-- What the snapshot says of its entities fits together. -/
structure IsConsistent (s : FileSnapshot) : Prop where
  /-- The entities are numbered from zero without gaps, in whatever order they are listed. -/
  numbered : (s.entities.map (·.id)).Perm ((List.range s.entities.length).map Int.ofNat)
  nonempty : 0 < s.entities.length
  file : ∀ e ∈ s.entities, e.id = 0 → e.kind = .file
  /-- Every other entity is of a kind that can be owned, and its owner is an earlier scope. -/
  owned : ∀ e ∈ s.entities, 0 < e.id → e.kind.isOwnable = true ∧
    ∃ p, e.parent = some p ∧ 0 ≤ p ∧ p < e.id ∧ s.Denotes p Kind.isScope
  /-- Only scopes have lists, each under one of the names, and members are listed themselves. -/
  lists : ∀ e ∈ s.entities, ∀ entry ∈ e.lists, e.kind.isScope = true ∧
    (∃ list : MemberList, list.name = entry.1) ∧
      ∀ member ∈ entry.2, 0 ≤ member ∧ member < s.entities.length
  home : s.Denotes s.defaultNamespace (· = .namespaceDecl)
  namespaces : ∀ id ∈ s.namespaces, s.Denotes id (· = .namespaceDecl)
  externals : ∀ id ∈ s.externals, s.Denotes id (· = .external)

theorem inOrder_perm (s : FileSnapshot) : s.inOrder.Perm s.entities :=
  List.mergeSort_perm s.entities _

theorem pairwise_inOrder (s : FileSnapshot) : s.inOrder.Pairwise fun a b => a.id ≤ b.id := by
  have h : s.inOrder.Pairwise fun a b => decide (a.id ≤ b.id) = true := by
    refine List.pairwise_mergeSort ?_ ?_ s.entities
    · intro a b c
      simp only [decide_eq_true_eq]
      exact le_trans
    · intro a b
      simp only [Bool.or_eq_true, decide_eq_true_eq]
      exact le_total _ _
  exact h.imp of_decide_eq_true

/-- The entities are without gaps in order exactly if they are numbered without gaps. -/
theorem isContiguous_inOrder_iff (s : FileSnapshot) : isContiguous 0 s.inOrder = true ↔
    (s.entities.map (·.id)).Perm ((List.range s.entities.length).map Int.ofNat) := by
  rw [isContiguous_iff, s.inOrder_perm.length_eq, ← List.range_eq_range']
  constructor
  · intro h
    rw [← h]
    exact (s.inOrder_perm.map _).symm
  · intro h
    have hlisted : (s.inOrder.map (·.id)).Pairwise (· ≤ ·) :=
      List.pairwise_map.2 s.pairwise_inOrder
    have hcounted : ((List.range s.entities.length).map Int.ofNat).Pairwise (· ≤ ·) :=
      List.pairwise_map.2 (List.pairwise_le_range.imp Int.ofNat_le.2)
    exact ((s.inOrder_perm.map _).trans h).eq_of_pairwise
      (fun a b _ _ hab hba => le_antisymm hab hba) hlisted hcounted

/-- The kinds of the entities in order. -/
def listedKinds (s : FileSnapshot) : List Kind :=
  s.inOrder.map EntitySnapshot.kind

theorem kinds_start (s : FileSnapshot) (root : EntitySnapshot) :
    (s.start root).kinds = [.file] := by
  rw [kinds, bares_start]
  rfl

theorem isNamespace_eq {o : Outline} {n : Nat} {e : Entity} (he : o.get? n = some e) :
    o.isNamespace n = decide (e.kind = .namespaceDecl) :=
  Bool.eq_iff_iff.2 ((isNamespace_iff he).trans decide_eq_true_iff.symm)

theorem isExternal_eq {o : Outline} {n : Nat} {e : Entity} (he : o.get? n = some e) :
    o.isExternal n = decide (e.kind = .external) :=
  Bool.eq_iff_iff.2 ((isExternal_iff he).trans decide_eq_true_iff.symm)

/-- What the steps of the restoration ask of the entities in order. -/
theorem exists_outline?_iff (s : FileSnapshot) :
    (∃ o, s.outline? = .ok o) ↔ isContiguous 0 s.inOrder = true ∧
      ∃ root others, s.inOrder = root :: others ∧ root.kind = .file ∧
        (∀ e ∈ others, e.Owned s.listedKinds) ∧
        (∀ e ∈ s.inOrder, EntitySnapshot.Lists s.listedKinds e.id e.lists) ∧
        Fits s.listedKinds s.defaultNamespace (· = .namespaceDecl) ∧
        (∀ id ∈ s.namespaces, Fits s.listedKinds id (· = .namespaceDecl)) ∧
        ∀ id ∈ s.externals, Fits s.listedKinds id (· = .external) := by
  have hentities : ∀ {root others}, s.inOrder = root :: others → isContiguous 0 s.inOrder = true →
      root.kind = .file → (s.start root).linked = true ∧
        isContiguous (s.start root).size others = true ∧
        (s.start root).kinds ++ others.map EntitySnapshot.kind = s.listedKinds := by
    intro root others hs hcontiguous hfile
    rw [hs, isContiguous, Bool.and_eq_true] at hcontiguous
    refine ⟨rfl, hcontiguous.2, ?_⟩
    rw [kinds_start, listedKinds, hs, List.map_cons, hfile, List.singleton_append]
  constructor
  · rintro ⟨o, ho⟩
    obtain ⟨root, others, o₁, o₂, home, namespaces, externals, hs, hcontiguous, hfile, h₁, h₂,
      hhome, hnamespaces, hexternals, -⟩ := outline?_eq_ok.1 ho
    obtain ⟨hl, hids, hkinds⟩ := hentities hs hcontiguous hfile
    have hkinds₁ : o₁.kinds = s.listedKinds := (kinds_restoreEntities hl h₁).trans hkinds
    have hkinds₂ : o₂.kinds = s.listedKinds := (kinds_restoreAllLists h₂).trans hkinds₁
    refine ⟨hcontiguous, root, others, hs, hfile, ?_, ?_, ?_, ?_, ?_⟩
    · exact hkinds ▸ (exists_restoreEntities_iff hl hids).1 ⟨o₁, h₁⟩
    · exact hkinds₁ ▸ exists_restoreAllLists_iff.1 ⟨o₂, h₂⟩
    · exact hkinds₂ ▸ (exists_member?_iff fun _ _ => isNamespace_eq).1 ⟨home, hhome⟩
    · exact hkinds₂ ▸ (exists_members?_iff fun _ _ => isNamespace_eq).1 ⟨namespaces, hnamespaces⟩
    · exact hkinds₂ ▸ (exists_members?_iff fun _ _ => isExternal_eq).1 ⟨externals, hexternals⟩
  · rintro ⟨hcontiguous, root, others, hs, hfile, howned, hlists, hhome, hnamespaces, hexternals⟩
    obtain ⟨hl, hids, hkinds⟩ := hentities hs hcontiguous hfile
    obtain ⟨o₁, h₁⟩ := (exists_restoreEntities_iff hl hids).2 (hkinds ▸ howned)
    have hkinds₁ : o₁.kinds = s.listedKinds := (kinds_restoreEntities hl h₁).trans hkinds
    obtain ⟨o₂, h₂⟩ := exists_restoreAllLists_iff.2 (hkinds₁ ▸ hlists)
    have hkinds₂ : o₂.kinds = s.listedKinds := (kinds_restoreAllLists h₂).trans hkinds₁
    obtain ⟨home, hhome⟩ :=
      (exists_member?_iff (o := o₂) fun _ _ => isNamespace_eq).2 (hkinds₂ ▸ hhome)
    obtain ⟨namespaces, hnamespaces⟩ :=
      (exists_members?_iff (o := o₂) fun _ _ => isNamespace_eq).2 (hkinds₂ ▸ hnamespaces)
    obtain ⟨externals, hexternals⟩ :=
      (exists_members?_iff (o := o₂) fun _ _ => isExternal_eq).2 (hkinds₂ ▸ hexternals)
    exact ⟨_, outline?_eq_ok.2 ⟨root, others, o₁, o₂, home, namespaces, externals, hs, hcontiguous,
      hfile, h₁, h₂, hhome, hnamespaces, hexternals, rfl⟩⟩

section Numbered

variable {s : FileSnapshot} (h : isContiguous 0 s.inOrder = true)

include h

theorem getElem?_inOrder {e : EntitySnapshot} (he : e ∈ s.entities) :
    ∃ n : Nat, e.id = n ∧ s.inOrder[n]? = some e := by
  obtain ⟨n, hn⟩ := List.mem_iff_getElem?.1 (s.inOrder_perm.mem_iff.2 he)
  exact ⟨n, by rw [id_of_isContiguous h hn, Nat.zero_add], hn⟩

/-- In order, the number of an entity is its place. -/
theorem denotes_iff {id : Int} {passes : Kind → Bool} :
    s.Denotes id passes ↔ Fits s.listedKinds id passes := by
  constructor
  · rintro ⟨e, he, rfl, hpass⟩
    obtain ⟨n, hid, hn⟩ := getElem?_inOrder h he
    exact ⟨n, e.kind, hid, by rw [listedKinds, List.getElem?_map, hn, Option.map_some], hpass⟩
  · rintro ⟨n, k, rfl, hk, hpass⟩
    rw [listedKinds, List.getElem?_map] at hk
    obtain ⟨e, he, rfl⟩ := Option.map_eq_some_iff.1 hk
    refine ⟨e, s.inOrder_perm.mem_iff.1 (List.mem_of_getElem? he), ?_, hpass⟩
    rw [id_of_isContiguous h he, Nat.zero_add]

theorem fits_id_iff {e : EntitySnapshot} (he : e ∈ s.entities) {passes : Kind → Bool} :
    Fits s.listedKinds e.id passes ↔ passes e.kind = true := by
  obtain ⟨n, hid, hn⟩ := getElem?_inOrder h he
  rw [hid, fits_natCast_iff, listedKinds, List.getElem?_map, hn]
  rfl

theorem eq_of_id_eq {a b : EntitySnapshot} (ha : a ∈ s.entities) (hb : b ∈ s.entities)
    (hid : a.id = b.id) : a = b := by
  obtain ⟨m, hm, hma⟩ := getElem?_inOrder h ha
  obtain ⟨n, hn, hnb⟩ := getElem?_inOrder h hb
  obtain rfl : m = n := by omega
  exact Option.some.inj (hma.symm.trans hnb)

end Numbered

theorem fits_any_iff {s : FileSnapshot} {id : Int} :
    Fits s.listedKinds id (fun _ => true) ↔ 0 ≤ id ∧ id < s.entities.length := by
  have hlength : s.listedKinds.length = s.entities.length := by
    rw [listedKinds, List.length_map, s.inOrder_perm.length_eq]
  constructor
  · rintro ⟨n, k, rfl, hk, -⟩
    obtain ⟨hlt, -⟩ := List.getElem?_eq_some_iff.1 hk
    omega
  · rintro ⟨hnonneg, hlt⟩
    obtain ⟨n, rfl⟩ := Int.eq_ofNat_of_zero_le hnonneg
    have hn : n < s.listedKinds.length := by omega
    exact ⟨n, _, rfl, List.getElem?_eq_getElem hn, rfl⟩

/-- The first entity in order has the number zero, the others have greater numbers. -/
theorem id_of_inOrder {s : FileSnapshot} (h : isContiguous 0 s.inOrder = true)
    {root : EntitySnapshot} {others : List EntitySnapshot} (hs : s.inOrder = root :: others) :
    root.id = 0 ∧ ∀ e ∈ others, 0 < e.id := by
  rw [hs] at h
  constructor
  · exact id_of_isContiguous (j := 0) h rfl
  · intro e he
    obtain ⟨j, hj⟩ := List.mem_iff_getElem?.1 he
    have hid := id_of_isContiguous (j := j + 1) h hj
    omega

theorem isConsistent_of_outline? {s : FileSnapshot} {o : Outline} (ho : s.outline? = .ok o) :
    s.IsConsistent := by
  obtain ⟨hcontiguous, root, others, hs, hfile, howned, hlists, hhome, hnamespaces, hexternals⟩ :=
    s.exists_outline?_iff.1 ⟨o, ho⟩
  obtain ⟨hroot, -⟩ := id_of_inOrder hcontiguous hs
  have hmem : ∀ {e}, e ∈ s.entities ↔ e = root ∨ e ∈ others := by
    intro e
    rw [← s.inOrder_perm.mem_iff, hs, List.mem_cons]
  exact {
    numbered := s.isContiguous_inOrder_iff.1 hcontiguous
    nonempty := List.length_pos_of_mem (hmem.2 (.inl rfl))
    file := by
      intro e he hid
      rw [eq_of_id_eq hcontiguous he (hmem.2 (.inl rfl)) (hid.trans hroot.symm), hfile]
    owned := by
      intro e he hpos
      rcases hmem.1 he with rfl | hother
      · omega
      · obtain ⟨hownable, p, hp, hlt, hfits⟩ := howned e hother
        exact ⟨hownable, p, hp, hfits.nonneg, hlt, (denotes_iff hcontiguous).2 hfits⟩
    lists := by
      intro e he entry hentry
      obtain ⟨hscope, hname, hmembers⟩ := hlists e (s.inOrder_perm.mem_iff.2 he) entry hentry
      exact ⟨(fits_id_iff hcontiguous he).1 hscope, hname,
        fun member hmember => fits_any_iff.1 (hmembers member hmember)⟩
    home := (denotes_iff hcontiguous).2 hhome
    namespaces := fun id hid => (denotes_iff hcontiguous).2 (hnamespaces id hid)
    externals := fun id hid => (denotes_iff hcontiguous).2 (hexternals id hid) }

theorem IsConsistent.exists_outline? {s : FileSnapshot} (h : s.IsConsistent) :
    ∃ o, s.outline? = .ok o := by
  have hcontiguous : isContiguous 0 s.inOrder = true := s.isContiguous_inOrder_iff.2 h.numbered
  match hs : s.inOrder with
  | [] =>
    have hlength := s.inOrder_perm.length_eq
    have hpos := h.nonempty
    rw [hs, List.length_nil] at hlength
    omega
  | root :: others =>
    obtain ⟨hroot, hothers⟩ := id_of_inOrder hcontiguous hs
    have hmem : ∀ {e}, e ∈ root :: others → e ∈ s.entities := fun he =>
      s.inOrder_perm.mem_iff.1 (hs ▸ he)
    refine s.exists_outline?_iff.2 ⟨hcontiguous, root, others, hs, ?_, ?_, ?_, ?_, ?_, ?_⟩
    · exact h.file root (hmem (.head _)) hroot
    · intro e he
      obtain ⟨hownable, p, hp, -, hlt, hdenotes⟩ := h.owned e (hmem (.tail _ he)) (hothers e he)
      exact ⟨hownable, p, hp, hlt, (denotes_iff hcontiguous).1 hdenotes⟩
    · intro e he entry hentry
      have hlisted := s.inOrder_perm.mem_iff.1 he
      obtain ⟨hscope, hname, hmembers⟩ := h.lists e hlisted entry hentry
      exact ⟨(fits_id_iff hcontiguous hlisted).2 hscope, hname,
        fun member hmember => fits_any_iff.2 (hmembers member hmember)⟩
    · exact (denotes_iff hcontiguous).1 h.home
    · exact fun id hid => (denotes_iff hcontiguous).1 (h.namespaces id hid)
    · exact fun id hid => (denotes_iff hcontiguous).1 (h.externals id hid)

theorem exists_restore_iff {s : FileSnapshot} : (∃ f, s.restore = .ok f) ↔ s.IsConsistent := by
  constructor
  · rintro ⟨f, hf⟩
    obtain ⟨o, ho, -⟩ := restore_eq_ok.1 hf
    exact isConsistent_of_outline? ho
  · intro h
    obtain ⟨o, ho⟩ := h.exists_outline?
    exact ⟨_, restore_eq_ok.2 ⟨o, ho, rfl⟩⟩

/-! ## Listings in another order -/

theorem restore_of_gaps {s : FileSnapshot} (h : isContiguous 0 s.inOrder = false) :
    s.restore = .error .gaps := by
  unfold restore outline?
  simp only [h]
  rfl

theorem restore_perm {s : FileSnapshot} {entities : List EntitySnapshot}
    (hperm : entities.Perm s.entities) :
    ({ s with entities } : FileSnapshot).restore = s.restore := by
  have hsame : isContiguous 0 ({ s with entities } : FileSnapshot).inOrder =
      isContiguous 0 s.inOrder := by
    rw [Bool.eq_iff_iff, isContiguous_inOrder_iff, isContiguous_inOrder_iff, hperm.length_eq]
    exact (hperm.map _).congr_left _
  cases hcontiguous : isContiguous 0 s.inOrder with
  | false => rw [restore_of_gaps hcontiguous, restore_of_gaps (hsame.trans hcontiguous)]
  | true =>
    have hlisting : ({ s with entities } : FileSnapshot).inOrder.Perm s.inOrder :=
      (inOrder_perm _).trans (hperm.trans s.inOrder_perm.symm)
    have horder : ({ s with entities } : FileSnapshot).inOrder = s.inOrder := by
      refine hlisting.eq_of_pairwise ?_ (pairwise_inOrder _) s.pairwise_inOrder
      intro a b ha hb hab hba
      exact eq_of_id_eq hcontiguous (hperm.mem_iff.1 ((inOrder_perm _).mem_iff.1 ha))
        (s.inOrder_perm.mem_iff.1 hb) (le_antisymm hab hba)
    simp only [restore, outline?, horder]

end FileSnapshot

end SymbolAtlas
