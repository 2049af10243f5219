import Mathlib
import SymbolAtlas.SourceFile.Export
import SymbolAtlas.Proofs.Outline.Alike
import SymbolAtlas.Proofs.SourceFile.Sound

/-!
# Files written down and taken back

The snapshot of a sound file is accepted, and the file that is taken back reads like the first one
(`SourceFile.restore_snapshot`).  Entities are added in the order of their numbers, so what comes
next to be added finds its owner among those that are there; every member list starts out empty and
is set once.  The directives of the new file are queued with the names that the old ones led to.
-/

namespace SymbolAtlas

namespace Members

theorem ext_get {m m' : Members} (h : ∀ list, m.get list = m'.get list) : m = m' := by
  obtain ⟨vars, defines, functions, classes, interfaces, traits, blocks⟩ := m
  obtain ⟨vars', defines', functions', classes', interfaces', traits', blocks'⟩ := m'
  have h₁ : vars = vars' := h .vars
  have h₂ : defines = defines' := h .defines
  have h₃ : functions = functions' := h .functions
  have h₄ : classes = classes' := h .classes
  have h₅ : interfaces = interfaces' := h .interfaces
  have h₆ : traits = traits' := h .traits
  have h₇ : blocks = blocks' := h .blocks
  rw [h₁, h₂, h₃, h₄, h₅, h₆, h₇]

/-- Some of the lists as they are written, those without members left out. -/
def writtenAmong (m : Members) (lists : List MemberList) : Ledger (List Int) :=
  (lists.map fun l => (l.name, (m.get l).map Int.ofNat)).filter fun entry => entry.2 ≠ []

end Members

/-! ## What the snapshot of an entity states -/

/-- The name of the file that a link leads to. -/
def Link.target? (nameOf : Nat → Option String) : Link → Option String
  | .file n => nameOf n
  | _ => none

namespace Entity

/-- A namespace has a name, which is canonical. -/
def IsCanonical (e : Entity) : Prop :=
  e.kind = .namespaceDecl → ∃ n, e.name = some n ∧ Qualified.canonical n = n

variable (e : Entity) (id : Nat) (nameOf : Nat → Option String)

theorem detail?_snapshot (hfile : e.scopeKind? ≠ some .file) :
    (e.snapshot id nameOf).detail? = some e.plain.detail := by
  obtain ⟨detail, name, parent, span, doc⟩ := e
  cases detail with
  | scope k b =>
    cases k with
    | file => exact absurd rfl hfile
    | _ => rfl
  | «variable» => rfl
  | external i => rfl

theorem inclusion?_plain : e.plain.inclusion? = e.inclusion?.map Inclusion.bare := by
  obtain ⟨detail, name, parent, span, doc⟩ := e
  cases detail <;> rfl

theorem payload_of_inclusion? {inc : Inclusion} (h : e.inclusion? = some inc) :
    e.payload nameOf =
      [("target", inc.target), ("once", .bool inc.once), ("require", .bool inc.require),
        ("resolved", Value.ofText? (inc.link.target? nameOf))] := by
  obtain ⟨detail, name, parent, span, doc⟩ := e
  cases detail with
  | external i =>
    cases h
    cases hlink : inc.link <;> simp only [payload, hlink, Link.target?, Value.ofText?]
  | _ => cases h

theorem kind_of_scopeKind? {k : ScopeKind} (h : e.scopeKind? = some k) : e.kind = k.kind := by
  obtain ⟨detail, name, parent, span, doc⟩ := e
  cases detail with
  | scope k' b =>
    cases h
    rfl
  | _ => cases h

theorem restoredName_snapshot (hname : e.IsCanonical) :
    (e.snapshot id nameOf).restoredName = e.name := by
  unfold EntitySnapshot.restoredName
  split
  · rename_i hkind
    obtain ⟨n, hn, hcanonical⟩ := hname hkind
    have hwritten : (e.snapshot id nameOf).name = some n := hn
    rw [hwritten, Option.getD_some, hcanonical, hn]
  · rfl

/-- The entity that is added for a snapshot states what the first one did. -/
theorem bare_snapshot (hfile : e.scopeKind? ≠ some .file) (hname : e.IsCanonical) :
    (e.snapshot id nameOf).bare = e.plain := by
  have hparent : (e.snapshot id nameOf).parent.map Int.toNat = e.parent := by
    show (e.parent.map Int.ofNat).map Int.toNat = e.parent
    cases e.parent <;> rfl
  have hspan : (e.snapshot id nameOf).span = e.plain.span := by
    show (e.span.map fun s => (s.start.value, s.stop.value)).map
      (fun r : Int × Int => Span.between r.1 r.2) = e.span.map Span.plain
    cases e.span <;> rfl
  simp only [EntitySnapshot.bare, EntitySnapshot.restored, e.detail?_snapshot id nameOf hfile,
    e.restoredName_snapshot id nameOf hname, hparent, hspan, Option.getD_some]
  rfl

theorem lists_snapshot {o : Outline} {i : Nat} (h : o.get? i = some e) :
    (e.snapshot id nameOf).lists = (o.shown i).writtenAmong MemberList.all := by
  show e.writtenLists = _
  simp only [writtenLists, Members.writtenAmong, o.members_eq_shown h]

section Congr

variable {e e' : Entity} {nameOf nameOf' : Nat → Option String} (hplain : e'.plain = e.plain)
  (hlink : ∀ inc inc', e.inclusion? = some inc → e'.inclusion? = some inc' →
    inc'.link.target? nameOf' = inc.link.target? nameOf)

include hplain hlink

theorem payload_congr : e'.payload nameOf' = e.payload nameOf := by
  have hdetail : e'.detail.bare = e.detail.bare := congrArg Entity.detail hplain
  obtain ⟨detail, name, parent, span, doc⟩ := e
  obtain ⟨detail', name', parent', span', doc'⟩ := e'
  cases detail with
  | scope k b =>
    cases detail' with
    | scope k' b' =>
      cases hdetail
      cases k <;> rfl
    | _ => cases hdetail
  | «variable» =>
    cases detail' with
    | «variable» => rfl
    | _ => cases hdetail
  | external i =>
    cases detail' with
    | external i' =>
      rw [payload_of_inclusion? _ nameOf rfl, payload_of_inclusion? _ nameOf' rfl,
        hlink i i' rfl rfl]
      obtain ⟨target, once, require, link⟩ := i
      obtain ⟨target', once', require', link'⟩ := i'
      cases hdetail
      rfl
    | _ => cases hdetail

/-- Entities that state and show the same and lead to the same name have the same snapshot. -/
theorem snapshot_congr (hmembers : ∀ list, e'.members list = e.members list) (id : Nat) :
    e'.snapshot id nameOf' = e.snapshot id nameOf := by
  have hkind : e'.kind = e.kind := by rw [← e'.kind_plain, hplain, e.kind_plain]
  have hname : e'.name = e.name := by rw [← e'.name_plain, hplain, e.name_plain]
  have hparent : e'.parent = e.parent := by rw [← e'.parent_plain, hplain, e.parent_plain]
  have hdoc : e'.doc = e.doc := by rw [← e'.doc_plain, hplain, e.doc_plain]
  have hspan : e'.span.map Span.plain = e.span.map Span.plain := congrArg Entity.span hplain
  have hrange : e'.span.map (fun s => (s.start.value, s.stop.value)) =
      e.span.map fun s => (s.start.value, s.stop.value) := by
    have hends := congrArg (Option.map fun s : Span => (s.start.value, s.stop.value)) hspan
    rwa [Option.map_map, Option.map_map] at hends
  have hlists : e'.writtenLists = e.writtenLists := by simp only [writtenLists, hmembers]
  simp only [snapshot, hkind, hname, hparent, hdoc, hrange, hlists, payload_congr hplain hlink]

end Congr

end Entity

namespace Outline

/-! ## Adding the listed entities -/

/-- Entities are added if each of them finds its owner among those that come before it. -/
theorem restoreEntities_ok {o : Outline} (h : WellOwned o) {es : List EntitySnapshot}
    (hes : ∀ j e, es[j]? = some e → e.detail?.isSome ∧ e.id = ((o.size + j : Nat) : Int) ∧
      ∃ p : Nat, e.parent = some (p : Int) ∧ p < o.size + j ∧
        ((o.bares ++ es.map EntitySnapshot.bare)[p]?.bind Entity.scopeKind?).isSome) :
    ∃ o', o.restoreEntities es = .ok o' := by
  induction es generalizing o with
  | nil => exact ⟨o, rfl⟩
  | cons e rest ih =>
    obtain ⟨hdetail, hid, p, hp, hlt, hscope⟩ := hes 0 e rfl
    obtain ⟨detail, hd⟩ := Option.isSome_iff_exists.1 hdetail
    rw [List.getElem?_append_left (by simpa using hlt), ← scopeKind?_eq_bares] at hscope
    have hfirst : o.restoreEntity e = .ok (o.add p (e.restored detail)).1 :=
      restoreEntity_eq_ok.2 ⟨p, detail, hp, hscope, by rw [hid]; omega, hd, rfl⟩
    have hfresh := e.isFresh_restored hd
    have hbare : e.bare = { e.restored detail with parent := some p } := by
      simp [EntitySnapshot.bare, hd, hp]
    have hbares : (o.add p (e.restored detail)).1.bares = o.bares ++ [e.bare] := by
      rw [bares_add h.linked, hfresh.1, hbare]
    rw [restoreEntities, hfirst]
    refine ih (h.add hscope hfresh.children_eq hfresh.2) ?_
    intro j x hx
    obtain ⟨hx₁, hx₂, q, hq, hqlt, hqs⟩ := hes (j + 1) x hx
    rw [size_add h.linked, hbares]
    refine ⟨hx₁, ?_, q, hq, by omega, ?_⟩
    · rw [hx₂]
      congr 1
      omega
    · rwa [List.append_assoc, List.singleton_append, ← List.map_cons]

/-! ## Setting the listed members -/

/-- Taking back written lists of a scope sets them and leaves everything else alone. -/
theorem restoreLists_written {o : Outline} {i : Nat} (hs : (o.scopeKind? i).isSome) {m : Members}
    (hm : ∀ list, ∀ n ∈ m.get list, n < o.size) (lists : List MemberList) :
    ∃ o', o.restoreLists i (m.writtenAmong lists) = .ok o' ∧ ∀ j list,
      (o'.shown j).get list =
        if j = i ∧ list ∈ lists ∧ m.get list ≠ [] then m.get list else (o.shown j).get list := by
  induction lists generalizing o with
  | nil => exact ⟨o, rfl, by simp⟩
  | cons l rest ih =>
    by_cases hempty : m.get l = []
    · have hskip : m.writtenAmong (l :: rest) = m.writtenAmong rest := by
        simp [Members.writtenAmong, hempty]
      obtain ⟨o', ho', hshown⟩ := ih hs hm
      refine ⟨o', by rw [hskip]; exact ho', fun j list => ?_⟩
      rw [hshown]
      by_cases hl : list = l
      · simp [hl, hempty]
      · simp [hl]
    · have hwritten : m.writtenAmong (l :: rest) =
          (l.name, (m.get l).map Int.ofNat) :: m.writtenAmong rest := by
        simp [Members.writtenAmong, hempty]
      have hscope : ((o.find? (i : Int)).map Entity.isScope).getD false = true :=
        find?_isScope_iff.2 ⟨Int.natCast_nonneg i, hs⟩
      have hmembers : o.members? (fun _ => true) ((m.get l).map Int.ofNat) = .ok (m.get l) :=
        members?_eq_ok.2 ⟨rfl, fun n hn => ⟨hm l n hn, rfl⟩⟩
      have hkind : ∀ j, (o.setMembers i l (m.get l)).scopeKind? j = o.scopeKind? j := by
        intro j
        rw [scopeKind?_eq_bares, bares_setMembers, ← scopeKind?_eq_bares]
      obtain ⟨o', ho', hshown⟩ := ih (o := o.setMembers i l (m.get l)) (by rwa [hkind])
        (by simpa [setMembers] using hm)
      refine ⟨o', ?_, fun j list => ?_⟩
      · rw [hwritten, restoreLists_cons_eq_ok]
        exact ⟨l, m.get l, hscope, MemberList.ofName?_name l, hmembers, ho'⟩
      · rw [hshown, setMembers, shown_setMembers o fun x => x.set l (m.get l)]
        by_cases hj : j = i
        · subst hj
          simp only [true_and, hs, and_self, ↓reduceIte]
          by_cases hl : list = l
          · subst hl
            simp [hempty]
          · simp [hl, Members.get_set_of_ne]
        · simp [hj, Ne.symm hj]

theorem bares_restoreLists {o o' : Outline} {id : Int} {lists : Ledger (List Int)}
    (h : o.restoreLists id lists = .ok o') : o'.bares = o.bares :=
  restoreLists_keeps (P := fun x => x.bares = o.bares)
    (fun x i list ns _ hx => (bares_setMembers x i list ns).trans hx) h rfl

/-- Taking back what an entity shows, if it shows nothing yet. -/
theorem restoreLists_all {o : Outline} {i : Nat} {m : Members}
    (hs : m ≠ {} → (o.scopeKind? i).isSome) (hm : ∀ list, ∀ n ∈ m.get list, n < o.size)
    (hempty : o.shown i = {}) :
    ∃ o', o.restoreLists i (m.writtenAmong MemberList.all) = .ok o' ∧ ∀ j,
      o'.shown j = if j = i then m else o.shown j := by
  by_cases hnone : m = {}
  · refine ⟨o, by rw [hnone]; rfl, fun j => ?_⟩
    split
    · rename_i hj
      rw [hj, hempty, hnone]
    · rfl
  · obtain ⟨o', ho', hshown⟩ := restoreLists_written (hs hnone) hm MemberList.all
    refine ⟨o', ho', fun j => Members.ext_get fun list => ?_⟩
    have hall : list ∈ MemberList.all := by cases list <;> decide
    rw [hshown]
    by_cases hj : j = i
    · by_cases hl : m.get list = []
      · rw [if_neg (by simp [hl]), if_pos hj, hj, hempty, hl]
        cases list <;> rfl
      · rw [if_pos ⟨hj, hall, hl⟩, if_pos hj]
    · rw [if_neg (by simp [hj]), if_neg hj]

/-- Taking back the written lists of all entities gives every entity its members. -/
theorem restoreAllLists_ok {o : Outline} {k : Nat} {es : List EntitySnapshot} {m : Nat → Members}
    (hes : ∀ j e, es[j]? = some e → e.id = ((k + j : Nat) : Int) ∧
      e.lists = (m (k + j)).writtenAmong MemberList.all)
    (hm : ∀ i list, ∀ n ∈ (m i).get list, n < o.size)
    (hs : ∀ i, m i ≠ {} → (o.scopeKind? i).isSome)
    (hempty : ∀ i, k ≤ i → o.shown i = {}) :
    ∃ o', o.restoreAllLists es = .ok o' ∧ ∀ i,
      o'.shown i = if k ≤ i ∧ i < k + es.length then m i else o.shown i := by
  induction es generalizing o k with
  | nil =>
    refine ⟨o, rfl, fun i => ?_⟩
    rw [if_neg]
    simp only [List.length_nil]
    omega
  | cons e rest ih =>
    obtain ⟨hid, hlists⟩ := hes 0 e rfl
    rw [Nat.add_zero] at hid hlists
    obtain ⟨o₁, h₁, hshown₁⟩ := restoreLists_all (hs k) (hm k) (hempty k (Nat.le_refl k))
    have hbares := bares_restoreLists h₁
    have hsize : o₁.size = o.size := by rw [← length_bares, hbares, length_bares]
    have hkind : ∀ i, o₁.scopeKind? i = o.scopeKind? i := by
      intro i
      rw [scopeKind?_eq_bares, hbares, ← scopeKind?_eq_bares]
    obtain ⟨o', ho', hshown⟩ := ih (o := o₁) (k := k + 1)
      (fun j x hx => by
        have hx' := hes (j + 1) x hx
        rwa [show k + (j + 1) = k + 1 + j by omega] at hx')
      (by rwa [hsize]) (by simpa only [hkind] using hs)
      (fun i hi => by rw [hshown₁, if_neg (by omega), hempty i (by omega)])
    refine ⟨o', ?_, fun i => ?_⟩
    · rw [restoreAllLists_cons_eq_ok, hid, hlists]
      exact ⟨o₁, h₁, ho'⟩
    · rw [hshown, hshown₁, List.length_cons]
      by_cases hi : i = k
      · rw [if_neg (by omega), if_pos hi, if_pos (by omega), hi]
      · rw [if_neg hi]
        congr 1
        rw [eq_iff_iff]
        omega

end Outline

namespace SourceFile

open Outline FileSnapshot

theorem UpToLinks.alike {f g : SourceFile} (h : UpToLinks f g) (hf : WellOwned f.outline) :
    Alike f.outline g.outline where
  plain := by
    intro i
    have hbare := congrArg (fun es : List Entity => es[i]?.map Entity.plain) h.bares
    simp only [getElem?_bares, Option.map_map] at hbare
    rwa [show Entity.plain ∘ Entity.bare = Entity.plain from funext Entity.plain_bare] at hbare
  shown := h.shown
  home := h.home
  namespaces := h.namespaces
  externals := h.externals
  wellOwned := hf
  wellOwned' := h.wellOwned hf

theorem rename_self {f : SourceFile} {e : Entity} (he : f.outline.get? 0 = some e) {name : String}
    (hname : e.name = some name) : f.rename name = f := by
  have hmodify : f.outline.entities.modify 0 (fun e => { e with name := some name }) =
      f.outline.entities := by
    refine Array.ext_getElem? fun i => ?_
    rw [Array.getElem?_modify]
    split
    · rename_i hi
      rw [get?] at he
      rw [← hi, he, Option.map_some, ← hname]
    · rfl
  unfold rename Outline.modify
  rw [hmodify]

/-- Files that read alike have the same directives, up to links. -/
theorem bare_directive?_of_alike {f g : SourceFile} (h : Alike f.outline g.outline) (i : Nat) :
    (g.directive? i).map Inclusion.bare = (f.directive? i).map Inclusion.bare := by
  rcases h.both i with ⟨he, he'⟩ | ⟨e, e', he, he', hsame⟩
  · rw [directive?, directive?, he, he']
  · rw [directive?, directive?, he, he', Option.bind_some, Option.bind_some, ← e'.inclusion?_plain,
      hsame, e.inclusion?_plain]

/-! ## The snapshot of a file -/

section Snapshot

variable (nameOf : Nat → Option String)

theorem getElem?_snapshotsFrom (i j : Nat) (es : List Entity) :
    (snapshotsFrom nameOf i es)[j]? = es[j]?.map fun e => e.snapshot (i + j) nameOf := by
  induction es generalizing i j with
  | nil => rfl
  | cons e rest ih =>
    cases j with
    | zero => rfl
    | succ j =>
      rw [snapshotsFrom, List.getElem?_cons_succ, List.getElem?_cons_succ, ih,
        Nat.add_assoc, Nat.add_comm 1 j]

theorem isContiguous_snapshotsFrom (i : Nat) (es : List Entity) :
    isContiguous i (snapshotsFrom nameOf i es) = true := by
  induction es generalizing i with
  | nil => rfl
  | cons e rest ih =>
    rw [snapshotsFrom, isContiguous, ih, Bool.and_true, beq_iff_eq]
    rfl

variable {f : SourceFile} (hd : f.detached = false)

include hd

theorem inOrder_snapshot :
    (f.snapshot nameOf).inOrder = snapshotsFrom nameOf 0 f.outline.entities.toList := by
  have hentities : (f.snapshot nameOf).entities =
      snapshotsFrom nameOf 0 f.outline.entities.toList := by
    simp only [snapshot, heldEntities, hd, Bool.false_eq_true, ↓reduceIte]
  rw [← hentities]
  refine inOrder_of_pairwise ?_
  rw [hentities]
  exact pairwise_of_isContiguous (isContiguous_snapshotsFrom nameOf 0 _)

theorem getElem?_inOrder_snapshot (i : Nat) :
    (f.snapshot nameOf).inOrder[i]? = (f.outline.get? i).map fun e => e.snapshot i nameOf := by
  rw [inOrder_snapshot nameOf hd, getElem?_snapshotsFrom, Nat.zero_add, get?, Array.getElem?_toList]

theorem isContiguous_inOrder_snapshot : isContiguous 0 (f.snapshot nameOf).inOrder = true := by
  rw [inOrder_snapshot nameOf hd]
  exact isContiguous_snapshotsFrom nameOf 0 _

theorem before_snapshot {i : Nat} {inc : Inclusion} (hi : f.directive? i = some inc) :
    (f.snapshot nameOf).before i = Value.ofText? (inc.link.target? nameOf) := by
  obtain ⟨e, he, hinc⟩ := Option.bind_eq_some_iff.1 hi
  rw [FileSnapshot.before, getElem?_inOrder_snapshot nameOf hd, he, Option.map_some,
    Option.map_some, Option.getD_some, EntitySnapshot.payloadField]
  show ((e.payload nameOf).get? "resolved").getD .null = _
  rw [e.payload_of_inclusion? nameOf hinc]
  rfl

end Snapshot

/-! ## Taking back the snapshot -/

/-- Every namespace of the file has a canonical name. -/
def HasCanonicalNames (f : SourceFile) : Prop :=
  ∀ i e, f.outline.get? i = some e → e.IsCanonical

theorem HasCanonicalNames.of_alike {f g : SourceFile} (hf : f.HasCanonicalNames)
    (h : Alike f.outline g.outline) : g.HasCanonicalNames := by
  intro i e' he' hkind
  rcases h.both i with ⟨-, hnone⟩ | ⟨e, e'', he, he'', hsame⟩
  · rw [he'] at hnone
    cases hnone
  · rw [he'] at he''
    cases he''
    rw [← e'.kind_plain, hsame, e.kind_plain] at hkind
    rw [← e'.name_plain, hsame, e.name_plain]
    exact hf i e he hkind

theorem isSome_scopeKind?_of_shown {o : Outline} {i : Nat} (h : o.shown i ≠ {}) :
    (o.scopeKind? i).isSome := by
  unfold Outline.shown at h
  unfold Outline.scopeKind?
  cases he : o.get? i with
  | none => simp [he] at h
  | some e =>
    rw [Option.bind_some, ← Entity.isScope_eq, Entity.isScope]
    cases hb : e.body? with
    | none => simp [he, hb] at h
    | some b => rfl

section Restore

variable {f : SourceFile} (nameOf : Nat → Option String) (h : SoundOutline f.outline)

include h

/-- Every entity but the file finds its owner among those before it. -/
theorem restorable_snapshot {others : List EntitySnapshot}
    (hothers : ∀ j, others[j]? =
      (f.outline.get? (j + 1)).map fun e => e.snapshot (j + 1) nameOf) {j : Nat}
    {x : EntitySnapshot} (hx : others[j]? = some x) :
    x.detail?.isSome ∧ x.id = ((1 + j : Nat) : Int) ∧
      ∃ p : Nat, x.parent = some (p : Int) ∧ p < 1 + j ∧ (f.outline.scopeKind? p).isSome := by
  rw [hothers] at hx
  obtain ⟨e, he, rfl⟩ := Option.map_eq_some_iff.1 hx
  have hlt : j + 1 < f.outline.size := by
    rw [← get?_isSome_iff, he]
    rfl
  obtain ⟨p, hp, howner, hscope⟩ := h.wellOwned.owner (Nat.succ_pos j) hlt
  rw [owner?_eq, he, Option.bind_some] at howner
  have hinner := h.wellOwned.inner (Nat.succ_pos j)
  rw [Outline.scopeKind?, he, Option.bind_some] at hinner
  refine ⟨?_, ?_, p, ?_, by omega, hscope⟩
  · rw [e.detail?_snapshot _ nameOf hinner]
    rfl
  · rw [Nat.add_comm]
    rfl
  · show e.parent.map Int.ofNat = some (p : Int)
    rw [howner]
    rfl

variable (hd : f.detached = false)

include hd

/-- An outline that states what the file does and shows nothing gets all of its members. -/
theorem restoreAllLists_snapshot {o : Outline} (hplains : o.bares = f.outline.plains)
    (hempty : ∀ i, o.shown i = {}) :
    ∃ o', o.restoreAllLists (f.snapshot nameOf).inOrder = .ok o' ∧
      ∀ i, o'.shown i = f.outline.shown i := by
  have hget := getElem?_inOrder_snapshot nameOf hd
  have hsize : o.size = f.outline.size := by rw [← length_bares, hplains, length_plains]
  obtain ⟨o', ho', hshown⟩ : ∃ o', o.restoreAllLists (f.snapshot nameOf).inOrder = .ok o' ∧ ∀ i,
      o'.shown i = if 0 ≤ i ∧ i < 0 + (f.snapshot nameOf).inOrder.length then f.outline.shown i
        else o.shown i := by
    refine restoreAllLists_ok ?_ ?_ ?_ ?_
    · intro j x hx
      rw [hget] at hx
      obtain ⟨e, he, rfl⟩ := Option.map_eq_some_iff.1 hx
      rw [Nat.zero_add]
      exact ⟨rfl, e.lists_snapshot j nameOf he⟩
    · intro i list n hn
      rw [hsize]
      exact h.inRange i list n hn
    · intro i hi
      rw [scopeKind?_eq_bares, hplains, ← scopeKind?_eq_plains]
      exact isSome_scopeKind?_of_shown hi
    · exact fun i _ => hempty i
  refine ⟨o', ho', fun i => ?_⟩
  rw [hshown]
  split
  · rfl
  · rename_i hi
    have hnone : f.outline.get? i = none := by
      rw [← Option.map_eq_none_iff, ← hget, List.getElem?_eq_none]
      omega
    rw [hempty, Outline.shown, hnone]
    rfl

variable (hc : f.HasCanonicalNames)

include hc

/-- The entities of the snapshot, with the file first, state what the entities of the file do. -/
theorem inOrder_snapshot_cons :
    ∃ root others, (f.snapshot nameOf).inOrder = root :: others ∧ root.kind = .file ∧
      ((f.snapshot nameOf).start root).bares ++ others.map EntitySnapshot.bare =
        f.outline.plains := by
  obtain ⟨e, he, hname⟩ := h.root
  obtain ⟨rest, hes⟩ : ∃ rest, f.outline.entities.toList = e :: rest := by
    rw [get?, ← Array.getElem?_toList] at he
    exact ⟨_, (List.head?_eq_some_iff.1 (List.head?_eq_getElem?.trans he)).choose_spec⟩
  have hget : ∀ i, f.outline.get? i = (e :: rest)[i]? := by
    intro i
    rw [← hes, Array.getElem?_toList, get?]
  have hkind : e.scopeKind? = some .file := by
    rw [← h.wellOwned.root, Outline.scopeKind?, hget]
    rfl
  have hparent : e.parent = none := by
    rw [← h.wellOwned.unowned, owner?_eq, hget]
    rfl
  refine ⟨_, _, (inOrder_snapshot nameOf hd).trans (by rw [hes, snapshotsFrom]),
    e.kind_of_scopeKind? hkind, ?_⟩
  have hroot : ((f.snapshot nameOf).start (e.snapshot 0 nameOf)).bares = [e.plain] := by
    obtain ⟨detail, name, parent, span, doc⟩ := e
    cases detail with
    | scope k b =>
      cases hkind
      cases hname
      cases hparent
      cases span <;> rfl
    | _ => cases hkind
  have hothers : (snapshotsFrom nameOf (0 + 1) rest).map EntitySnapshot.bare =
      rest.map Entity.plain := by
    refine List.ext_getElem? fun j => ?_
    rw [List.getElem?_map, getElem?_snapshotsFrom, Option.map_map, List.getElem?_map]
    refine Option.map_congr fun x hx => ?_
    have hx' : f.outline.get? (j + 1) = some x := by
      rw [hget, List.getElem?_cons_succ]
      exact hx
    refine x.bare_snapshot _ nameOf ?_ (hc _ x hx')
    have hinner := h.wellOwned.inner (Nat.succ_pos j)
    rwa [Outline.scopeKind?, hx'] at hinner
  rw [hroot, hothers, plains, hes]
  rfl

/-- The snapshot of a sound file with canonical names is accepted, and the outline that is taken
back reads alike. -/
theorem outline?_snapshot : ∃ o, (f.snapshot nameOf).outline? = .ok o ∧ Alike f.outline o := by
  obtain ⟨root, others, hs, hkind, hbares⟩ := inOrder_snapshot_cons nameOf h hd hc
  have hothers : ∀ j, others[j]? =
      (f.outline.get? (j + 1)).map fun e => e.snapshot (j + 1) nameOf := by
    intro j
    rw [← getElem?_inOrder_snapshot nameOf hd, hs, List.getElem?_cons_succ]
  have hstart : WellOwned ((f.snapshot nameOf).start root) :=
    (wellOwned_empty f.name root.span).modify 0 fun _ => rfl
  obtain ⟨o₁, h₁⟩ : ∃ o₁, ((f.snapshot nameOf).start root).restoreEntities others = .ok o₁ := by
    refine restoreEntities_ok hstart fun j x hx => ?_
    rw [hbares]
    simp only [← scopeKind?_eq_plains]
    exact restorable_snapshot nameOf h hothers hx
  obtain ⟨hw₁, hb₁, hshown₁⟩ := restoreEntities_spec hstart h₁
  rw [hbares] at hb₁
  have hempty₁ : ∀ i, o₁.shown i = {} := fun i => (hshown₁ i).trans (shown_start _ root i)
  obtain ⟨o₂, h₂, hshown₂⟩ := restoreAllLists_snapshot nameOf h hd hb₁ hempty₁
  obtain ⟨hw₂, -, hb₂⟩ := restoreAllLists_spec h₂ hw₁ fun i list m hm => by
    rw [hempty₁] at hm
    cases list <;> cases hm
  rw [hb₁] at hb₂
  have hns : ∀ n, f.outline.isNamespace n = true → n < o₂.size ∧ o₂.isNamespace n = true := by
    intro n hn
    rw [isNamespace_eq_bares, hb₂, ← scopeKind?_eq_plains]
    refine ⟨?_, hn⟩
    rw [← length_bares, hb₂, length_plains]
    exact lt_size_of_isNamespace hn
  have hex : ∀ n, f.outline.isExternal n = true → n < o₂.size ∧ o₂.isExternal n = true := by
    intro n hn
    rw [isExternal_eq_bares, hb₂, ← isExternal_eq_plains]
    refine ⟨?_, hn⟩
    rw [← length_bares, hb₂, length_plains, ← get?_isSome_iff]
    obtain ⟨inc, hinc⟩ := Option.isSome_iff_exists.1 hn
    obtain ⟨e, he, -⟩ := Option.bind_eq_some_iff.1 hinc
    rw [he]
    rfl
  obtain ⟨home, hhome, hisns⟩ := h.home
  refine ⟨_, outline?_eq_ok.2 ⟨root, others, o₁, o₂, home, f.outline.namespaces,
    f.outline.externals, hs, isContiguous_inOrder_snapshot nameOf hd, hkind, h₁, h₂, ?_, ?_, ?_,
    rfl⟩, ?_⟩
  · refine member?_eq_ok.2 ⟨?_, hns home hisns⟩
    simp only [snapshot, hhome, Option.getD_some]
  · exact members?_eq_ok.2 ⟨rfl, fun n hn => hns n (h.namespaces n hn)⟩
  · exact members?_eq_ok.2 ⟨rfl, fun n hn => hex n (h.externals n hn)⟩
  · refine ⟨fun i => ?_, hshown₂, hhome.symm, rfl, rfl, h.wellOwned, hw₂.congr rfl fun _ => rfl⟩
    have hi := congrArg (fun es : List Entity => es[i]?.map Entity.plain) hb₂
    simp only [getElem?_bares, getElem?_plains, Option.map_map] at hi
    rwa [show Entity.plain ∘ Entity.bare = Entity.plain from funext Entity.plain_bare,
      show Entity.plain ∘ Entity.plain = Entity.plain from funext Entity.plain_plain] at hi

/-- The file that is taken back from the snapshot of a sound file reads like it, knows the same of
its content, and has its directives queued with where they led. -/
theorem restore_snapshot :
    ∃ g, (f.snapshot nameOf).restore = .ok g ∧ Alike f.outline g.outline ∧
      g.contentHash = f.contentHash ∧ g.mtime = f.mtime ∧ g.size = f.size ∧
      g.detached = false ∧ Queues g f.name (f.snapshot nameOf).before := by
  obtain ⟨o, ho, halike⟩ := outline?_snapshot nameOf h hd hc
  have hg := restore_eq_ok.2 ⟨o, ho, rfl⟩
  have hsame := (upToLinks_enqueueEach ((f.snapshot nameOf).unqueued o)
    (f.snapshot nameOf).lookups).trans (upToLinks_close _)
  exact ⟨_, hg, halike.trans (hsame.alike halike.wellOwned'), hsame.contentHash, hsame.mtime,
    hsame.size, hsame.detached, queues_restore hg⟩

end Restore

end SourceFile

end SymbolAtlas
