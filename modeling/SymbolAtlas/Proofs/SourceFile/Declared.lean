import Mathlib
import SymbolAtlas.Proofs.SourceFile.Acceptance
import SymbolAtlas.Proofs.SourceFile.Namespaces

/-!
# Namespaces that a tree declares

`Node.Walked` says which nodes a walk comes to, without an outline.  Every namespace node among them
gets an entity under the canonical form of its name (`Node.Walked.declares`,
`SourceFile.FromTree.exists_namespace`).  The snapshot of a file that came from a tree is always
taken back (`SourceFile.SoundOutline.exists_restore_snapshot`); its namespaces are then named once
more, so each keeps its name if that was canonical (`FileSnapshot.name_restored`).
-/

namespace SymbolAtlas

open Outline

namespace Node

/-! ## Walked nodes -/

/-- A walk of nodes comes to a node.  In the body of a class methods are walked like functions, and
elsewhere like nodes without a meaning of their own. -/
inductive Walked : Bool → List Node → Node → Prop
  | here {inClass : Bool} {ns : List Node} {n : Node} (hn : n ∈ ns) : Walked inClass ns n
  | inClass {inClass : Bool} {ns body : List Node} {h : Heading} {n : Node}
      (hn : .classNode h body ∈ ns) (hbody : Walked true body n) : Walked inClass ns n
  | inFunction {inClass : Bool} {ns body : List Node} {h : Heading} {n : Node}
      (hn : .functionNode h body ∈ ns) (hbody : Walked false body n) : Walked inClass ns n
  | inMethod {ns body fields : List Node} {h : Heading} {n : Node}
      (hn : .methodNode h body fields ∈ ns) (hbody : Walked false body n) : Walked true ns n
  | inStrayMethod {ns body fields : List Node} {h : Heading} {n : Node}
      (hn : .methodNode h body fields ∈ ns) (hfields : Walked false fields n) : Walked false ns n
  | inNamespace {inClass : Bool} {ns body : List Node} {h : Heading} {n : Node}
      (hn : .namespaceNode h body ∈ ns) (hbody : Walked false body n) : Walked inClass ns n
  | inBranch {inClass : Bool} {ns : List Node} {arms : List Arm} {h : Heading} {arm : Arm}
      {n : Node} (hn : .branches h arms ∈ ns) (harm : arm ∈ arms) (hbody : Walked false arm.2 n) :
      Walked inClass ns n
  | inOther {inClass : Bool} {ns fields : List Node} {h : Heading} {n : Node}
      (hn : .other h fields ∈ ns) (hfields : Walked inClass fields n) : Walked inClass ns n

/-- What one of several nodes declares is declared. -/
theorem exists_declares_subset {ns : List Node} {n : Node} (hn : n ∈ ns) (site : Nat)
    (inClass : Bool) (next : Nat) (pending : Option String) :
    ∃ next' pending', (declares site inClass next' pending' n).1 ⊆
      (declaresAll site inClass next pending ns).1 := by
  induction ns generalizing next pending with
  | nil => cases hn
  | cons first rest ih =>
    rw [declaresAll]
    rcases List.mem_cons.1 hn with rfl | hn
    · exact ⟨next, pending, List.subset_append_left _ _⟩
    · obtain ⟨next', pending', hsub⟩ :=
        ih hn (next + (declares site inClass next pending first).1.length)
          (declares site inClass next pending first).2
      exact ⟨next', pending', List.subset_append_of_subset_right _ hsub⟩

/-- What the block of one of several branches declares is declared. -/
theorem exists_declaresArms_subset {arms : List Arm} {arm : Arm} (harm : arm ∈ arms) (site : Nat)
    (next : Nat) :
    ∃ next', (declaresAll next' false (next' + 1) none arm.2).1 ⊆ declaresArms site next arms := by
  induction arms generalizing next with
  | nil => cases harm
  | cons first rest ih =>
    obtain ⟨span, body⟩ := first
    rw [declaresArms]
    rcases List.mem_cons.1 harm with rfl | harm
    · exact ⟨next, fun d hd => List.mem_append_left _ (.tail _ hd)⟩
    · obtain ⟨next', hsub⟩ := ih harm _
      exact ⟨next', fun d hd => List.mem_append_right _ (hsub hd)⟩

/-- Every namespace node that a walk comes to is declared. -/
theorem Walked.declares {inClass : Bool} {ns : List Node} {h : Heading} {body : List Node}
    (hw : Walked inClass ns (.namespaceNode h body)) (site next : Nat) (pending : Option String) :
    ∃ d ∈ (declaresAll site inClass next pending ns).1, ∃ doc,
      d.entity = h.namespaceEntity doc := by
  generalize hnode : Node.namespaceNode h body = n at hw
  induction hw generalizing site next pending with
  | here hn =>
    obtain ⟨next', pending', hsub⟩ := exists_declares_subset hn site _ next pending
    subst hnode
    exact ⟨_, hsub (.head _), pending', rfl⟩
  | inClass hn _ ih =>
    obtain ⟨next', pending', hsub⟩ := exists_declares_subset hn site _ next pending
    obtain ⟨d, hd, hdoc⟩ := ih next' (next' + 1) none hnode
    exact ⟨d, hsub (.tail _ hd), hdoc⟩
  | inFunction hn _ ih =>
    obtain ⟨next', pending', hsub⟩ := exists_declares_subset hn site _ next pending
    obtain ⟨d, hd, hdoc⟩ := ih next' (next' + 1) none hnode
    exact ⟨d, hsub (.tail _ hd), hdoc⟩
  | inMethod hn _ ih =>
    obtain ⟨next', pending', hsub⟩ := exists_declares_subset hn site _ next pending
    obtain ⟨d, hd, hdoc⟩ := ih next' (next' + 1) none hnode
    exact ⟨d, hsub (.tail _ hd), hdoc⟩
  | inStrayMethod hn _ ih =>
    obtain ⟨next', pending', hsub⟩ := exists_declares_subset hn site _ next pending
    obtain ⟨d, hd, hdoc⟩ := ih site next' none hnode
    exact ⟨d, hsub hd, hdoc⟩
  | inNamespace hn _ ih =>
    obtain ⟨next', pending', hsub⟩ := exists_declares_subset hn site _ next pending
    obtain ⟨d, hd, hdoc⟩ := ih next' (next' + 1) none hnode
    exact ⟨d, hsub (.tail _ hd), hdoc⟩
  | inBranch hn harm _ ih =>
    obtain ⟨next', pending', hsub⟩ := exists_declares_subset hn site _ next pending
    obtain ⟨block, hblock⟩ := exists_declaresArms_subset harm site next'
    obtain ⟨d, hd, hdoc⟩ := ih block (block + 1) none hnode
    exact ⟨d, hsub (hblock hd), hdoc⟩
  | inOther hn _ ih =>
    obtain ⟨next', pending', hsub⟩ := exists_declares_subset hn site _ next pending
    obtain ⟨d, hd, hdoc⟩ := ih site next' none hnode
    exact ⟨d, hsub hd, hdoc⟩

end Node

namespace SourceFile

/-! ## Entities of namespace nodes -/

section FromTree

variable {tree : Value} {f : SourceFile} (h : f.FromTree tree) (hd : f.detached = false)

include h hd

/-- A file that came from a tree and was not emptied was made under some name. -/
theorem FromTree.made : ∃ origin, f.Made origin := by
  induction h with
  | parsed name contentHash mtime size => exact ⟨name, .parsed tree contentHash mtime size⟩
  | renamed _ name ih =>
    obtain ⟨origin, hmade⟩ := ih hd
    exact ⟨origin, hmade.renamed name⟩
  | @relinked f _ resolve ih =>
    have hlinks : UpToLinks f (f.relink resolve).1 := f.upToLinks_relink
    obtain ⟨origin, hmade⟩ := ih (hlinks.detached.symm.trans hd)
    exact ⟨origin, hmade.relinked resolve⟩
  | detached _ _ => cases hd

/-- After the file and its home come the declarations of the tree. -/
theorem FromTree.getElem?_bares {k : Nat} {d : Declaration}
    (hk : (declarations tree)[k]? = some d) :
    f.outline.bares[2 + k]? = some { d.entity with parent := some d.owner } := by
  induction h with
  | parsed name contentHash mtime size =>
    rw [getElem?_bares_ofTree, hk, Option.map_some]
  | @renamed f _ name ih =>
    rw [Outline.getElem?_bares, get?_rename, if_neg (by omega), ← Outline.getElem?_bares]
    exact ih hd
  | @relinked f _ resolve ih =>
    have hlinks : UpToLinks f (f.relink resolve).1 := f.upToLinks_relink
    rw [hlinks.bares]
    exact ih (hlinks.detached.symm.trans hd)
  | detached _ _ => cases hd

/-- Every namespace node that the walk came to has an entity, named canonically. -/
theorem FromTree.exists_namespace {heading : Heading} {body : List Node}
    (hw : Node.Walked false (Node.ofValue (statements tree)) (.namespaceNode heading body)) :
    ∃ i e, 0 < i ∧ f.outline.get? i = some e ∧ e.kind = .namespaceDecl ∧
      e.name = some (Qualified.canonical (heading.name.getD "")) ∧ e.span = heading.span := by
  obtain ⟨d, hmem, doc, hentity⟩ := hw.declares 0 2 none
  obtain ⟨k, hk⟩ := List.mem_iff_getElem?.1 hmem
  have hbare := h.getElem?_bares hd hk
  rw [Outline.getElem?_bares, hentity] at hbare
  obtain ⟨e, he, hsame⟩ := Option.map_eq_some_iff.1 hbare
  have hkind : e.bare.kind = .namespaceDecl := congrArg Entity.kind hsame
  have hname : e.bare.name = some (Qualified.canonical (heading.name.getD "")) :=
    congrArg Entity.name hsame
  have hspan : e.bare.span = heading.span := congrArg Entity.span hsame
  exact ⟨2 + k, e, by omega, he, e.kind_bare ▸ hkind, hname, hspan⟩

end FromTree

/-! ## Snapshots with any names -/

section Snapshot

variable {f : SourceFile} (nameOf : Nat → Option String) (h : SoundOutline f.outline)
  (hd : f.detached = false)

include hd in
theorem listedKinds_snapshot : (f.snapshot nameOf).listedKinds = f.outline.kinds := by
  refine List.ext_getElem? fun i => ?_
  rw [FileSnapshot.listedKinds, List.getElem?_map, getElem?_inOrder_snapshot nameOf hd,
    getElem?_kinds, Option.map_map]
  rfl

include h in
/-- Written lists are those of scopes, and their members are entities. -/
theorem SoundOutline.lists_snapshot {i : Nat} {e : Entity} (he : f.outline.get? i = some e) :
    EntitySnapshot.Lists f.outline.kinds i (e.snapshot i nameOf).lists := by
  intro entry hentry
  obtain ⟨hlisted, hnonempty⟩ := List.mem_filter.1 hentry
  obtain ⟨list, -, rfl⟩ := List.mem_map.1 hlisted
  simp only [f.outline.members_eq_shown he] at hnonempty ⊢
  refine ⟨isSome_scopeKind?_iff.1 (isSome_scopeKind?_of_shown ?_), ⟨list, rfl⟩, ?_⟩
  · intro hshown
    rw [hshown] at hnonempty
    cases list <;> simp [Members.get] at hnonempty
  · intro member hmember
    obtain ⟨m, hm, rfl⟩ := List.mem_map.1 hmember
    obtain ⟨x, hx⟩ := Option.isSome_iff_exists.1 (get?_isSome_iff.2 (h.inRange i list m hm))
    exact ⟨m, x.kind, rfl, by rw [getElem?_kinds, hx, Option.map_some], rfl⟩

include h hd in
/-- The snapshot of a sound file is taken back, whatever its namespaces are called. -/
theorem SoundOutline.exists_restore_snapshot : ∃ g, (f.snapshot nameOf).restore = .ok g := by
  have hget := getElem?_inOrder_snapshot nameOf hd
  have hkinds := listedKinds_snapshot nameOf hd
  obtain ⟨e, he, -⟩ := h.root
  obtain ⟨others, hs⟩ : ∃ others, (f.snapshot nameOf).inOrder = e.snapshot 0 nameOf :: others := by
    refine List.head?_eq_some_iff.1 ?_
    rw [List.head?_eq_getElem?, hget, he, Option.map_some]
  have hothers : ∀ j, others[j]? =
      (f.outline.get? (j + 1)).map fun e => e.snapshot (j + 1) nameOf := by
    intro j
    rw [← hget, hs, List.getElem?_cons_succ]
  have hnamespace : ∀ n, f.outline.isNamespace n = true →
      Kind.Fits f.outline.kinds n (· = .namespaceDecl) := by
    intro n hn
    obtain ⟨x, hx⟩ := Option.isSome_iff_exists.1 (get?_isSome_iff.2 (lt_size_of_isNamespace hn))
    refine ⟨n, x.kind, rfl, by rw [getElem?_kinds, hx, Option.map_some], ?_⟩
    exact decide_eq_true ((isNamespace_iff hx).1 hn)
  obtain ⟨o, ho⟩ : ∃ o, (f.snapshot nameOf).outline? = .ok o := by
    refine (FileSnapshot.exists_outline?_iff _).2
      ⟨isContiguous_inOrder_snapshot nameOf hd, _, others, hs, ?_, ?_, ?_, ?_, ?_, ?_⟩
    · have hroot : e.scopeKind? = some .file := by
        rw [← h.wellOwned.root, scopeKind?, he, Option.bind_some]
      exact e.kind_of_scopeKind? hroot
    · intro x hx
      obtain ⟨j, hj⟩ := List.mem_iff_getElem?.1 hx
      obtain ⟨hdetail, hid, p, hp, hlt, hscope⟩ := restorable_snapshot nameOf h hothers hj
      rw [hkinds]
      refine ⟨by rw [← x.isSome_detail?, hdetail], p, hp, ?_, isSome_scopeKind?_iff.1 hscope⟩
      rw [hid]
      exact Int.ofNat_lt.2 hlt
    · intro x hx
      obtain ⟨i, hi⟩ := List.mem_iff_getElem?.1 hx
      rw [hget] at hi
      obtain ⟨y, hy, rfl⟩ := Option.map_eq_some_iff.1 hi
      rw [hkinds]
      exact h.lists_snapshot nameOf hy
    · obtain ⟨home, hhome, hisns⟩ := h.home
      have hwritten : (f.snapshot nameOf).defaultNamespace = (home : Int) := by
        rw [snapshot, hhome]
        rfl
      rw [hkinds, hwritten]
      exact hnamespace home hisns
    · intro id hid
      obtain ⟨n, hn, rfl⟩ := List.mem_map.1 hid
      rw [hkinds]
      exact hnamespace n (h.namespaces n hn)
    · intro id hid
      obtain ⟨n, hn, rfl⟩ := List.mem_map.1 hid
      have hexternal := h.externals n hn
      obtain ⟨x, hx⟩ : ∃ x, f.outline.get? n = some x := by
        obtain ⟨inc, hinc⟩ := Option.isSome_iff_exists.1 hexternal
        obtain ⟨x, hx, -⟩ := Option.bind_eq_some_iff.1 hinc
        exact ⟨x, hx⟩
      rw [hkinds]
      refine ⟨n, x.kind, rfl, by rw [getElem?_kinds, hx, Option.map_some], ?_⟩
      exact decide_eq_true ((isExternal_iff hx).1 hexternal)
  exact ⟨_, FileSnapshot.restore_eq_ok.2 ⟨o, ho, rfl⟩⟩

end Snapshot

end SourceFile

/-- A namespace is named once more when it is taken back. -/
theorem Entity.restoredName_namespace (e : Entity) (id : Nat) (nameOf : Nat → Option String)
    (hkind : e.kind = .namespaceDecl) {name : String} (hname : e.name = some name) :
    (e.snapshot id nameOf).restoredName = some (Qualified.canonical name) := by
  show (if e.kind = .namespaceDecl then some (Qualified.canonical (e.name.getD "")) else e.name) = _
  rw [if_pos hkind, hname, Option.getD_some]

/-- An entity that is taken back is named by its snapshot. -/
theorem FileSnapshot.name_restored {s : FileSnapshot} {g : SourceFile} (h : s.restore = .ok g)
    {i : Nat} {e : EntitySnapshot} (hpos : 0 < i) (he : s.inOrder[i]? = some e) :
    ∃ x, g.outline.get? i = some x ∧ x.name = e.restoredName := by
  obtain ⟨o, ho, hlinks⟩ := upToLinks_restore h
  obtain ⟨-, -, root, others, hs, hbares⟩ := outline?_spec ho
  obtain ⟨j, rfl⟩ : ∃ j, i = j + 1 := ⟨i - 1, by omega⟩
  rw [hs, List.getElem?_cons_succ] at he
  have hbare : g.outline.bares[j + 1]? = some e.bare := by
    rw [hlinks.bares]
    show o.bares[j + 1]? = _
    rw [hbares, bares_start, List.singleton_append, List.getElem?_cons_succ, List.getElem?_map, he,
      Option.map_some]
  rw [Outline.getElem?_bares] at hbare
  obtain ⟨x, hx, hsame⟩ := Option.map_eq_some_iff.1 hbare
  exact ⟨x, hx, congrArg Entity.name hsame⟩

end SymbolAtlas
