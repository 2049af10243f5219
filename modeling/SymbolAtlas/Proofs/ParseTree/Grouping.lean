import Mathlib
import SymbolAtlas.Proofs.ParseTree.Placement

/-!
# Statement lists with namespaces

A namespace without brackets takes in the statements that follow it, up to the next namespace of
either form.  `groups` says which nodes of a statement list come together that way, on the parse
trees alone.  `statements_grouping` says that the conversion of the list makes one tagged tree of
each group and that this loses nothing: with every such namespace emptied and put in front of what
it holds, the result is the conversion of each node, in the order of the list.
-/

namespace SymbolAtlas

namespace ParseTree

/-- The first child with a role. -/
def child? (t : ParseTree) (role : String) : Option ParseTree :=
  t.children.find? fun c => c.label.field == some role

/-- The node defines a namespace, with brackets or without. -/
def definesNamespace (t : ParseTree) : Bool :=
  t.label.type = "namespace_definition"

/-- The node defines a namespace in brackets. -/
def isBracketed (t : ParseTree) : Bool :=
  t.definesNamespace && (t.child? "body").isSome

/-- The node defines a namespace without brackets. -/
def isUnbracketed (t : ParseTree) : Bool :=
  t.definesNamespace && (t.child? "body").isNone

theorem definesNamespace_of_isUnbracketed {t : ParseTree} (h : t.isUnbracketed = true) :
    t.definesNamespace = true := by
  rw [isUnbracketed, Bool.and_eq_true] at h
  exact h.1

theorem isUnbracketed_eq_false {t : ParseTree} (h : t.definesNamespace = false) :
    t.isUnbracketed = false := by
  rw [isUnbracketed, h, Bool.false_and]

theorem isUnbracketed_of_isBracketed {t : ParseTree} (h : t.isBracketed = true) :
    t.isUnbracketed = false := by
  rw [isBracketed, Bool.and_eq_true] at h
  rw [isUnbracketed, h.1, Option.isNone_eq_false_iff.2 h.2]
  rfl

/-! ## Groups -/

/-- Nodes of a statement list that come together. -/
inductive Group where
  /-- A node that stays at the outer level. -/
  | outer (t : ParseTree)
  /-- A namespace without brackets, with the nodes that it owns. -/
  | space (t : ParseTree) (owned : List ParseTree)

namespace Group

/-- The nodes of a group, in their order. -/
def nodes : Group → List ParseTree
  | outer t => [t]
  | space t owned => t :: owned

/-- The tagged tree that a group is converted to.  A node at the outer level is converted by itself.
A namespace holds the conversions of the nodes that it owns, and its range reaches up to the last of
their ends and its own. -/
def Becomes : Group → Value → Prop
  | outer t, v => v = t.convert
  | space t owned, v => ∃ stop, IsGreatest {e | ∃ u ∈ t :: owned, u.label.stop = e} stop ∧
      v = { t.label with stop := stop }.tagged "namespace"
        [("name", t.convert.field "name"), ("children", .list (owned.map convert))]

/-- The tagged tree of a group with the namespace emptied, in a range of its own again, and followed
by what it held. -/
def unfolded : Group → Value → List Value
  | outer _, v => [v]
  | space t _, v =>
    t.label.tagged "namespace" [("name", v.field "name"), ("children", .list [])] ::
      (v.field "children").items?.getD []

end Group

/-- Which nodes of a statement list come together. -/
def groups : List ParseTree → List Group
  | [] => []
  | t :: rest =>
    if t.isUnbracketed then
      .space t (rest.takeWhile fun u => !u.definesNamespace) ::
        groups (rest.dropWhile fun u => !u.definesNamespace)
    else .outer t :: groups rest
termination_by ts => ts.length
decreasing_by
  · exact Nat.lt_succ_of_le (List.dropWhile_suffix _).length_le
  · exact Nat.lt_succ_self _

section Groups

variable {ts us owned : List ParseTree} {t : ParseTree}

theorem groups_cons_outer (ht : t.isUnbracketed = false) (rest : List ParseTree) :
    groups (t :: rest) = .outer t :: groups rest := by
  rw [groups, if_neg (by simp [ht])]

/-- A list that starts with a namespace is grouped by itself, whatever stands before it. -/
theorem groups_append (hus : ∀ u ∈ us.head?, u.definesNamespace = true) :
    groups (ts ++ us) = groups ts ++ groups us := by
  have htake : us.takeWhile (fun u => !u.definesNamespace) = [] := by
    cases us with
    | nil => rfl
    | cons u rest => rw [List.takeWhile_cons, if_neg (by simp [hus u rfl])]
  have hdrop : us.dropWhile (fun u => !u.definesNamespace) = us := by
    cases us with
    | nil => rfl
    | cons u rest => rw [List.dropWhile_cons, if_neg (by simp [hus u rfl])]
  fun_induction groups ts with
  | case1 => rfl
  | case2 t rest hopen ih =>
    have hdropped : (rest ++ us).dropWhile (fun u => !u.definesNamespace) =
        rest.dropWhile (fun u => !u.definesNamespace) ++ us := by
      rw [List.dropWhile_append, hdrop]
      split
      · rename_i hempty
        rw [List.isEmpty_iff.1 hempty, List.nil_append]
      · rfl
    have htaken : (rest ++ us).takeWhile (fun u => !u.definesNamespace) =
        rest.takeWhile (fun u => !u.definesNamespace) := by
      rw [List.takeWhile_append, htake, List.append_nil]
      split
      · rename_i hall
        exact ((List.takeWhile_prefix _).eq_of_length hall).symm
      · rfl
    rw [List.cons_append, groups, if_pos hopen, htaken, hdropped, ih, List.cons_append]
  | case3 t rest hplain ih =>
    rw [List.cons_append, groups, if_neg hplain, ih, List.cons_append]

/-- Nodes that take in nothing stay at the outer level. -/
theorem groups_outer (hts : ∀ u ∈ ts, u.isUnbracketed = false) (us : List ParseTree) :
    groups (ts ++ us) = ts.map .outer ++ groups us := by
  induction ts with
  | nil => rfl
  | cons u rest ih =>
    obtain ⟨hu, hrest⟩ := List.forall_mem_cons.1 hts
    rw [List.cons_append, groups_cons_outer hu, ih hrest]
    rfl

/-- A namespace without brackets owns what follows it up to the next namespace. -/
theorem groups_space (ht : t.isUnbracketed = true)
    (howned : ∀ u ∈ owned, u.definesNamespace = false)
    (hus : ∀ u ∈ us.head?, u.definesNamespace = true) :
    groups (t :: (owned ++ us)) = .space t owned :: groups us := by
  have hall : ∀ u ∈ owned, (!u.definesNamespace) = true := fun u hu => by
    rw [howned u hu]
    rfl
  have halone : groups (t :: owned) = [.space t owned] := by
    rw [groups, if_pos ht, List.takeWhile_eq_self_iff.2 hall, List.dropWhile_eq_nil_iff.2 hall,
      groups]
  rw [← List.cons_append, groups_append hus, halone, List.singleton_append]

end Groups

/-- How the nodes of a statement list come together. -/
structure Grouping (ts : List ParseTree) (gs : List Group) : Prop where
  /-- No node is lost, doubled or moved. -/
  nodes_eq : gs.flatMap Group.nodes = ts
  /-- Only namespaces without brackets own nodes, and no node that they own is a namespace. -/
  owner : ∀ t owned, Group.space t owned ∈ gs →
    t.isUnbracketed = true ∧ ∀ u ∈ owned, u.definesNamespace = false
  /-- A namespace without brackets owns exactly the nodes after it, up to the next namespace of
  either form or the end. -/
  owns : ∀ before t owned after, ts = before ++ t :: (owned ++ after) → t.isUnbracketed = true →
    (∀ u ∈ owned, u.definesNamespace = false) →
    (∀ u ∈ after.head?, u.definesNamespace = true) →
    ∃ gs₁ gs₂, gs = gs₁ ++ .space t owned :: gs₂ ∧ gs₁.flatMap Group.nodes = before
  /-- What comes before the first namespace, and what comes after one in brackets, stays at the
  outer level. -/
  outer : ∀ before free after, ts = before ++ (free ++ after) →
    (∀ t ∈ before.getLast?, t.isBracketed = true) → (∀ u ∈ free, u.definesNamespace = false) →
    ∃ gs₁ gs₂, gs = gs₁ ++ (free.map .outer ++ gs₂) ∧ gs₁.flatMap Group.nodes = before

theorem nodes_groups (ts : List ParseTree) : (groups ts).flatMap Group.nodes = ts := by
  fun_induction groups ts with
  | case1 => rfl
  | case2 t rest _ ih =>
    rw [List.flatMap_cons, ih, Group.nodes, List.cons_append, List.takeWhile_append_dropWhile]
  | case3 t rest _ ih =>
    rw [List.flatMap_cons, ih]
    rfl

theorem owner_of_mem_groups {ts : List ParseTree} {t : ParseTree} {owned : List ParseTree}
    (h : Group.space t owned ∈ groups ts) :
    t.isUnbracketed = true ∧ ∀ u ∈ owned, u.definesNamespace = false := by
  fun_induction groups ts with
  | case1 => cases h
  | case2 u rest hopen ih =>
    rcases List.mem_cons.1 h with heq | h
    · obtain ⟨rfl, rfl⟩ := Group.space.inj heq
      refine ⟨hopen, fun u hu => ?_⟩
      simpa using List.mem_takeWhile_imp hu
    · exact ih h
  | case3 u rest _ ih =>
    rcases List.mem_cons.1 h with heq | h
    · cases heq
    · exact ih h

/-- `groups` groups a list as described. -/
theorem grouping_groups (ts : List ParseTree) : Grouping ts (groups ts) where
  nodes_eq := nodes_groups ts
  owner := fun _ _ => owner_of_mem_groups
  owns := by
    rintro before t owned after rfl ht howned hafter
    refine ⟨groups before, groups after, ?_, nodes_groups before⟩
    have hhead : ∀ u ∈ (t :: (owned ++ after)).head?, u.definesNamespace = true := by
      rintro u ⟨⟩
      exact definesNamespace_of_isUnbracketed ht
    rw [groups_append hhead, groups_space ht howned hafter]
  outer := by
    rintro before free after rfl hlast hfree
    have houter : ∀ u ∈ free, u.isUnbracketed = false := fun u hu =>
      isUnbracketed_eq_false (hfree u hu)
    rcases before.eq_nil_or_concat' with rfl | ⟨earlier, t, rfl⟩
    · exact ⟨[], groups after, groups_outer houter after, rfl⟩
    · -- the bracketed namespace stays outside itself and ends whatever was open before it
      have ht : t.isBracketed = true := hlast t (by simp)
      have hhead : ∀ u ∈ (t :: (free ++ after)).head?, u.definesNamespace = true := by
        rintro u ⟨⟩
        rw [isBracketed, Bool.and_eq_true] at ht
        exact ht.1
      refine ⟨groups earlier ++ [.outer t], groups after, ?_, ?_⟩
      · rw [List.append_assoc, List.singleton_append, groups_append hhead,
          groups_cons_outer (isUnbracketed_of_isBracketed ht), groups_outer houter,
          List.append_assoc, List.singleton_append]
      · rw [List.flatMap_append, nodes_groups, List.flatMap_singleton, Group.nodes]

/-! ## The conversion of a group -/

theorem child?_render (t : ParseTree) (role : String) :
    Rendered.child? t.render.children role = (t.child? role).map render := by
  obtain ⟨l, cs⟩ := t
  show Rendered.child? (renderAll cs) role = _
  rw [renderAll_eq, Rendered.child?, List.find?_map]
  simp only [Function.comp_def, label_render]
  rfl

theorem opensNamespace_render (t : ParseTree) : opensNamespace t.render = t.isUnbracketed := by
  rw [opensNamespace, child?_render, label_render, isUnbracketed, definesNamespace,
    Option.isNone_map]

theorem isPlainStatement_render (t : ParseTree) :
    isPlainStatement t.render = !t.definesNamespace := by
  rw [isPlainStatement, label_render, definesNamespace, decide_not]

theorem takeWhile_render (ts : List ParseTree) :
    (ts.map render).takeWhile isPlainStatement =
      (ts.takeWhile fun u => !u.definesNamespace).map render := by
  rw [List.takeWhile_map]
  simp only [Function.comp_def, isPlainStatement_render]

theorem dropWhile_render (ts : List ParseTree) :
    (ts.map render).dropWhile isPlainStatement =
      (ts.dropWhile fun u => !u.definesNamespace).map render := by
  rw [List.dropWhile_map]
  simp only [Function.comp_def, isPlainStatement_render]

theorem convert_of_definesNamespace {t : ParseTree} (ht : t.definesNamespace = true) :
    t.convert = namespaceNode t.label t.render.children := by
  obtain ⟨l, cs⟩ := t
  have htype : l.type = "namespace_definition" := of_decide_eq_true ht
  show tagNode l (renderAll cs) = namespaceNode l (renderAll cs)
  simp only [tagNode, htype]

/-- A namespace without brackets holds nothing by itself. -/
theorem convert_of_isUnbracketed {t : ParseTree} (ht : t.isUnbracketed = true) :
    t.convert = t.label.tagged "namespace"
      [("name", .str ((Rendered.childText? t.render.children "name").getD "")),
        ("children", .list [])] := by
  have hnone : Rendered.child? t.render.children "body" = none := by
    rw [isUnbracketed, Bool.and_eq_true, Option.isNone_iff_eq_none] at ht
    rw [child?_render, ht.2, Option.map_none]
  rw [convert_of_definesNamespace (definesNamespace_of_isUnbracketed ht), namespaceNode, hnone]

theorem isGreatest_foldl_max (f : ParseTree → Int) (t : ParseTree) (us : List ParseTree) :
    IsGreatest {e | ∃ u ∈ t :: us, f u = e} (us.foldl (fun m u => max m (f u)) (f t)) := by
  refine ⟨?_, ?_⟩
  · induction us using List.reverseRecOn with
    | nil => exact ⟨t, List.mem_cons_self, rfl⟩
    | append_singleton us u ih =>
      obtain ⟨w, hw, hfw⟩ := ih
      rw [List.foldl_append, List.foldl_cons, List.foldl_nil]
      rcases le_total (us.foldl (fun m u => max m (f u)) (f t)) (f u) with hle | hle
      · exact ⟨u, by simp, (max_eq_right hle).symm⟩
      · exact ⟨w, by grind, hfw.trans (max_eq_left hle).symm⟩
  · rintro e ⟨u, hu, rfl⟩
    obtain ⟨hinit, hall⟩ := (foldl_max_le_iff f us (f t) _).1 le_rfl
    rcases List.mem_cons.1 hu with rfl | hu
    · exact hinit
    · exact hall u hu

theorem becomes_space {t : ParseTree} (ht : t.isUnbracketed = true) (owned : List ParseTree) :
    (Group.space t owned).Becomes
      (openNamespace t.render
        ((owned.map render).foldl (fun stop u => max stop u.label.stop) t.render.label.stop)
        ((owned.map render).map Rendered.value)) := by
  refine ⟨_, isGreatest_foldl_max (fun u => u.label.stop) t owned, ?_⟩
  have hname : t.convert.field "name" =
      .str ((Rendered.childText? t.render.children "name").getD "") := by
    rw [convert_of_isUnbracketed ht]
    rfl
  rw [hname, openNamespace, List.map_map, List.foldl_map]
  simp only [label_render]
  rfl

theorem forall₂_becomes (ts : List ParseTree) :
    List.Forall₂ Group.Becomes (groups ts) (statements (ts.map render)) := by
  fun_induction groups ts with
  | case1 =>
    rw [List.map_nil, statements_nil]
    exact .nil
  | case2 t rest hopen ih =>
    rw [List.map_cons, statements_cons, if_pos ((opensNamespace_render t).trans hopen),
      takeWhile_render, dropWhile_render]
    exact .cons (becomes_space hopen _) ih
  | case3 t rest hplain ih =>
    rw [List.map_cons, statements_cons, if_neg (by rwa [opensNamespace_render])]
    exact .cons rfl ih

/-- Unfolding the tagged tree of a group gives the conversions of its nodes. -/
theorem Group.unfolded_eq {g : Group} {v : Value} (h : g.Becomes v)
    (hspace : ∀ t owned, g = .space t owned → t.isUnbracketed = true) :
    g.unfolded v = g.nodes.map convert := by
  cases g with
  | outer t =>
    obtain rfl := h
    rfl
  | space t owned =>
    obtain ⟨stop, -, rfl⟩ := h
    have hname : t.convert = t.label.tagged "namespace"
        [("name", t.convert.field "name"), ("children", .list [])] := by
      rw [convert_of_isUnbracketed (hspace t owned rfl)]
      rfl
    rw [nodes, List.map_cons, hname]
    rfl

theorem flatten_unfolded {gs : List Group} {vs : List Value} (h : List.Forall₂ Group.Becomes gs vs)
    (hspace : ∀ t owned, Group.space t owned ∈ gs → t.isUnbracketed = true) :
    (List.zipWith Group.unfolded gs vs).flatten = (gs.flatMap Group.nodes).map convert := by
  induction h with
  | nil => rfl
  | @cons g v gs vs hg _ ih =>
    rw [List.zipWith_cons_cons, List.flatten_cons, List.flatMap_cons, List.map_append,
      ih fun t owned hmem => hspace t owned (.tail _ hmem),
      Group.unfolded_eq hg fun t owned heq => hspace t owned (heq ▸ .head _)]

/-- The conversion of a statement list makes one tagged tree of each of its groups.  With the
namespaces unfolded again the result is the conversion of each node, in the order of the list. -/
theorem statements_grouping (ts : List ParseTree) :
    ∃ gs : List Group, Grouping ts gs ∧
      List.Forall₂ Group.Becomes gs (statements (renderAll ts)) ∧
      (List.zipWith Group.unfolded gs (statements (renderAll ts))).flatten = ts.map convert := by
  have hgrouping := grouping_groups ts
  have hbecomes : List.Forall₂ Group.Becomes (groups ts) (statements (renderAll ts)) := by
    rw [renderAll_eq]
    exact forall₂_becomes ts
  refine ⟨groups ts, hgrouping, hbecomes, ?_⟩
  rw [flatten_unfolded hbecomes fun t owned hmem => (hgrouping.owner t owned hmem).1,
    hgrouping.nodes_eq]

end ParseTree

end SymbolAtlas
