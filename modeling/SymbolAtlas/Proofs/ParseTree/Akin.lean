import Mathlib
import SymbolAtlas.Proofs.Node.Contribution
import SymbolAtlas.Proofs.Node.Gist
import SymbolAtlas.Proofs.ParseTree.Placement

/-!
# Tagged trees of the same gist

Two values are akin if they contribute nodes of the same gist and look the same to the node that
holds them.  Each shape that the conversion knows passes this on from its parts: put together from
akin parts in the same way, tagged trees are akin, wherever they lie.
-/

namespace SymbolAtlas

/-- The values contribute the same to an outline, ranges aside. -/
structure Value.Akin (v w : Value) : Prop where
  gist : Node.gistAll (Node.ofValue v) = Node.gistAll (Node.ofValue w)
  kind : v.field "kind" = w.field "kind"
  name : Node.nameOf v = Node.nameOf w
  truthy : v.truthy = w.truthy

namespace Value.Akin

theorem refl (v : Value) : v.Akin v :=
  ⟨rfl, rfl, rfl, rfl⟩

/-- The blocks that bodies make of branches. -/
theorem gistArms_eq {vs ws : List Value} (h : List.Forall₂ Value.Akin vs ws) :
    Node.gistArms ((vs.filter Value.truthy).map armOf) =
      Node.gistArms ((ws.filter Value.truthy).map armOf) := by
  induction h with
  | nil => rfl
  | @cons v w vs ws hvw _ ih =>
    rw [List.filter_cons, List.filter_cons, hvw.truthy]
    split
    · rw [List.map_cons, List.map_cons, armOf, armOf, Node.gistArms, Node.gistArms, hvw.gist, ih]
    · exact ih

theorem getLast?_getD {vs ws : List Value} (h : List.Forall₂ Value.Akin vs ws) :
    (vs.getLast?.getD .null).Akin (ws.getLast?.getD .null) := by
  have hreverse := List.forall₂_reverse_iff.2 h
  rw [← List.head?_reverse, ← List.head?_reverse]
  generalize vs.reverse = vs' at hreverse ⊢
  generalize ws.reverse = ws' at hreverse ⊢
  cases hreverse with
  | nil => exact .refl _
  | cons hvw _ => exact hvw

end Value.Akin

namespace ParseTree

/-! ## Nodes of each shape -/

section Shapes

variable (l : TreeLabel)

/-- The gist of what a list of tagged values contributes. -/
theorem gistAll_list {vs : List Value} (h : ∀ v ∈ vs, v.isObject = true) :
    Node.gistAll (Node.ofValue (.list vs)) = vs.flatMap fun v => Node.gistAll (Node.ofValue v) := by
  rw [Node.ofValue_list, Node.gistAll_flatMap]
  induction vs with
  | nil => rfl
  | cons v rest ih =>
    obtain ⟨hv, hrest⟩ := List.forall_mem_cons.1 h
    rw [List.flatMap_cons, List.flatMap_cons, if_pos hv, ih hrest]

/-- If a value is one node around what one of its fields contributes, then its gist depends on the
gist of that field only. -/
theorem gistAll_of_shape {f : Value → Value} (shape : List Node → Node)
    (hf : ∀ v, Node.ofValue (f v) = [shape (Node.ofValue v)])
    (hshape : ∀ ns ms, Node.gistAll ns = Node.gistAll ms →
      Node.gist (shape ns) = Node.gist (shape ms))
    {v w : Value} (h : Node.gistAll (Node.ofValue v) = Node.gistAll (Node.ofValue w)) :
    Node.gistAll (Node.ofValue (f v)) = Node.gistAll (Node.ofValue (f w)) := by
  rw [hf, hf, Node.gistAll_singleton, Node.gistAll_singleton]
  exact hshape _ _ h

/-- Kind and range contribute no nodes. -/
theorem fieldNodes_tagged (kind : String) (fields : Ledger Value) :
    Node.fieldNodes
        (Reading.readFields (("kind", .str kind) :: ("range", l.range) :: fields)) =
      Node.fieldNodes (Reading.readFields fields) :=
  rfl

/-- The heading of a tagged node. -/
def bare (kind : String) : Heading where
  tag := kind
  span := l.span?
  range := l.range

/-- The heading of a tagged node that states its name. -/
def named (kind : String) (name : Value) : Heading :=
  { bare l kind with name := Node.nameOf (.object [("name", name)]) }

/-- A node of an unknown kind contributes what its fields contribute. -/
theorem gistAll_of_unknown {kind : String} (hkind : kind ∉ Node.ownTags)
    {fields fields' : Ledger Value}
    (h : Node.gistAll (Node.fieldNodes (Reading.readFields fields)) =
      Node.gistAll (Node.fieldNodes (Reading.readFields fields'))) :
    Node.gistAll (Node.ofValue (l.tagged kind fields)) =
      Node.gistAll (Node.ofValue (l.tagged kind fields')) := by
  have hnode : ∀ fs : Ledger Value, Node.gistAll (Node.ofValue (l.tagged kind fs)) =
      [.other (Heading.gist { tag := kind })
        (Node.gistAll (Node.fieldNodes (Reading.readFields fs)))] := by
    intro fs
    rw [← fieldNodes_tagged l kind fs]
    exact congrArg (fun n => Node.gistAll [n]) (Node.classify_of_other _ _ hkind)
  rw [hnode, hnode, h]

/-- A node without a shape of its own contributes what its children contribute, in a way that
depends on its type only. -/
theorem akin_generic {vs ws : List Value}
    (h : Node.gistAll (Node.ofValue (.list vs)) = Node.gistAll (Node.ofValue (.list ws))) :
    (l.tagged l.type [("children", .list vs)]).Akin (l.tagged l.type [("children", .list ws)]) := by
  refine ⟨?_, rfl, rfl, rfl⟩
  generalize l.type = tag
  have hfields : ∀ v : Value,
      Node.fieldNodes (Reading.readFields [("children", v)]) = Node.ofValue v :=
    fun v => List.append_nil _
  -- the children lie in the body of the node, or in its fields, or they do not count
  by_cases hnamespace : tag = "namespace"
  · subst hnamespace
    exact gistAll_of_shape (f := fun v => l.tagged "namespace" [("children", v)])
      (.namespaceNode (bare l "namespace")) (fun _ => rfl)
      (fun ns ms h => by simp only [Node.gist, h]) h
  by_cases hmethod : tag = "method"
  · subst hmethod
    exact gistAll_of_shape (f := fun v => l.tagged "method" [("children", v)])
      (.methodNode (bare l "method") []) (fun v => by rw [← hfields v]; rfl)
      (fun ns ms h => by simp only [Node.gist, h]) h
  by_cases hassign : tag = "assign"
  · subst hassign
    exact gistAll_of_shape (f := fun v => l.tagged "assign" [("children", v)])
      (.other (bare l "assign")) (fun v => by rw [← hfields v]; rfl)
      (fun ns ms h => by simp only [Node.gist, h]) h
  by_cases hown : tag ∈ Node.ownTags
  · simp only [Node.ownTags, List.mem_cons, List.not_mem_nil, or_false] at hown
    obtain rfl | rfl | rfl | rfl | rfl | rfl | rfl | rfl | rfl | rfl := hown
    all_goals first | rfl | contradiction
  · refine gistAll_of_unknown l hown ?_
    rw [hfields, hfields, h]

theorem akin_namespace (name : Value) {vs ws : List Value}
    (h : Node.gistAll (Node.ofValue (.list vs)) = Node.gistAll (Node.ofValue (.list ws))) :
    (l.tagged "namespace" [("name", name), ("children", .list vs)]).Akin
      (l.tagged "namespace" [("name", name), ("children", .list ws)]) := by
  refine ⟨?_, rfl, rfl, rfl⟩
  exact gistAll_of_shape (f := fun v => l.tagged "namespace" [("name", name), ("children", v)])
    (.namespaceNode (named l "namespace" name)) (fun _ => rfl)
    (fun ns ms h => by simp only [Node.gist, h]) h

theorem akin_declaration {kind : String}
    (hkind : kind ∈ ["class", "interface", "trait", "function", "method"]) (name : Value)
    {body body' : Value} (h : body.Akin body') :
    (l.tagged kind [("name", name), ("body", body)]).Akin
      (l.tagged kind [("name", name), ("body", body')]) := by
  refine ⟨?_, rfl, rfl, rfl⟩
  have hfields : ∀ v : Value, Node.fieldNodes (Reading.readFields [("name", name), ("body", v)]) =
      Node.ofValue name ++ Node.ofValue v :=
    fun v => congrArg (Node.ofValue name ++ ·) (List.append_nil _)
  have hother : ∀ ns ms, Node.gistAll ns = Node.gistAll ms →
      Node.gistAll (Node.ofValue name ++ ns) = Node.gistAll (Node.ofValue name ++ ms) := by
    intro ns ms h
    rw [Node.gistAll_append, Node.gistAll_append, h]
  simp only [List.mem_cons, List.not_mem_nil, or_false] at hkind
  obtain rfl | rfl | rfl | rfl | rfl := hkind
  · exact gistAll_of_shape (f := fun v => l.tagged "class" [("name", name), ("body", v)])
      (.classNode (named l "class" name)) (fun _ => rfl)
      (fun ns ms h => by simp only [Node.gist, h]) h.gist
  · refine gistAll_of_unknown l (by decide) ?_
    rw [hfields, hfields, hother _ _ h.gist]
  · refine gistAll_of_unknown l (by decide) ?_
    rw [hfields, hfields, hother _ _ h.gist]
  · exact gistAll_of_shape (f := fun v => l.tagged "function" [("name", name), ("body", v)])
      (.functionNode (named l "function" name)) (fun _ => rfl)
      (fun ns ms h => by simp only [Node.gist, h]) h.gist
  · exact gistAll_of_shape (f := fun v => l.tagged "method" [("name", name), ("body", v)])
      (fun ns => .methodNode (named l "method" name) ns (Node.ofValue name ++ ns))
      (fun v => by rw [← hfields v]; rfl)
      (fun ns ms h => by simp only [Node.gist, h, hother ns ms h]) h.gist

/-- An `if` contributes the blocks of its bodies. -/
theorem akin_if (test test' : Value) {body body' alternate alternate' : Value}
    (hbody : body.Akin body') (halternate : alternate.Akin alternate') :
    (l.tagged "if" [("test", test), ("body", body), ("alternate", alternate)]).Akin
      (l.tagged "if" [("test", test'), ("body", body'), ("alternate", alternate')]) := by
  refine ⟨?_, rfl, rfl, rfl⟩
  have hnode : ∀ test body alternate : Value, Node.ofValue
      (l.tagged "if" [("test", test), ("body", body), ("alternate", alternate)]) =
        [.branches (bare l "if") (([body, alternate].filter Value.truthy).map armOf)] :=
    fun test body alternate => congrArg (fun arms => [Node.branches (bare l "if") arms])
      (Node.ifArms_readFields [("kind", .str "if"), ("range", l.range), ("test", test),
        ("body", body), ("alternate", alternate)])
  rw [hnode, hnode, Node.gistAll_singleton, Node.gistAll_singleton, Node.gist, Node.gist,
    Value.Akin.gistArms_eq (.cons hbody (.cons halternate .nil))]

/-- A `try` contributes the blocks of its body, of its handlers and at its end. -/
theorem akin_try {body body' final final' : Value} {handlers handlers' : List Value}
    (hbody : body.Akin body') (hhandlers : List.Forall₂ Value.Akin
      ((handlers.filter Value.isObject).map (·.field "body"))
      ((handlers'.filter Value.isObject).map (·.field "body")))
    (hfinal : final.Akin final') :
    (l.tagged "try" [("body", body), ("catches", .list handlers), ("always", final)]).Akin
      (l.tagged "try" [("body", body'), ("catches", .list handlers'), ("always", final')]) := by
  refine ⟨?_, rfl, rfl, rfl⟩
  have hnode : ∀ (body final : Value) (handlers : List Value), Node.ofValue
      (l.tagged "try" [("body", body), ("catches", .list handlers), ("always", final)]) =
        [.branches (bare l "try") (((body ::
          (handlers.filter Value.isObject).map (·.field "body") ++
            [if final.truthy then final else .null]).filter Value.truthy).map armOf)] :=
    fun body final handlers => congrArg (fun arms => [Node.branches (bare l "try") arms])
      (Node.tryArms_readFields [("kind", .str "try"), ("range", l.range), ("body", body),
        ("catches", .list handlers), ("always", final)])
  have hlast : (if final.truthy then final else .null : Value).Akin
      (if final'.truthy then final' else .null) := by
    rw [hfinal.truthy]
    split
    · exact hfinal
    · exact .refl _
  have hbodies : List.Forall₂ Value.Akin
      (body :: (handlers.filter Value.isObject).map (·.field "body") ++
        [if final.truthy then final else .null])
      (body' :: (handlers'.filter Value.isObject).map (·.field "body") ++
        [if final'.truthy then final' else .null]) :=
    .cons hbody (List.rel_append hhandlers (.cons hlast .nil))
  rw [hnode, hnode, Node.gistAll_singleton, Node.gistAll_singleton, Node.gist, Node.gist,
    Value.Akin.gistArms_eq hbodies]

/-- An assignment contributes the variable on its left, or else what its sides contribute. -/
theorem akin_assign {left left' right right' : Value} (hleft : left.Akin left')
    (hright : right.Akin right') :
    (l.tagged "assign" [("left", left), ("right", right)]).Akin
      (l.tagged "assign" [("left", left'), ("right", right')]) := by
  refine ⟨?_, rfl, rfl, rfl⟩
  have hfields : ∀ left right : Value,
      Node.fieldNodes (Reading.readFields [("left", left), ("right", right)]) =
        Node.ofValue left ++ Node.ofValue right :=
    fun left right => congrArg (Node.ofValue left ++ ·) (List.append_nil _)
  have hnode : ∀ left right : Value, Node.ofValue
      (l.tagged "assign" [("left", left), ("right", right)]) =
        [if left.isVariable then
          .assignment { bare l "assign" with name := Node.nameOf left }
        else .other (bare l "assign") (Node.ofValue left ++ Node.ofValue right)] := by
    intro left right
    rw [← hfields, ← fieldNodes_tagged l "assign"]
    exact congrArg (fun n => [n]) (Node.classify_assign _ _)
  have hvariable : left'.isVariable = left.isVariable := by
    rw [Value.isVariable, Value.isVariable, hleft.kind]
  rw [hnode, hnode, Node.gistAll_singleton, Node.gistAll_singleton, hvariable, hleft.name]
  split
  · rfl
  · rw [Node.gist, Node.gist, Node.gistAll_append, Node.gistAll_append, hleft.gist, hright.gist]

theorem akin_include (once require : Bool) {target target' : Value}
    (h : (Node.includeTarget target).pathOnly = (Node.includeTarget target').pathOnly) :
    (l.tagged "include" [("once", .bool once), ("require", .bool require),
        ("target", target)]).Akin
      (l.tagged "include" [("once", .bool once), ("require", .bool require),
        ("target", target')]) := by
  refine ⟨?_, rfl, rfl, rfl⟩
  have hnode : ∀ target : Value, Node.ofValue (l.tagged "include"
      [("once", .bool once), ("require", .bool require), ("target", target)]) =
        [.includeNode (bare l "include") (Node.includeTarget target) once require] := fun _ => rfl
  rw [hnode, hnode, Node.gistAll_singleton, Node.gistAll_singleton, Node.gist, Node.gist, h]

end Shapes

end ParseTree

end SymbolAtlas
