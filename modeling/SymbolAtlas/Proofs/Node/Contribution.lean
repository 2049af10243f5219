import Mathlib
import SymbolAtlas.Node.Classify
import SymbolAtlas.Proofs.Outline.Walk

/-!
# What a tree contributes

`Value.contribution` reads off a tree which entities it declares, by recursion on the tree alone:
there is no outline, no pending documentation and no classification of nodes.  The scope whose body
is read, whether that scope is a class, and the number of the next entity are all it needs.
`Node.describesAll_ofValue` says that the classified nodes of a tree declare exactly that.
-/

namespace SymbolAtlas

/-- What an entity is, with what only entities of its kind state. -/
inductive Feature where
  | scope (kind : ScopeKind)
  | variable
  | external (target : Value) (once require : Bool)

/-- What a tree states of an entity. -/
structure Descriptor where
  feature : Feature
  name : Option String
  span : Option Span
  /-- The scope whose body states the entity. -/
  site : Nat

/-- The owner of a described entity: the file owns all namespaces, whatever body states them. -/
def Descriptor.owner (d : Descriptor) : Nat :=
  match d.feature with
  | .scope .namespaceScope => 0
  | _ => d.site

/-- Whether a namespace is described. -/
def Descriptor.IsNamespace (d : Descriptor) : Prop :=
  d.feature = .scope .namespaceScope

/-- Contributions one after the other, each numbered on from the one before it. -/
def inTurn : List (Nat → List Descriptor) → Nat → List Descriptor
  | [], _ => []
  | part :: rest, next => part next ++ inTurn rest (next + (part next).length)

namespace Value

/-- Whether a value is a node of the kind `variable`. -/
def isVariable (v : Value) : Bool :=
  match v.field "kind" with
  | .str "variable" => true
  | _ => false

theorem isVariable_iff {v : Value} : v.isVariable = true ↔ v.field "kind" = .str "variable" := by
  unfold isVariable
  constructor
  · intro h
    split at h
    · assumption
    · cases h
  · intro h
    simp only [h]

/-- The bodies of the branches of an `if`. -/
def ifBodies (node : Value) : List Value :=
  [node.field "body", node.field "alternate"].filter truthy

/-- The bodies of the catch clauses of a `try`. -/
def catchBodies (node : Value) : List Value :=
  (((node.field "catches").items?.getD []).filter isObject).map (·.field "body")

/-- The body that always runs at the end of a `try`, in either spelling of its field. -/
def finalBody (node : Value) : Value :=
  if (node.field "always").truthy then node.field "always" else node.field "allways"

/-- The bodies of the branches of a `try`. -/
def tryBodies (node : Value) : List Value :=
  (node.field "body" :: node.catchBodies ++ [node.finalBody]).filter truthy

theorem sizeOf_field_lt (fields : List (String × Value)) (key : String) :
    sizeOf ((Value.object fields).field key) < sizeOf (Value.object fields) := by
  have hmem : ∀ (fs : List (String × Value)) (v : Value), Ledger.get? fs key = some v →
      sizeOf v < sizeOf fs := by
    intro fs
    induction fs with
    | nil => intro v hv; cases hv
    | cons entry rest ih =>
      intro v hv
      obtain ⟨k, w⟩ := entry
      rw [Ledger.get?_cons] at hv
      simp only [List.cons.sizeOf_spec, Prod.mk.sizeOf_spec]
      split at hv
      · cases hv
        omega
      · have := ih v hv
        omega
  simp only [field, field?, object.sizeOf_spec]
  cases h : Ledger.get? fields key with
  | none =>
    have : 1 ≤ sizeOf fields := by
      cases fields with
      | nil => simp
      | cons entry rest =>
        simp only [List.cons.sizeOf_spec]
        omega
    simp only [Option.getD_none, null.sizeOf_spec]
    omega
  | some v =>
    have := hmem fields v h
    simp only [Option.getD_some]
    omega

theorem sizeOf_item_lt {items : List Value} {v : Value} (h : v ∈ items) :
    sizeOf v < sizeOf (Value.list items) := by
  have := List.sizeOf_lt_of_mem h
  simp only [list.sizeOf_spec]
  omega

theorem sizeOf_value_lt {fields : List (String × Value)} {entry : String × Value}
    (h : entry ∈ fields) : sizeOf entry.2 < sizeOf (Value.object fields) := by
  have := List.sizeOf_lt_of_mem h
  obtain ⟨k, v⟩ := entry
  simp only [object.sizeOf_spec, Prod.mk.sizeOf_spec] at this ⊢
  omega

theorem sizeOf_ifBodies_lt {fields : List (String × Value)} {b : Value}
    (h : b ∈ (Value.object fields).ifBodies) : sizeOf b < sizeOf (Value.object fields) := by
  have hmem := (List.mem_filter.1 h).1
  simp only [List.mem_cons, List.not_mem_nil, or_false] at hmem
  rcases hmem with rfl | rfl <;> exact sizeOf_field_lt fields _

theorem sizeOf_tryBodies_lt {fields : List (String × Value)} {b : Value}
    (h : b ∈ (Value.object fields).tryBodies) : sizeOf b < sizeOf (Value.object fields) := by
  have hmem := (List.mem_filter.1 h).1
  simp only [List.cons_append, List.mem_cons, List.mem_append, List.not_mem_nil, or_false] at hmem
  rcases hmem with rfl | hmem | rfl
  · exact sizeOf_field_lt fields _
  · obtain ⟨clause, hc, rfl⟩ := List.mem_map.1 hmem
    obtain ⟨hc, hobject⟩ := List.mem_filter.1 hc
    have hcatches := sizeOf_field_lt fields "catches"
    cases hf : (Value.object fields).field "catches" with
    | list items =>
      rw [hf] at hc hcatches
      have hclause : sizeOf clause < sizeOf (Value.list items) := sizeOf_item_lt hc
      cases clause with
      | object cs =>
        have := sizeOf_field_lt cs "body"
        omega
      | _ => cases hobject
    | _ =>
      rw [hf] at hc
      cases hc
  · unfold finalBody
    split <;> exact sizeOf_field_lt fields _

/-- An entity as a node states it. -/
def stated (node : Value) (site : Nat) (feature : Feature) : Descriptor where
  feature := feature
  name := Node.nameOf node
  span := Span.ofNode? node
  site := site

/-- The block of a branch. -/
def statedBlock (body : Value) (site : Nat) : Descriptor where
  feature := .scope .block
  name := none
  span := if body.isObject then Span.ofNode? body else none
  site := site

/-- What a value contributes to the scope `site`, numbered from `next` on.  A list contributes its
tagged items in order, a tagged object contributes itself, and any other value nothing. -/
def contribution (site : Nat) (inClass : Bool) : Value → Nat → List Descriptor
  | .list items, next =>
    inTurn (items.map fun item n => if item.isObject then item.contribution site inClass n else [])
      next
  | .object fields, next =>
    let node := Value.object fields
    -- what the fields contribute in written order, for nodes without a meaning of their own
    let inFields : List Descriptor :=
      inTurn (fields.map fun entry n =>
        if entry.1 = "kind" then [] else entry.2.contribution site inClass n) next
    match Ledger.get? fields "kind" with
    | some (.str tag) =>
      match tag with
      | "doc" | "comment" => []
      | "class" =>
        node.stated site (.scope .classScope) ::
          ((Value.object fields).field "body").contribution next true (next + 1)
      | "function" =>
        node.stated site (.scope (.functionScope false)) ::
          ((Value.object fields).field "body").contribution next false (next + 1)
      | "method" =>
        if inClass then
          node.stated site (.scope (.functionScope true)) ::
            ((Value.object fields).field "body").contribution next false (next + 1)
        else inFields
      | "namespace" =>
        { node.stated site (.scope .namespaceScope) with
          name := some (Qualified.canonical ((Node.nameOf node).getD "")) } ::
          ((Value.object fields).field "children").contribution next false (next + 1)
      | "include" =>
        [{ node.stated site
            (.external (Node.includeTarget (node.field "target")) (node.field "once").truthy
              (node.field "require").truthy) with name := none }]
      | "if" =>
        inTurn ((Value.object fields).ifBodies.attach.map fun body n =>
          body.1.statedBlock site :: body.1.contribution n false (n + 1)) next
      | "try" =>
        inTurn ((Value.object fields).tryBodies.attach.map fun body n =>
          body.1.statedBlock site :: body.1.contribution n false (n + 1)) next
      | "assign" =>
        if (node.field "left").isVariable then
          [{ node.stated site .variable with name := Node.nameOf (node.field "left") }]
        else inFields
      | _ => inFields
    | _ => []
  | _, _ => []
termination_by v => sizeOf v
decreasing_by
  all_goals first
    | exact sizeOf_item_lt ‹_›
    | exact sizeOf_value_lt ‹_›
    | exact sizeOf_ifBodies_lt (Subtype.property _)
    | exact sizeOf_tryBodies_lt (Subtype.property _)
    | exact sizeOf_field_lt _ _

end Value

/-! ## Readings of parts -/

namespace Reading

theorem value_ofValue (v : Value) : (ofValue v).value = v := by
  cases v <;> rfl

theorem readItems_eq (items : List Value) : readItems items = items.map ofValue := by
  induction items with
  | nil => rfl
  | cons v rest ih => rw [readItems, ih, List.map_cons]

theorem readFields_eq (fields : List (String × Value)) :
    readFields fields = fields.map fun entry => (entry.1, ofValue entry.2) := by
  induction fields with
  | nil => rfl
  | cons entry rest ih =>
    obtain ⟨k, v⟩ := entry
    rw [readFields, ih, List.map_cons]

/-- The reading of a field is the reading of the field's value. -/
theorem field_readFields (fields : List (String × Value)) (key : String) :
    field (readFields fields) key = ofValue ((Value.object fields).field key) := by
  have hget : (readFields fields).get? key = (Ledger.get? fields key).map ofValue := by
    induction fields with
    | nil => rfl
    | cons entry rest ih =>
      obtain ⟨k, v⟩ := entry
      rw [readFields, Ledger.get?_cons, Ledger.get?_cons, ih]
      split <;> rfl
  rw [field, hget, Value.field, Value.field?]
  cases Ledger.get? fields key <;> rfl

end Reading

/-- The block that a body makes of a branch. -/
def armOf (body : Value) : Arm :=
  (if body.isObject then Span.ofNode? body else none, Node.ofValue body)

theorem block?_ofValue (v : Value) :
    (Reading.ofValue v).block? = if v.truthy then some (armOf v) else none := by
  rw [Reading.block?, Reading.value_ofValue]
  rfl

theorem toList_block? (v : Value) :
    (Reading.ofValue v).block?.toList = ([v].filter Value.truthy).map armOf := by
  rw [block?_ofValue]
  by_cases h : v.truthy <;> simp [h]

namespace Node

theorem ifArms_readFields (fields : List (String × Value)) :
    ifArms (Reading.readFields fields) = (Value.object fields).ifBodies.map armOf := by
  simp only [ifArms, Reading.field_readFields, Value.ifBodies, List.filterMap_cons,
    List.filterMap_nil, block?_ofValue, List.filter_cons, List.filter_nil]
  split <;> split <;> simp_all

theorem clause_ofValue (v : Value) :
    (Reading.ofValue v).clause =
      if v.isObject then (Reading.ofValue (v.field "body")).block? else none := by
  cases v with
  | object fields =>
    have hclause : (Reading.ofValue (.object fields)).clause =
        (Reading.field (Reading.readFields fields) "body").block? := rfl
    rw [hclause, Reading.field_readFields]
    rfl
  | _ => rfl

theorem clauses_ofValue (v : Value) :
    (Reading.ofValue v).clauses =
      ((((v.items?.getD []).filter Value.isObject).map (·.field "body")).filter
        Value.truthy).map armOf := by
  cases v with
  | list items =>
    have hclauses : (Reading.ofValue (.list items)).clauses =
        (Reading.readItems items).filterMap (·.clause) := rfl
    rw [hclauses, Reading.readItems_eq]
    clear hclauses
    simp only [Value.items?, Option.getD_some]
    induction items with
    | nil => rfl
    | cons item rest ih =>
      simp only [List.map_cons, List.filterMap_cons, clause_ofValue, block?_ofValue,
        List.filter_cons]
      by_cases ho : item.isObject
      · by_cases ht : (item.field "body").truthy <;> simp_all
      · simp_all
  | _ => rfl

theorem tryArms_readFields (fields : List (String × Value)) :
    tryArms (Reading.readFields fields) = (Value.object fields).tryBodies.map armOf := by
  have hfinal : (finalArm (Reading.readFields fields)).toList =
      ([(Value.object fields).finalBody].filter Value.truthy).map armOf := by
    simp only [finalArm, Reading.field_readFields, block?_ofValue, Value.finalBody]
    split
    · rename_i h
      simp [h]
    · rename_i h
      simp only [Option.none_or]
      split <;> simp_all
  simp only [tryArms, Reading.field_readFields, toList_block?, clauses_ofValue, hfinal,
    Value.tryBodies, Value.catchBodies, List.cons_append, List.filter_cons, List.filter_append,
    List.filter_nil]
  split <;> simp

theorem fieldNodes_readFields (fields : List (String × Value)) :
    fieldNodes (Reading.readFields fields) =
      fields.flatMap fun entry => if entry.1 = "kind" then [] else ofValue entry.2 := by
  rw [fieldNodes, Reading.readFields_eq]
  induction fields with
  | nil => rfl
  | cons entry rest ih =>
    simp only [List.map_cons, List.filter_cons, List.flatMap_cons]
    by_cases hk : entry.1 = "kind"
    · simpa [hk] using ih
    · simp only [hk, ne_eq, not_false_eq_true, decide_true, ↓reduceIte, List.flatMap_cons]
      rw [ih]
      rfl

/-- The tags of the nodes that have a meaning of their own. -/
def ownTags : List String :=
  ["doc", "comment", "class", "function", "method", "namespace", "include", "if", "try", "assign"]

section Classify

variable (node : Value) (fields : Ledger Reading)

/-- An assignment counts if there is a variable on its left, and else is like any other node. -/
theorem classify_assign : classify "assign" node fields =
    if (node.field "left").isVariable then
      .assignment { tag := "assign", span := Span.ofNode? node, range := node.field "range",
                    name := nameOf (node.field "left") }
    else
      .other { tag := "assign", span := Span.ofNode? node, range := node.field "range" }
        (fieldNodes fields) := by
  unfold classify
  simp only
  by_cases hleft : (node.field "left").field "kind" = .str "variable"
  · rw [if_pos (Value.isVariable_iff.2 hleft)]
    simp only [hleft]
  · rw [if_neg (mt Value.isVariable_iff.1 hleft)]
    split
    · exact absurd ‹_› hleft
    · rfl

theorem classify_of_other {tag : String} (h : tag ∉ ownTags) : classify tag node fields =
    .other { tag := tag, span := Span.ofNode? node, range := node.field "range" }
      (fieldNodes fields) := by
  unfold classify
  simp only
  split
  all_goals first | rfl | exact absurd (by decide) h

end Classify

theorem ofValue_of_kind {fields : Ledger Value} {tag : String}
    (h : Ledger.get? fields "kind" = some (.str tag)) :
    ofValue (.object fields) = [classify tag (.object fields) (Reading.readFields fields)] := by
  simp only [ofValue, Reading.ofValue, Reading.ofFields, h]

theorem ofValue_of_no_kind {fields : Ledger Value}
    (h : ∀ tag, Ledger.get? fields "kind" = some (.str tag) → False) :
    ofValue (.object fields) = [] := by
  simp only [ofValue, Reading.ofValue, Reading.ofFields]

theorem ofValue_list (items : List Value) :
    ofValue (.list items) = items.flatMap fun v => if v.isObject then ofValue v else [] := by
  have hnodes : ofValue (.list items) =
      ((Reading.readItems items).filter fun r => r.value.isObject).flatMap (·.nodes) := rfl
  rw [hnodes, Reading.readItems_eq]
  clear hnodes
  induction items with
  | nil => rfl
  | cons v rest ih =>
    simp only [List.map_cons, List.filter_cons, Reading.value_ofValue, List.flatMap_cons] at ih ⊢
    split
    · rw [List.flatMap_cons, ih]
      rfl
    · rw [ih]
      rfl

end Node

/-! ## Descriptors of declarations -/

/-- What an entity is, with what only entities of its kind state. -/
def Entity.feature (e : Entity) : Feature :=
  match e.detail with
  | .scope k _ => .scope k
  | .variable => .variable
  | .external i => .external i.target i.once i.require

/-- What a declaration states, its documentation aside. -/
def Declaration.descriptor (d : Declaration) : Descriptor where
  feature := d.entity.feature
  name := d.entity.name
  span := d.entity.span
  site := d.site

theorem Declaration.owner_descriptor (d : Declaration) : d.descriptor.owner = d.owner := by
  obtain ⟨site, ⟨detail, name, parent, span, doc⟩⟩ := d
  cases detail with
  | scope k b => cases k <;> rfl
  | «variable» => rfl
  | external i => rfl

namespace Node

/-- What a node states one after the other. -/
def describes (site : Nat) (inClass : Bool) (next : Nat) (n : Node) : List Descriptor :=
  (declares site inClass next none n).1.map Declaration.descriptor

/-- What nodes state one after the other. -/
def describesAll (site : Nat) (inClass : Bool) (next : Nat) (ns : List Node) : List Descriptor :=
  (declaresAll site inClass next none ns).1.map Declaration.descriptor

section Describes

variable (site : Nat) (inClass : Bool) (next : Nat)

/-- Pending documentation changes only the documentation. -/
theorem map_declares (pending : Option String) (n : Node) :
    (declares site inClass next pending n).1.map Declaration.descriptor =
      describes site inClass next n := by
  rw [describes]
  cases n with
  | methodNode h body fields =>
    rw [declares, declares]
    split <;> rfl
  | _ => rfl

theorem map_declaresAll (pending : Option String) (ns : List Node) :
    (declaresAll site inClass next pending ns).1.map Declaration.descriptor =
      describesAll site inClass next ns := by
  rw [describesAll]
  induction ns generalizing next pending with
  | nil => rfl
  | cons n rest ih =>
    have hlength : (declares site inClass next pending n).1.length =
        (declares site inClass next none n).1.length := by
      have := congrArg List.length (map_declares site inClass next pending n)
      simpa [describes] using this
    simp only [declaresAll, List.map_append, map_declares, hlength]
    rw [ih, ← ih]

theorem describesAll_cons (n : Node) (rest : List Node) :
    describesAll site inClass next (n :: rest) =
      describes site inClass next n ++
        describesAll site inClass (next + (describes site inClass next n).length) rest := by
  rw [describesAll, declaresAll]
  simp only [List.map_append, map_declares, map_declaresAll]
  simp only [describes, List.length_map]

theorem describesAll_singleton (n : Node) :
    describesAll site inClass next [n] = describes site inClass next n := by
  rw [describesAll_cons]
  simp [describesAll, declaresAll]

theorem describesAll_append (ns ms : List Node) :
    describesAll site inClass next (ns ++ ms) =
      describesAll site inClass next ns ++
        describesAll site inClass (next + (describesAll site inClass next ns).length) ms := by
  induction ns generalizing next with
  | nil => simp [describesAll, declaresAll]
  | cons n rest ih =>
    rw [List.cons_append, describesAll_cons, ih, describesAll_cons]
    simp [Nat.add_assoc]

/-- Nodes that come in groups contribute group after group. -/
theorem describesAll_flatMap {α : Type} (f : α → List Node) (xs : List α) :
    describesAll site inClass next (xs.flatMap f) =
      inTurn (xs.map fun x n => describesAll site inClass n (f x)) next := by
  induction xs generalizing next with
  | nil => rfl
  | cons x rest ih => rw [List.flatMap_cons, describesAll_append, List.map_cons, inTurn, ih]

/-- Branches contribute a block each, with what the body of the branch contributes to it. -/
theorem map_declaresArms (bodies : List Value) :
    (declaresArms site next (bodies.map armOf)).map Declaration.descriptor =
      inTurn (bodies.map fun body n =>
        body.statedBlock site :: describesAll n false (n + 1) (ofValue body)) next := by
  induction bodies generalizing next with
  | nil => rfl
  | cons body rest ih =>
    simp only [List.map_cons, armOf, declaresArms, List.map_append, ih, inTurn]
    simp [describesAll, Declaration.descriptor, Value.statedBlock, blockEntity, Entity.feature,
      ofValue]

end Describes

theorem inTurn_congr {α : Type} {xs : List α} {f g : α → Nat → List Descriptor}
    (h : ∀ x ∈ xs, f x = g x) (next : Nat) : inTurn (xs.map f) next = inTurn (xs.map g) next := by
  rw [List.map_congr_left h]

/-- The classified nodes of a value state what the value contributes. -/
theorem describesAll_ofValue (v : Value) (site : Nat) (inClass : Bool) (next : Nat) :
    describesAll site inClass next (ofValue v) = v.contribution site inClass next := by
  induction hn : sizeOf v using Nat.strong_induction_on generalizing v site inClass next with
  | _ n ih =>
    subst hn
    cases v with
    | list items =>
      rw [ofValue_list, describesAll_flatMap, Value.contribution]
      refine inTurn_congr (fun item hitem => ?_) next
      funext m
      split
      · exact ih _ (Value.sizeOf_item_lt hitem) item site inClass m rfl
      · rfl
    | object fields =>
      -- the body of a declared scope, which has the number `next`
      have hbody : ∀ (key : String) (c : Bool),
          describesAll next c (next + 1) (Reading.field (Reading.readFields fields) key).nodes =
            ((Value.object fields).field key).contribution next c (next + 1) := by
        intro key c
        rw [Reading.field_readFields]
        exact ih _ (Value.sizeOf_field_lt fields key) _ next c (next + 1) rfl
      have hfields : describesAll site inClass next (fieldNodes (Reading.readFields fields)) =
          inTurn (fields.map fun entry n =>
            if entry.1 = "kind" then [] else entry.2.contribution site inClass n) next := by
        rw [fieldNodes_readFields, describesAll_flatMap]
        refine inTurn_congr (fun entry hentry => ?_) next
        funext m
        split
        · rfl
        · exact ih _ (Value.sizeOf_value_lt hentry) entry.2 site inClass m rfl
      have harms : ∀ bodies : List Value, (∀ b ∈ bodies, sizeOf b < sizeOf (Value.object fields)) →
          (declaresArms site next (bodies.map armOf)).map Declaration.descriptor =
            inTurn (bodies.attach.map fun body n =>
              body.1.statedBlock site :: body.1.contribution n false (n + 1)) next := by
        intro bodies hlt
        rw [map_declaresArms, List.attach_map_val
          (f := fun (b : Value) n => b.statedBlock site :: b.contribution n false (n + 1))]
        refine inTurn_congr (fun body hbody => ?_) next
        funext m
        rw [ih _ (hlt body hbody) body m false (m + 1) rfl]
      rw [Value.contribution]
      split
      · rename_i tag hkind
        rw [ofValue_of_kind hkind, describesAll_singleton]
        -- the cases are those of the contribution, and the node is classified in each of them
        generalize hnode : classify tag (.object fields) (Reading.readFields fields) = node
        split
        all_goals subst hnode
        · unfold classify
          simp only
          split <;> rfl
        · unfold classify
          simp only
          split <;> rfl
        · exact congrArg (_ :: ·) (hbody "body" true)
        · exact congrArg (_ :: ·) (hbody "body" false)
        · cases inClass with
          | true => exact congrArg (_ :: ·) (hbody "body" false)
          | false => exact hfields
        · exact congrArg (_ :: ·) (hbody "children" false)
        · rfl
        · show (declaresArms site next (ifArms (Reading.readFields fields))).map _ = _
          rw [ifArms_readFields]
          exact harms _ fun _ => Value.sizeOf_ifBodies_lt
        · show (declaresArms site next (tryArms (Reading.readFields fields))).map _ = _
          rw [tryArms_readFields]
          exact harms _ fun _ => Value.sizeOf_tryBodies_lt
        · rw [classify_assign]
          split
          · rfl
          · exact hfields
        · have hother : tag ∉ ownTags := by
            simp only [ownTags, List.mem_cons, List.not_mem_nil, or_false, not_or]
            and_intros <;> assumption
          rw [classify_of_other _ _ hother]
          exact hfields
      · rename_i hkind
        rw [ofValue_of_no_kind hkind]
        rfl
    | _ =>
      simp only [Value.contribution]
      rfl

end Node

end SymbolAtlas
