import Mathlib
import SymbolAtlas.Proofs.Node.Contribution

/-!
# The stream of a body

What the walk of a scope body meets can be written in one line: documentation, declarations, and
marks for all other nodes, with the nodes in the fields of such a node right behind its mark
(`Value.stream`).  The body of a declaration is no part of the line; it has a line of its own.  An
entity is documented by what stands directly before it in its line, and by nothing else.

`Node.reads_ofValue` says that this is what the classified nodes of a value declare, with one
pending text threaded through them all.
-/

namespace SymbolAtlas

/-- What a node states of the entity that it declares. -/
structure Profile where
  feature : Feature
  name : Option String
  span : Option Span

/-- What a walk meets in a body. -/
inductive Token where
  | doc (text : String)
  /-- A declaration, with the stream of its own body. -/
  | decl (entity : Profile) (body : List Token)
  /-- Any other node, with the blocks of its branches and their streams. -/
  | mark (blocks : List (Profile × List Token))

/-- The documentation at the end of a stream. -/
def lastDoc (stream : List Token) : Option String :=
  match stream.getLast? with
  | some (.doc text) => some text
  | _ => none

theorem lastDoc_eq_some_iff {stream : List Token} {text : String} :
    lastDoc stream = some text ↔ stream.getLast? = some (.doc text) := by
  unfold lastDoc
  split
  · rename_i other hother
    rw [hother, Option.some.injEq, Option.some.injEq, Token.doc.injEq]
  · rename_i hnone
    constructor
    · intro h
      cases h
    · intro h
      exact absurd h (hnone text)

theorem lastDoc_concat (before : List Token) (t : Token) :
    lastDoc (before ++ [t]) = lastDoc [t] := by
  rw [lastDoc, lastDoc, List.getLast?_concat]
  rfl

/-! ## Places of entities -/

/-- The place at which an entity is stated. -/
structure Spot where
  /-- What stands before it, in the stream of the body that states it. -/
  before : List Token
  entity : Profile
  /-- Whether the entity is the block of a branch. -/
  isBlock : Bool

/-- The documentation of the entity at a place.  Blocks have none. -/
def Spot.doc? (s : Spot) : Option String :=
  if s.isBlock then none else lastDoc s.before

/-- What is stated of the entity at a place, with its documentation. -/
def Spot.note (s : Spot) : Profile × Option String :=
  (s.entity, s.doc?)

mutual

/-- The places that a token leads to: its own, and those in the bodies that come with it. -/
def Token.spots (before : List Token) : Token → List Spot
  | .doc _ => []
  | .decl entity body => { before, entity, isBlock := false } :: spotsFrom [] body
  | .mark blocks => blockSpots before blocks
termination_by structural t => t

/-- The places in the rest of a stream, in the order in which the walk comes to them. -/
def spotsFrom (before : List Token) : List Token → List Spot
  | [] => []
  | t :: rest => t.spots before ++ spotsFrom (before ++ [t]) rest
termination_by structural ts => ts

/-- The places that the blocks of a mark lead to. -/
def blockSpots (before : List Token) : List (Profile × List Token) → List Spot
  | [] => []
  | (entity, body) :: rest =>
    { before, entity, isBlock := true } :: spotsFrom [] body ++ blockSpots before rest
termination_by structural blocks => blocks

end

theorem spotsFrom_append (before ts us : List Token) :
    spotsFrom before (ts ++ us) = spotsFrom before ts ++ spotsFrom (before ++ ts) us := by
  induction ts generalizing before with
  | nil => rw [List.nil_append, List.append_nil, spotsFrom, List.nil_append]
  | cons t rest ih =>
    rw [List.cons_append, spotsFrom, spotsFrom, ih, List.append_assoc, List.append_assoc,
      List.singleton_append]

/-- The streams of a stream: its own, and those of the bodies in it. -/
inductive Within (stream : List Token) : List Token → Prop
  | whole : Within stream stream
  | body {before after body : List Token} {entity : Profile}
      (h : Within stream (before ++ .decl entity body :: after)) : Within stream body
  | block {before after body : List Token} {entity : Profile}
      {blocks : List (Profile × List Token)}
      (h : Within stream (before ++ .mark blocks :: after)) (hblock : (entity, body) ∈ blocks) :
      Within stream body

/-- In some body of the stream, the place is that of a declaration, or of a mark with such a
block. -/
def Spot.LiesIn (s : Spot) (stream : List Token) : Prop :=
  ∃ t after, Within stream (s.before ++ t :: after) ∧
    if s.isBlock then ∃ blocks body, t = .mark blocks ∧ (s.entity, body) ∈ blocks
    else ∃ body, t = .decl s.entity body

mutual

theorem liesIn_of_mem_spots {stream : List Token} : ∀ (t : Token) (before after : List Token),
    Within stream (before ++ t :: after) → ∀ s ∈ t.spots before, s.LiesIn stream
  | .doc _, before, after, _, s, hs => by
    rw [Token.spots] at hs
    cases hs
  | .decl entity body, before, after, h, s, hs => by
    rw [Token.spots] at hs
    rcases List.mem_cons.1 hs with rfl | hs
    · exact ⟨.decl entity body, after, h, body, rfl⟩
    · exact liesIn_of_mem_spotsFrom body [] h.body s hs
  | .mark blocks, before, after, h, s, hs => by
    rw [Token.spots] at hs
    exact liesIn_of_mem_blockSpots blocks blocks before after h (fun _ hblock => hblock) s hs

theorem liesIn_of_mem_spotsFrom {stream : List Token} : ∀ (ts before : List Token),
    Within stream (before ++ ts) → ∀ s ∈ spotsFrom before ts, s.LiesIn stream
  | [], before, _, s, hs => by
    rw [spotsFrom] at hs
    cases hs
  | t :: rest, before, h, s, hs => by
    rw [spotsFrom] at hs
    rcases List.mem_append.1 hs with hs | hs
    · exact liesIn_of_mem_spots t before rest h s hs
    · exact liesIn_of_mem_spotsFrom rest (before ++ [t]) (List.append_cons before t rest ▸ h) s hs

theorem liesIn_of_mem_blockSpots {stream : List Token} :
    ∀ (rest blocks : List (Profile × List Token)) (before after : List Token),
      Within stream (before ++ .mark blocks :: after) → (∀ block ∈ rest, block ∈ blocks) →
        ∀ s ∈ blockSpots before rest, s.LiesIn stream
  | [], blocks, before, after, _, _, s, hs => by
    rw [blockSpots] at hs
    cases hs
  | (entity, body) :: rest, blocks, before, after, h, hrest, s, hs => by
    have hblock : (entity, body) ∈ blocks := hrest _ (.head _)
    rw [blockSpots] at hs
    rcases List.mem_append.1 hs with hs | hs
    · rcases List.mem_cons.1 hs with rfl | hs
      · exact ⟨.mark blocks, after, h, blocks, body, rfl, hblock⟩
      · exact liesIn_of_mem_spotsFrom body [] (h.block hblock) s hs
    · exact liesIn_of_mem_blockSpots rest blocks before after h
        (fun block hmem => hrest block (.tail _ hmem)) s hs

end

/-! ## The stream of a value -/

namespace Value

/-- An entity as a node states it. -/
def profile (node : Value) (feature : Feature) : Profile where
  feature := feature
  name := Node.nameOf node
  span := Span.ofNode? node

/-- The block of a branch. -/
def blockProfile (body : Value) : Profile where
  feature := .scope .block
  name := none
  span := if body.isObject then Span.ofNode? body else none

/-- What a walk of the value meets.  A list is walked item by item, as far as its items are tagged
objects; a node without a meaning of its own is walked field by field, in written order. -/
def stream (inClass : Bool) : Value → List Token
  | .list items =>
    items.flatMap fun item => if item.isObject then item.stream inClass else []
  | .object fields =>
    let node := Value.object fields
    let generic : List Token :=
      .mark [] :: fields.flatMap fun entry =>
        if entry.1 = "kind" then [] else entry.2.stream inClass
    match Ledger.get? fields "kind" with
    | some (.str tag) =>
      match tag with
      | "doc" | "comment" => ((Node.docText tag node).map Token.doc).toList
      | "class" =>
        [.decl (node.profile (.scope .classScope))
          (((Value.object fields).field "body").stream true)]
      | "function" =>
        [.decl (node.profile (.scope (.functionScope false)))
          (((Value.object fields).field "body").stream false)]
      | "method" =>
        if inClass then
          [.decl (node.profile (.scope (.functionScope true)))
            (((Value.object fields).field "body").stream false)]
        else generic
      | "namespace" =>
        [.decl { node.profile (.scope .namespaceScope) with
            name := some (Qualified.canonical ((Node.nameOf node).getD "")) }
          (((Value.object fields).field "children").stream false)]
      | "include" =>
        [.decl { node.profile (.external (Node.includeTarget (node.field "target"))
            (node.field "once").truthy (node.field "require").truthy) with name := none } []]
      | "if" =>
        [.mark ((Value.object fields).ifBodies.attach.map fun body =>
          (body.1.blockProfile, body.1.stream false))]
      | "try" =>
        [.mark ((Value.object fields).tryBodies.attach.map fun body =>
          (body.1.blockProfile, body.1.stream false))]
      | "assign" =>
        if (node.field "left").isVariable then
          [.decl { node.profile .variable with name := Node.nameOf (node.field "left") } []]
        else generic
      | _ => generic
    | _ => []
  | _ => []
termination_by v => sizeOf v
decreasing_by
  all_goals first
    | exact sizeOf_item_lt ‹_›
    | exact sizeOf_value_lt ‹_›
    | exact sizeOf_ifBodies_lt (Subtype.property _)
    | exact sizeOf_tryBodies_lt (Subtype.property _)
    | exact sizeOf_field_lt _ _

end Value

/-! ## Nodes that read as a stream -/

/-- What is stated of an entity, its place aside. -/
def Entity.profile (e : Entity) : Profile where
  feature := e.feature
  name := e.name
  span := e.span

/-- What a declaration states, with its documentation. -/
def Declaration.note (d : Declaration) : Profile × Option String :=
  (d.entity.profile, d.entity.doc)

namespace Node

/-- The nodes declare what the stream leads to, each entity with the documentation before it, and
leave pending what the stream ends with. -/
def Reads (inClass : Bool) (ns : List Node) (stream : List Token) : Prop :=
  ∀ (site next : Nat) (before : List Token),
    (declaresAll site inClass next (lastDoc before) ns).1.map Declaration.note =
      (spotsFrom before stream).map Spot.note ∧
    (declaresAll site inClass next (lastDoc before) ns).2 = lastDoc (before ++ stream)

section Reads

variable {inClass : Bool}

theorem Reads.nil : Reads inClass [] [] := by
  intro site next before
  rw [declaresAll, spotsFrom, List.append_nil]
  exact ⟨rfl, rfl⟩

theorem Reads.append {ns ms : List Node} {ts us : List Token} (hns : Reads inClass ns ts)
    (hms : Reads inClass ms us) : Reads inClass (ns ++ ms) (ts ++ us) := by
  intro site next before
  obtain ⟨hfirst, hpending⟩ := hns site next before
  rw [declaresAll_append, hpending]
  obtain ⟨hrest, hend⟩ := hms site
    (next + (declaresAll site inClass next (lastDoc before) ns).1.length) (before ++ ts)
  exact ⟨by rw [List.map_append, hfirst, hrest, spotsFrom_append, List.map_append],
    by rw [hend, List.append_assoc]⟩

theorem Reads.flatMap {α : Type} {f : α → List Node} {g : α → List Token} {xs : List α}
    (h : ∀ x ∈ xs, Reads inClass (f x) (g x)) : Reads inClass (xs.flatMap f) (xs.flatMap g) := by
  induction xs with
  | nil => exact .nil
  | cons x rest ih =>
    obtain ⟨hx, hrest⟩ := List.forall_mem_cons.1 h
    exact hx.append (ih hrest)

/-- What a single node has to declare and to leave pending. -/
theorem reads_singleton_iff {n : Node} {stream : List Token} :
    Reads inClass [n] stream ↔ ∀ (site next : Nat) (before : List Token),
      (declares site inClass next (lastDoc before) n).1.map Declaration.note =
        (spotsFrom before stream).map Spot.note ∧
      (declares site inClass next (lastDoc before) n).2 = lastDoc (before ++ stream) := by
  simp only [Reads, declaresAll, List.append_nil]

variable {h : Heading} {body fields : List Node} {stream : List Token}

/-- A comment reads as its documentation text, and a plain comment as nothing. -/
theorem reads_comment (text? : Option String) :
    Reads inClass [match text? with | some text => documentation h text | none => remark h]
      (text?.map Token.doc).toList := by
  refine reads_singleton_iff.2 fun site next before => ?_
  cases text? with
  | none =>
    rw [Option.map_none, Option.toList_none, spotsFrom, List.append_nil]
    exact ⟨rfl, rfl⟩
  | some text =>
    rw [Option.map_some, Option.toList_some, lastDoc_concat]
    exact ⟨rfl, rfl⟩

/-- A node that declares a scope, whose body starts without documentation. -/
theorem reads_scope {n : Node} {entity : Option String → Entity} {c : Bool} {p : Profile}
    (hdeclares : ∀ site next pending, declares site inClass next pending n =
      (⟨site, entity pending⟩ :: (declaresAll next c (next + 1) none body).1, none))
    (hnote : ∀ pending, (entity pending).profile = p ∧ (entity pending).doc = pending)
    (hbody : Reads c body stream) : Reads inClass [n] [.decl p stream] := by
  refine reads_singleton_iff.2 fun site next before => ?_
  obtain ⟨hin, -⟩ := hbody next (next + 1) []
  obtain ⟨hprofile, hdoc⟩ := hnote (lastDoc before)
  rw [hdeclares, lastDoc_concat]
  refine ⟨?_, rfl⟩
  rw [spotsFrom, spotsFrom, Token.spots, List.append_nil, List.map_cons, List.map_cons,
    Declaration.note, hprofile, hdoc]
  exact congrArg (_ :: ·) hin

/-- A node that declares something without a body. -/
theorem reads_leaf {n : Node} {entity : Option String → Entity} {p : Profile}
    (hdeclares : ∀ site next pending, declares site inClass next pending n =
      ([⟨site, entity pending⟩], none))
    (hnote : ∀ pending, (entity pending).profile = p ∧ (entity pending).doc = pending) :
    Reads inClass [n] [.decl p []] :=
  reads_scope (c := false) hdeclares hnote .nil

/-- A node that takes the documentation away and goes on with its fields. -/
theorem reads_generic {n : Node}
    (hdeclares : ∀ site next pending, declares site inClass next pending n =
      declaresAll site inClass next none fields)
    (hfields : Reads inClass fields stream) : Reads inClass [n] (.mark [] :: stream) := by
  refine reads_singleton_iff.2 fun site next before => ?_
  obtain ⟨hin, hend⟩ := hfields site next (before ++ [.mark []])
  have hnone : lastDoc (before ++ [.mark []]) = none := lastDoc_concat before _
  rw [hnone] at hin hend
  rw [hdeclares, spotsFrom, Token.spots, blockSpots, List.nil_append]
  exact ⟨hin, hend.trans (by rw [List.append_assoc, List.singleton_append])⟩

theorem reads_branches {bodies : List Value}
    (hbodies : ∀ body ∈ bodies, Reads false (ofValue body) (body.stream false)) :
    Reads inClass [branches h (bodies.map armOf)]
      [.mark (bodies.map fun body => (body.blockProfile, body.stream false))] := by
  have harms : ∀ (site next : Nat) (before : List Token),
      (declaresArms site next (bodies.map armOf)).map Declaration.note =
        (blockSpots before
          (bodies.map fun body => (body.blockProfile, body.stream false))).map Spot.note := by
    intro site next before
    induction bodies generalizing next with
    | nil => rfl
    | cons body rest ih =>
      obtain ⟨hbody, hrest⟩ := List.forall_mem_cons.1 hbodies
      obtain ⟨hin, -⟩ := hbody next (next + 1) []
      simp only [List.map_cons, armOf, declaresArms, blockSpots, List.map_append]
      rw [ih hrest]
      exact congrArg₂ (· ++ ·) (congrArg (_ :: ·) hin) rfl
  refine reads_singleton_iff.2 fun site next before => ?_
  rw [spotsFrom, spotsFrom, Token.spots, List.append_nil, lastDoc_concat]
  exact ⟨harms site next before, rfl⟩

end Reads

/-- The classified nodes of a value read as the stream of the value. -/
theorem reads_ofValue (v : Value) (inClass : Bool) :
    Reads inClass (ofValue v) (v.stream inClass) := by
  induction hn : sizeOf v using Nat.strong_induction_on generalizing v inClass with
  | _ n ih =>
    subst hn
    cases v with
    | list items =>
      rw [ofValue_list, Value.stream]
      refine .flatMap fun item hitem => ?_
      split
      · exact ih _ (Value.sizeOf_item_lt hitem) item inClass rfl
      · exact .nil
    | object fields =>
      have hbody : ∀ (key : String) (c : Bool),
          Reads c (Reading.field (Reading.readFields fields) key).nodes
            (((Value.object fields).field key).stream c) := by
        intro key c
        rw [Reading.field_readFields]
        exact ih _ (Value.sizeOf_field_lt fields key) _ c rfl
      have hfields : Reads inClass (fieldNodes (Reading.readFields fields))
          (fields.flatMap fun entry =>
            if entry.1 = "kind" then [] else entry.2.stream inClass) := by
        rw [fieldNodes_readFields]
        refine .flatMap fun entry hentry => ?_
        split
        · exact .nil
        · exact ih _ (Value.sizeOf_value_lt hentry) entry.2 inClass rfl
      have harms : ∀ {h : Heading} (bodies : List Value),
          (∀ b ∈ bodies, sizeOf b < sizeOf (Value.object fields)) →
          Reads inClass [branches h (bodies.map armOf)] [.mark (bodies.attach.map fun body =>
            (body.1.blockProfile, body.1.stream false))] := by
        intro h bodies hlt
        rw [List.attach_map_val (f := fun b : Value => (b.blockProfile, b.stream false))]
        exact reads_branches fun body hmem => ih _ (hlt body hmem) body false rfl
      rw [Value.stream]
      split
      · rename_i tag hkind
        rw [ofValue_of_kind hkind]
        -- the cases are those of the stream, and the node is classified in each of them
        generalize hnode : classify tag (.object fields) (Reading.readFields fields) = node
        split
        all_goals subst hnode
        · exact reads_comment _
        · exact reads_comment _
        · exact reads_scope (fun _ _ _ => rfl) (fun _ => ⟨rfl, rfl⟩) (hbody "body" true)
        · exact reads_scope (fun _ _ _ => rfl) (fun _ => ⟨rfl, rfl⟩) (hbody "body" false)
        · cases inClass with
          | true => exact reads_scope (fun _ _ _ => rfl) (fun _ => ⟨rfl, rfl⟩) (hbody "body" false)
          | false => exact reads_generic (fun _ _ _ => rfl) hfields
        · exact reads_scope (fun _ _ _ => rfl) (fun _ => ⟨rfl, rfl⟩) (hbody "children" false)
        · exact reads_leaf (fun _ _ _ => rfl) fun _ => ⟨rfl, rfl⟩
        · show Reads inClass [branches _ (ifArms (Reading.readFields fields))] _
          rw [ifArms_readFields]
          exact harms _ fun _ => Value.sizeOf_ifBodies_lt
        · show Reads inClass [branches _ (tryArms (Reading.readFields fields))] _
          rw [tryArms_readFields]
          exact harms _ fun _ => Value.sizeOf_tryBodies_lt
        · rw [classify_assign]
          split
          · exact reads_leaf (fun _ _ _ => rfl) fun _ => ⟨rfl, rfl⟩
          · exact reads_generic (fun _ _ _ => rfl) hfields
        · have hother : tag ∉ ownTags := by
            simp only [ownTags, List.mem_cons, List.not_mem_nil, or_false, not_or]
            and_intros <;> assumption
          rw [classify_of_other _ _ hother]
          exact reads_generic (fun _ _ _ => rfl) hfields
      · rename_i hkind
        rw [ofValue_of_no_kind hkind]
        exact .nil
    | _ =>
      simp only [Value.stream]
      exact .nil

end Node

end SymbolAtlas
