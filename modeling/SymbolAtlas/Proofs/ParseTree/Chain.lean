import Mathlib
import SymbolAtlas.Proofs.Node.Contribution
import SymbolAtlas.Proofs.Outline.Moving
import SymbolAtlas.Proofs.ParseTree.Grouping
import SymbolAtlas.Proofs.SourceFile.OfTree

/-!
# Branches of a chain

In a parse tree the clauses of an `if` stand side by side, the tagged tree nests each of them in the
one before it, and the walk makes a block of every body and of every nested `if`.  `layout` says
what comes of it, block by block: a body gets a block in the innermost `if` so far, and an else-if
clause first opens another one there.  `chain_unfolds` states it without `layout`, by the order of
the blocks, their owners and what they hold.
-/

namespace SymbolAtlas

/-- The value is an object that starts with its kind and its range.  If the kind is `string`, it has
no value that would make it a literal. -/
def Value.IsTagged (v : Value) : Prop :=
  ∃ kind range fields, v = .object (("kind", .str kind) :: ("range", range) :: fields) ∧
    (kind = "string" → Ledger.get? fields "value" = none)

namespace Value.IsTagged

variable {v : Value}

theorem isObject_eq (h : v.IsTagged) : v.isObject = true := by
  obtain ⟨kind, range, fields, rfl, -⟩ := h
  rfl

theorem truthy_eq (h : v.IsTagged) : v.truthy = true := by
  obtain ⟨kind, range, fields, rfl, -⟩ := h
  rfl

end Value.IsTagged

namespace ParseTree

open Rendered

/-! ## Every node is converted to an object -/

theorem isTagged_tagged (l : TreeLabel) {kind : String} (hkind : kind ≠ "string")
    (fields : Ledger Value) : (l.tagged kind fields).IsTagged :=
  ⟨kind, l.range, fields, rfl, fun h => absurd h hkind⟩

theorem isTagged_genericNode (l : TreeLabel) (cs : List Rendered) : (genericNode l cs).IsTagged :=
  ⟨l.type, l.range, _, rfl, fun _ => rfl⟩

theorem isTagged_tagNode (l : TreeLabel) {cs : List Rendered} (h : ∀ c ∈ cs, c.value.IsTagged) :
    (tagNode l cs).IsTagged := by
  unfold tagNode
  split
  · rw [commentNode]
    split <;> exact isTagged_tagged l (by decide) _
  case h_8 =>
    unfold expressionStatement
    split
    · next only honly =>
      exact h only (List.mem_of_mem_filter (honly ▸ List.mem_singleton_self only))
    · exact isTagged_genericNode l cs
  case h_12 =>
    split
    · exact isTagged_tagged l (by decide) _
    · exact isTagged_genericNode l cs
  all_goals exact isTagged_tagged l (by decide) _

mutual

theorem isTagged_convert : ∀ t : ParseTree, t.convert.IsTagged
  | .node l cs => isTagged_tagNode l (isTagged_renderAll cs)
termination_by structural t => t

theorem isTagged_renderAll : ∀ ts : List ParseTree, ∀ r ∈ renderAll ts, r.value.IsTagged
  | [], _, h => nomatch h
  | t :: rest, r, h => by
    rcases List.mem_cons.1 h with rfl | h
    · exact isTagged_convert t
    · exact isTagged_renderAll rest r h
termination_by structural ts => ts

end

/-! ## Blocks of a chain -/

/-- What the walk makes a block of. -/
inductive Part where
  /-- The body of a branch. -/
  | branch (body : ParseTree)
  /-- The `if` that an else-if clause is nested in. -/
  | nested (clause : ParseTree)

namespace Part

/-- The span of the block. -/
def span : Part → Option Span
  | branch body => Span.ofNode? body.convert
  | nested clause => clause.label.span?

/-- The part is a nested `if`. -/
def isNested : Part → Bool
  | branch _ => false
  | nested _ => true

end Part

/-- The parts that the further clauses of a chain contribute in source order: the else-if clauses,
each with its body, and the else clause with its body. -/
def clauseParts (elseIfs : List (ParseTree × ParseTree)) (final : Option (ParseTree × ParseTree)) :
    List Part :=
  (elseIfs.flatMap fun c => [.nested c.1, .branch c.2]) ++ (final.map fun c => .branch c.2).toList

/-- A block of a chain in the outline of a file. -/
structure Room where
  number : Nat
  owner : Nat
  part : Part
  /-- The entities that follow the block, up to the next block of the chain. -/
  contents : List Entity

/-- The block and the entities that follow it. -/
def Room.entities (r : Room) : List Entity :=
  { blockEntity r.part.span with parent := some r.owner } :: r.contents

/-- What a chain with the given parts leads to when it is walked into a scope of an outline, in
terms of its blocks. -/
structure Unfolds (o : Outline) (scope : Nat) (parts : List Part) (w : Walk) (rooms : List Room) :
    Prop where
  /-- There is one block for each part, in the same order. -/
  parts_eq : rooms.map Room.part = parts
  /-- Nothing is added but the blocks, each followed by its contents. -/
  bares_eq : w.outline.bares = o.bares ++ rooms.flatMap Room.entities
  refusals_eq : w.refusals = []
  /-- Numbers are given in order, and a block is owned by the last nested `if` before it, or else by
  the scope. -/
  place : ∀ before r after, rooms = before ++ r :: after →
    r.number = o.size + (before.flatMap Room.entities).length ∧
      r.owner = ((before.filter (·.part.isNested)).getLast?.map Room.number).getD scope
  /-- A nested `if` holds nothing but blocks of the chain. -/
  nested : ∀ r ∈ rooms, ∀ clause, r.part = .nested clause → r.contents = []
  /-- The block of a body holds what walking the body alone into a block adds to any file. -/
  alone : ∀ r ∈ rooms, ∀ body, r.part = .branch body →
    ∀ (o' : Outline) (block : Nat), Outline.Ready o' → o'.scopeKind? block = some .block →
    (o'.populate block (Node.ofValue body.convert)).refusals = [] ∧ ∃ added,
      (o'.populate block (Node.ofValue body.convert)).outline.bares = o'.bares ++ added ∧
      r.contents = added.map (Entity.moved (Outline.transfer block o'.size r.number))
  /-- The contents of a block lie below it, except for namespaces and what they hold. -/
  below : ∀ r ∈ rooms, ∀ i, r.number < i → i ≤ r.number + r.contents.length →
    w.outline.IsBelow r.number i

/-! ## The layout of a chain -/

/-- What a part declares in the block with a number. -/
def Part.declared (number : Nat) : Part → List Declaration
  | branch body => (Node.declaresAll number false (number + 1) none (Node.ofValue body.convert)).1
  | nested _ => []

/-- The block of a part. -/
def Part.room (site number : Nat) (p : Part) : Room where
  number := number
  owner := site
  part := p
  contents := (p.declared number).map Declaration.owned

/-- The blocks of parts that are walked into a scope one after the other.  What follows a nested
`if` goes into its block. -/
def layout (site next : Nat) : List Part → List Room
  | [] => []
  | p :: rest =>
    p.room site next ::
      layout (if p.isNested then next else site) (next + (p.room site next).entities.length) rest

theorem map_part_layout (site next : Nat) (parts : List Part) :
    (layout site next parts).map Room.part = parts := by
  induction parts generalizing site next with
  | nil => rfl
  | cons p rest ih =>
    rw [layout, List.map_cons, ih]
    rfl

theorem contents_of_mem_layout {site next : Nat} {parts : List Part} {r : Room}
    (h : r ∈ layout site next parts) :
    r.contents = (r.part.declared r.number).map Declaration.owned := by
  induction parts generalizing site next with
  | nil => cases h
  | cons p rest ih =>
    rw [layout] at h
    rcases List.mem_cons.1 h with rfl | h
    · rfl
    · exact ih h

theorem place_layout {site next : Nat} {parts : List Part} {before after : List Room} {r : Room}
    (h : layout site next parts = before ++ r :: after) :
    r.number = next + (before.flatMap Room.entities).length ∧
      r.owner = ((before.filter (·.part.isNested)).getLast?.map Room.number).getD site := by
  induction parts generalizing site next before with
  | nil => simp [layout] at h
  | cons p rest ih =>
    rw [layout] at h
    cases before with
    | nil =>
      obtain ⟨rfl, -⟩ := List.cons.inj h
      exact ⟨rfl, rfl⟩
    | cons b before =>
      obtain ⟨rfl, hrest⟩ := List.cons.inj h
      obtain ⟨hnumber, howner⟩ := ih hrest
      refine ⟨?_, ?_⟩
      · rw [hnumber, List.flatMap_cons, List.length_append, Nat.add_assoc]
      · rw [howner, List.filter_cons]
        cases hp : p.isNested with
        | false => simp [Part.room, hp]
        | true =>
          simp only [Part.room, hp, if_true, List.getLast?_cons, Option.map_some, Option.getD_some]
          cases (before.filter (·.part.isNested)).getLast? <;> rfl

/-! ## The conversion of a chain -/

/-- An `if` declares the blocks of its bodies. -/
theorem declaresAll_if (l : TreeLabel) (test body alternate : Value) (site : Nat) (inClass : Bool)
    (next : Nat) (pending : Option String) :
    (Node.declaresAll site inClass next pending (Node.ofValue
      (l.tagged "if" [("test", test), ("body", body), ("alternate", alternate)]))).1 =
      Node.declaresArms site next (([body, alternate].filter Value.truthy).map armOf) := by
  have harms := Node.ifArms_readFields
    [("kind", .str "if"), ("range", l.range), ("test", test), ("body", body),
      ("alternate", alternate)]
  have hbodies : (Value.object [("kind", .str "if"), ("range", l.range), ("test", test),
      ("body", body), ("alternate", alternate)]).ifBodies =
        [body, alternate].filter Value.truthy := rfl
  rw [hbodies] at harms
  rw [← harms]
  exact List.append_nil _

theorem length_entities_room (site number : Nat) (p : Part) :
    (p.room site number).entities.length = (p.declared number).length + 1 := by
  simp [Part.room, Room.entities]

/-- The first of several bodies of an `if`. -/
theorem declaresArms_body (body : ParseTree) (rest : List Arm) (site next : Nat) :
    (Node.declaresArms site next (armOf body.convert :: rest)).map Declaration.owned =
      ((Part.branch body).room site next).entities ++
        (Node.declaresArms site (next + ((Part.branch body).room site next).entities.length)
          rest).map Declaration.owned := by
  have harm : armOf body.convert = (Span.ofNode? body.convert, Node.ofValue body.convert) := by
    rw [armOf, if_pos (isTagged_convert body).isObject_eq]
  rw [harm, Node.declaresArms, length_entities_room, List.map_append]
  rfl

/-- A nested `if` as the alternate of another one: its block, and in it what it declares. -/
theorem declaresArms_nested (l : TreeLabel) (fields : Ledger Value) (site next : Nat) :
    (Node.declaresArms site next (([l.tagged "if" fields].filter Value.truthy).map armOf)).map
        Declaration.owned =
      { blockEntity l.span? with parent := some site } ::
        (Node.declaresAll next false (next + 1) none
          (Node.ofValue (l.tagged "if" fields))).1.map Declaration.owned := by
  have harms : ([l.tagged "if" fields].filter Value.truthy).map armOf =
      [(l.span?, Node.ofValue (l.tagged "if" fields))] := rfl
  rw [harms, Node.declaresArms, Node.declaresArms, List.append_nil]
  rfl

theorem childValue_render {t body : ParseTree} {role : String} (h : t.child? role = some body) :
    childValue t.render.children role = body.convert := by
  rw [childValue, child?_render, h]
  rfl

/-- The further clauses of an `if` are else-if clauses and possibly an else clause at the end, each
with its body. -/
structure AreClauses (clauses : List ParseTree) (elseIfs : List (ParseTree × ParseTree))
    (final : Option (ParseTree × ParseTree)) : Prop where
  eq : clauses = elseIfs.map Prod.fst ++ (final.map Prod.fst).toList
  elseIf : ∀ c ∈ elseIfs, c.1.label.type = "else_if_clause" ∧ c.1.child? "body" = some c.2
  final : ∀ c ∈ final, c.1.label.type = "else_clause" ∧ c.1.child? "body" = some c.2

/-- An `if` declares the block of its body, and then what its alternate declares. -/
theorem declares_if (l : TreeLabel) (test : Value) (body : ParseTree) {alternate : Value}
    {parts : List Part}
    (halternate : ∀ site next,
      (Node.declaresArms site next (([alternate].filter Value.truthy).map armOf)).map
        Declaration.owned = (layout site next parts).flatMap Room.entities)
    (site : Nat) (inClass : Bool) (next : Nat) (pending : Option String) :
    (Node.declaresAll site inClass next pending (Node.ofValue
      (l.tagged "if" [("test", test), ("body", body.convert), ("alternate", alternate)]))).1.map
        Declaration.owned =
      (layout site next (.branch body :: parts)).flatMap Room.entities := by
  rw [declaresAll_if, List.filter_cons, if_pos (isTagged_convert body).truthy_eq, List.map_cons,
    declaresArms_body, halternate]
  rfl

/-- The clauses of a chain declare the blocks of their parts. -/
theorem declares_alternate {clauses : List ParseTree} {elseIfs : List (ParseTree × ParseTree)}
    {final : Option (ParseTree × ParseTree)} (h : AreClauses clauses elseIfs final)
    (site next : Nat) :
    (Node.declaresArms site next
      (([alternate (clauses.map render)].filter Value.truthy).map armOf)).map Declaration.owned =
      (layout site next (clauseParts elseIfs final)).flatMap Room.entities := by
  obtain ⟨rfl, helseIf, hfinal⟩ := h
  induction elseIfs generalizing site next with
  | nil =>
    cases final with
    | none => rfl
    | some c =>
      obtain ⟨htype, hbody⟩ := hfinal c rfl
      have halternate : alternate [c.1.render] = c.2.convert := by
        rw [alternate, label_render, htype, if_neg (by decide), childValue_render hbody]
      change (Node.declaresArms site next
        (([alternate [c.1.render]].filter Value.truthy).map armOf)).map Declaration.owned = _
      rw [halternate, List.filter_cons, if_pos (isTagged_convert c.2).truthy_eq, List.map_cons,
        declaresArms_body]
      rfl
  | cons c rest ih =>
    obtain ⟨⟨htype, hbody⟩, hrest⟩ := List.forall_mem_cons.1 helseIf
    have hinner := declares_if c.1.label (childValue c.1.render.children "condition") c.2
      (fun site next => ih site next hrest) next false (next + 1) none
    have halternate : alternate ((((c :: rest).map Prod.fst) ++
        (final.map Prod.fst).toList).map render) =
        c.1.label.tagged "if" [("test", childValue c.1.render.children "condition"),
          ("body", c.2.convert), ("alternate", alternate
            ((rest.map Prod.fst ++ (final.map Prod.fst).toList).map render))] := by
      rw [List.map_cons, List.cons_append, List.map_cons, alternate, label_render, htype,
        if_pos rfl, childValue_render hbody]
    rw [halternate, declaresArms_nested, hinner]
    rfl

theorem convert_of_if {t : ParseTree} (ht : t.label.type = "if_statement") :
    t.convert = ifNode t.label t.render.children := by
  obtain ⟨l, cs⟩ := t
  show tagNode l (renderAll cs) = ifNode l (renderAll cs)
  have htype : l.type = "if_statement" := ht
  simp only [tagNode, htype]

theorem clauses_render (t : ParseTree) :
    t.render.children.filter (fun c => c.label.field == some "alternative") =
      t.clauses.map render := by
  obtain ⟨l, cs⟩ := t
  show (renderAll cs).filter _ = _
  rw [renderAll_eq, List.filter_map]
  simp only [Function.comp_def, label_render]
  rfl

theorem length_clauseParts (elseIfs : List (ParseTree × ParseTree))
    (final : Option (ParseTree × ParseTree)) :
    (clauseParts elseIfs final).length = 2 * elseIfs.length + final.toList.length := by
  have hpairs : (elseIfs.flatMap fun c => [Part.nested c.1, .branch c.2]).length =
      2 * elseIfs.length := by
    induction elseIfs with
    | nil => rfl
    | cons c rest ih =>
      rw [List.flatMap_cons, List.length_append, ih, List.length_cons]
      simp only [List.length_cons, List.length_nil]
      omega
  rw [clauseParts, List.length_append, hpairs]
  cases final <;> rfl

/-- What a body declares is stated in its block. -/
theorem stated_declared (p : Part) (number : Nat) : ∃ top : Declaration → Prop,
    Stated Node.MethodInClass top number (number + 1) (p.declared number) := by
  cases p with
  | branch body => exact ⟨_, Node.stated_methodsAll _ number false (number + 1) none⟩
  | nested clause => exact ⟨fun _ => True, .nil _ _ _⟩

/-- The contents of a block of a layout lie below it, if the outline has the blocks at its end. -/
theorem isBelow_of_mem_layout {o w : Outline} (hw : Outline.WellOwned w) {scope : Nat}
    {parts : List Part}
    (hbares : w.bares = o.bares ++ (layout scope o.size parts).flatMap Room.entities) {r : Room}
    (hr : r ∈ layout scope o.size parts) {i : Nat} (hlt : r.number < i)
    (hle : i ≤ r.number + r.contents.length) : w.IsBelow r.number i := by
  obtain ⟨before, after, hsplit⟩ := List.append_of_mem hr
  have hnumber := (place_layout hsplit).1
  have hcontents := contents_of_mem_layout hr
  obtain ⟨k, rfl⟩ : ∃ k, i = r.number + 1 + k := ⟨i - (r.number + 1), by omega⟩
  obtain ⟨top, hstated⟩ := stated_declared r.part r.number
  rw [hcontents, List.length_map] at hle
  refine Outline.isBelow_of_stated hw hstated (fun m d hd => ?_) (by omega)
  have hmem : r.contents[m]? = some d.owned := by
    rw [hcontents, List.getElem?_map, hd]
    rfl
  have hm : m < r.contents.length := (List.getElem?_eq_some_iff.1 hmem).1
  rw [hbares, hsplit, List.flatMap_append, List.flatMap_cons, hnumber,
    List.getElem?_append_right (by rw [Outline.length_bares]; omega), Outline.length_bares,
    List.getElem?_append_right (by omega)]
  have hindex : o.size + (before.flatMap Room.entities).length + 1 + m - o.size -
      (before.flatMap Room.entities).length = m + 1 := by
    omega
  rw [hindex, Room.entities, List.cons_append, List.getElem?_cons_succ,
    List.getElem?_append_left hm, hmem]

/-- No branch of a chain is lost.  Walking an `if` with else-if clauses and possibly an else clause
into a scope adds one block for each body and one for each else-if clause; each of the latter is
owned by the one before it, and each body is walked once, into its own block. -/
theorem chain_unfolds {o : Outline} (ho : Outline.Ready o) {scope : Nat}
    (hscope : (o.scopeKind? scope).isSome) {t body : ParseTree}
    (ht : t.label.type = "if_statement") (hbody : t.child? "body" = some body)
    {elseIfs : List (ParseTree × ParseTree)} {final : Option (ParseTree × ParseTree)}
    (hclauses : AreClauses t.clauses elseIfs final) :
    ∃ rooms : List Room, rooms.length = 2 * elseIfs.length + 1 + final.toList.length ∧
      Unfolds o scope (.branch body :: clauseParts elseIfs final)
        (o.populate scope (Node.ofValue t.convert)) rooms := by
  obtain ⟨hrefusals, hready, hbares⟩ := Outline.populate_eq ho hscope (Node.ofValue t.convert)
  have hdeclares := declares_if t.label (childValue t.render.children "condition") body
    (declares_alternate hclauses) scope (o.isClass scope) o.size none
  rw [← childValue_render hbody, ← clauses_render] at hdeclares
  change (Node.declaresAll scope (o.isClass scope) o.size none
    (Node.ofValue (ifNode t.label t.render.children))).1.map Declaration.owned = _ at hdeclares
  rw [← convert_of_if ht] at hdeclares
  rw [hdeclares] at hbares
  refine ⟨layout scope o.size (.branch body :: clauseParts elseIfs final), ?_, ?_⟩
  · rw [← List.length_map Room.part, map_part_layout, List.length_cons, length_clauseParts]
    omega
  · refine ⟨map_part_layout _ _ _, hbares, hrefusals, fun before r after => place_layout,
      ?_, ?_, ?_⟩
    · intro r hr clause hpart
      rw [contents_of_mem_layout hr, hpart]
      rfl
    · intro r hr body hpart o' block ho' hblock
      rw [contents_of_mem_layout hr, hpart]
      exact Outline.populate_block ho' hblock _ r.number
    · intro r hr i hlt hle
      exact isBelow_of_mem_layout hready.wellOwned hbares hr hlt hle

section Sample

/-- `{ class C {} }`, the body of the else-if clause of the sample. -/
def guardedClass : ParseTree :=
  .node { type := "compound_statement", start := 29, stop := 43, field := some "body" }
    [.node { type := "class_declaration", start := 31, stop := 41 }
      [.node { type := "name", start := 37, stop := 38, field := some "name", text := "C" } [],
       .node { type := "declaration_list", start := 39, stop := 41, field := some "body" } []]]

/-- An empty body. -/
def emptyBody (start : Int) : ParseTree :=
  .node { type := "compound_statement", start := start, stop := start + 2, field := some "body" } []

/-- `elseif ($b) { class C {} }` -/
def guardedClause : ParseTree :=
  .node { type := "else_if_clause", start := 17, stop := 43, field := some "alternative" }
    [guardedClass]

/-- `else {}` -/
def lastClause : ParseTree :=
  .node { type := "else_clause", start := 44, stop := 51, field := some "alternative" }
    [emptyBody 49]

/-- `if ($a) {} elseif ($b) { class C {} } else {}` -/
def guardedChain : ParseTree :=
  .node { type := "if_statement", start := 6, stop := 51 } [emptyBody 14, guardedClause, lastClause]

/-- Four blocks: those of the first body, of the nested `if`, of its body with the class, and of the
last body. -/
theorem chain_unfolds_guardedChain :
    guardedChain.label.type = "if_statement" ∧ guardedChain.child? "body" = some (emptyBody 14) ∧
      AreClauses guardedChain.clauses [(guardedClause, guardedClass)]
        (some (lastClause, emptyBody 49)) ∧
      ∃ rooms : List Room, rooms.length = 4 ∧
        Unfolds (SourceFile.blank "a.php" none true).outline 0
          [.branch (emptyBody 14), .nested guardedClause, .branch guardedClass,
            .branch (emptyBody 49)]
          ((SourceFile.blank "a.php" none true).outline.populate 0
            (Node.ofValue guardedChain.convert)) rooms := by
  have hclauses : AreClauses guardedChain.clauses [(guardedClause, guardedClass)]
      (some (lastClause, emptyBody 49)) :=
    ⟨rfl, by simp only [List.forall_mem_singleton]; exact ⟨rfl, rfl⟩, fun c hc => by
      obtain rfl := Option.some_inj.1 hc
      exact ⟨rfl, rfl⟩⟩
  exact ⟨rfl, rfl, hclauses,
    chain_unfolds (SourceFile.ready_blank "a.php" none) rfl rfl rfl hclauses⟩

example : (layout 0 2 (.branch (emptyBody 14) :: clauseParts [(guardedClause, guardedClass)]
    (some (lastClause, emptyBody 49)))).map (fun r => (r.number, r.owner)) =
      [(2, 0), (3, 0), (4, 3), (6, 3)] := by rfl

end Sample

end ParseTree

end SymbolAtlas
