import Mathlib
import SymbolAtlas.Proofs.Node.Fitting
import SymbolAtlas.Proofs.ParseTree.Statements

/-!
# Tagged trees keep the ranges of parse trees

If the range of every node of a parse tree holds the ranges of its children, then the tagged tree of
a node fits into the range of the node.  The conversion moves things around, and each move has a
condition of its own under which nothing leaves the range that holds it.  A namespace without a body
takes in the statements that follow it and stretches its range to their ends, so it has to start
before they do.  The clauses of an `if` stand side by side in the parse tree and are nested in the
tagged tree, without any stretching, so an else-if clause has to be the last one.
-/

namespace SymbolAtlas

namespace TreeLabel

/-- The span of a node, if its range is in order. -/
def span? (l : TreeLabel) : Option Span :=
  Span.ofEnds? (.int l.start) (.int l.stop)

theorem mem_span? {l : TreeLabel} {s : Span} :
    s ∈ l.span? ↔ l.start ≤ l.stop ∧ Span.between l.start l.stop = s := by
  have hspan : l.span? =
      if l.start ≤ l.stop then some (Span.between l.start l.stop) else none := rfl
  rw [hspan, Option.mem_def, Option.ite_none_right_eq_some, Option.some.injEq]

theorem inside_span? {l m : TreeLabel} (hstart : m.start ≤ l.start) (hstop : l.stop ≤ m.stop) :
    Span.Inside l.span? m.span? := by
  intro s hs
  obtain ⟨hl, rfl⟩ := mem_span?.1 hs
  exact ⟨Span.between m.start m.stop, mem_span?.2 ⟨by omega, rfl⟩, hstart, hstop⟩

end TreeLabel

/-! ## Conditions on parse trees -/

namespace ParseTree

mutual

/-- All nodes of a tree, each with what is below it. -/
def nodes : ParseTree → List ParseTree
  | node l cs => node l cs :: nodesAmong cs
termination_by structural t => t

/-- All nodes of several trees. -/
def nodesAmong : List ParseTree → List ParseTree
  | [] => []
  | t :: rest => nodes t ++ nodesAmong rest
termination_by structural ts => ts

end

/-- The range of the node holds the ranges of its children. -/
def Encloses (t : ParseTree) : Prop :=
  ∀ c ∈ t.children, t.label.start ≤ c.label.start ∧ c.label.stop ≤ t.label.stop

/-- The further clauses of an `if`, in the order in which they are written. -/
def clauses (t : ParseTree) : List ParseTree :=
  t.children.filter fun c => c.label.field == some "alternative"

/-- If the first further clause of an `if` is an else-if, there is no other. -/
def ElseIfLast (t : ParseTree) : Prop :=
  t.label.type = "if_statement" →
    ∀ clause ∈ t.clauses.head?, clause.label.type = "else_if_clause" → t.clauses.length = 1

/-- A namespace starts no later than the siblings that follow it. -/
def NamespaceFirst (t : ParseTree) : Prop :=
  t.children.Pairwise fun c d =>
    c.label.type = "namespace_definition" → c.label.start ≤ d.label.start

instance (t : ParseTree) : Decidable t.Encloses :=
  inferInstanceAs (Decidable (∀ c ∈ t.children, _))

instance (t : ParseTree) : Decidable t.ElseIfLast :=
  inferInstanceAs (Decidable (_ → ∀ clause ∈ t.clauses.head?, _))

instance (t : ParseTree) : Decidable t.NamespaceFirst :=
  inferInstanceAs (Decidable (List.Pairwise _ t.children))

end ParseTree

/-! ## Values in their place -/

/-- The value is an object that lies in a span and fits into its own. -/
structure Value.Placed (file site : Option Span) (v : Value) : Prop where
  object : v.isObject = true
  inside : Span.Inside (Span.ofNode? v) site
  within : v.Fits file (Span.ofNode? v)

namespace Value

variable {file site : Option Span} {v : Value}

theorem Placed.mono {site' : Option Span} (h : v.Placed file site)
    (hsite : Span.Inside site site') : v.Placed file site' :=
  ⟨h.object, h.inside.trans hsite, h.within⟩

theorem Placed.fits (h : v.Placed file site) : v.Fits file site :=
  fun n hn => (h.within n hn).mono h.inside

theorem Placed.armFits (h : v.Placed file site) : Node.ArmFits file site (armOf v) := by
  rw [armOf, if_pos h.object]
  exact ⟨h.inside, h.within⟩

/-- The value is absent or in its place. -/
def PlacedIfAny (file site : Option Span) (v : Value) : Prop :=
  v = .null ∨ v.Placed file site

theorem PlacedIfAny.fits (h : v.PlacedIfAny file site) : v.Fits file site := by
  obtain rfl | h := h
  · exact fun _ hn => nomatch hn
  · exact h.fits

theorem PlacedIfAny.armFits (h : v.PlacedIfAny file site) :
    Node.ArmFits file site (armOf v) := by
  obtain rfl | h := h
  · exact ⟨.of_none _, fun _ hn => nomatch hn⟩
  · exact h.armFits

end Value

namespace ParseTree

open Rendered

section Tagged

variable {file : Option Span} {l : TreeLabel}

/-- A tagged node is in its place if its fields and its branches fit into its range. -/
theorem placed_tagged (hfile : Span.Inside l.span? file) (kind : String) {fields : Ledger Value}
    (hfields : ∀ entry ∈ fields, entry.2.Fits file l.span?)
    (hif : kind = "if" →
      ∀ b ∈ (l.tagged kind fields).ifBodies, Node.ArmFits file l.span? (armOf b))
    (htry : kind = "try" →
      ∀ b ∈ (l.tagged kind fields).tryBodies, Node.ArmFits file l.span? (armOf b)) :
    (l.tagged kind fields).Placed file l.span? := by
  refine ⟨rfl, Span.Inside.refl _, fun n hn => ?_⟩
  obtain rfl := List.mem_singleton.1 hn
  refine Node.fits_classify kind hfile (fun entry hentry hkey => ?_) hif htry
  rcases List.mem_cons.1 hentry with rfl | hentry
  · exact absurd rfl hkey
  rcases List.mem_cons.1 hentry with rfl | hentry
  · exact fun _ hn => nomatch hn
  · exact hfields entry hentry

/-- The same for a node that has no branches. -/
theorem placed_plain (hfile : Span.Inside l.span? file) {kind : String} (hif : kind ≠ "if")
    (htry : kind ≠ "try") {fields : Ledger Value}
    (hfields : ∀ entry ∈ fields, entry.2.Fits file l.span?) :
    (l.tagged kind fields).Placed file l.span? :=
  placed_tagged hfile kind hfields (fun hk => absurd hk hif) (fun hk => absurd hk htry)

theorem fits_str (s : String) {site : Option Span} : (Value.str s).Fits file site :=
  fun _ hn => nomatch hn

theorem fits_ofText? (s : Option String) {site : Option Span} :
    (Value.ofText? s).Fits file site := by
  cases s <;> exact fun _ hn => nomatch hn

end Tagged

/-! ## Rendered children -/

/-- The rendered children of a node with the label `l`: the range of the node holds theirs, each has
its tagged tree in its place, and namespaces come before what follows them. -/
structure Kept (file : Option Span) (l : TreeLabel) (cs : List Rendered) : Prop where
  encloses : ∀ c ∈ cs, l.start ≤ c.label.start ∧ c.label.stop ≤ l.stop
  placed : ∀ c ∈ cs, c.value.Placed file c.label.span?
  ordered : cs.Pairwise fun c d =>
    c.label.type = "namespace_definition" → c.label.start ≤ d.label.start

namespace Kept

variable {file : Option Span} {l : TreeLabel} {cs rs : List Rendered}

theorem sublist (h : Kept file l cs) (hrs : rs.Sublist cs) : Kept file l rs where
  encloses := fun c hc => h.encloses c (hrs.subset hc)
  placed := fun c hc => h.placed c (hrs.subset hc)
  ordered := h.ordered.sublist hrs

theorem inside (h : Kept file l cs) {c : Rendered} (hc : c ∈ cs) :
    Span.Inside c.label.span? l.span? :=
  TreeLabel.inside_span? (h.encloses c hc).1 (h.encloses c hc).2

theorem child (h : Kept file l cs) {c : Rendered} (hc : c ∈ cs) : c.value.Placed file l.span? :=
  (h.placed c hc).mono (h.inside hc)

theorem childValue (h : Kept file l cs) (role : String) :
    (childValue cs role).PlacedIfAny file l.span? := by
  unfold Rendered.childValue child?
  cases hfind : cs.find? fun c => c.label.field == some role with
  | none => exact Or.inl rfl
  | some c => exact Or.inr (h.child (List.mem_of_find?_eq_some hfind))

end Kept

/-! ## Statement lists -/

/-- Without open namespaces the statements are converted one by one. -/
theorem statements_of_plain {rs : List Rendered} (h : ∀ r ∈ rs, opensNamespace r = false) :
    statements rs = rs.map value := by
  induction rs with
  | nil => rw [statements_nil, List.map_nil]
  | cons r rest ih =>
    obtain ⟨hr, hrest⟩ := List.forall_mem_cons.1 h
    rw [statements_cons, if_neg (by simp [hr]), ih hrest, List.map_cons]

theorem foldl_max_le_iff {α : Type} (f : α → Int) (xs : List α) (init bound : Int) :
    xs.foldl (fun m x => max m (f x)) init ≤ bound ↔ init ≤ bound ∧ ∀ x ∈ xs, f x ≤ bound := by
  induction xs generalizing init with
  | nil => simp
  | cons x rest ih =>
    rw [List.foldl_cons, ih, max_le_iff, List.forall_mem_cons, and_assoc]

section Statements

variable {file : Option Span} {l : TreeLabel}

/-- A namespace stretched over the statements it takes in holds them, and it stays within the range
that holds it and them. -/
theorem placed_openNamespace (hfile : Span.Inside l.span? file) {r : Rendered}
    {rest : List Rendered} (h : Kept file l (r :: rest)) (hopen : opensNamespace r = true) :
    (openNamespace r (rest.foldl (fun stop t => max stop t.label.stop) r.label.stop)
      (rest.map value)).Placed file l.span? := by
  obtain ⟨hr, hrest⟩ := List.forall_mem_cons.1 h.encloses
  obtain ⟨-, hplaced⟩ := List.forall_mem_cons.1 h.placed
  have htype : r.label.type = "namespace_definition" := by
    simp only [opensNamespace, Bool.and_eq_true, decide_eq_true_eq] at hopen
    exact hopen.1
  generalize hstop : rest.foldl (fun stop t => max stop t.label.stop) r.label.stop = stop
  have hle := foldl_max_le_iff (fun t : Rendered => t.label.stop) rest r.label.stop
  have htaken : ∀ t ∈ rest, t.label.stop ≤ stop := ((hle stop).1 hstop.le).2
  have hbound : stop ≤ l.stop := hstop ▸ (hle l.stop).2 ⟨hr.2, fun t ht => (hrest t ht).2⟩
  have hinside : Span.Inside { r.label with stop := stop }.span? l.span? :=
    TreeLabel.inside_span? hr.1 hbound
  refine (placed_plain (l := { r.label with stop := stop }) (hinside.trans hfile)
    (by decide) (by decide) ?_).mono hinside
  simp only [List.forall_mem_cons]
  refine ⟨fits_str _, Value.fits_list fun v hv => ?_, fun _ hx => absurd hx List.not_mem_nil⟩
  obtain ⟨t, ht, rfl⟩ := List.mem_map.1 hv
  -- only the end is stretched, so the start has to be right by itself
  have hstart : r.label.start ≤ t.label.start := (List.pairwise_cons.1 h.ordered).1 t ht htype
  have hheld : Span.Inside t.label.span? { r.label with stop := stop }.span? :=
    TreeLabel.inside_span? hstart (htaken t ht)
  exact ((hplaced t ht).mono hheld).fits

theorem placed_statements (hfile : Span.Inside l.span? file) {rs : List Rendered}
    (h : Kept file l rs) : ∀ v ∈ statements rs, v.Placed file l.span? := by
  induction rs using statements_induction with
  | nil => exact fun _ hv => nomatch hv
  | opened r rest hopen ih =>
    rw [statements_cons, if_pos hopen]
    refine List.forall_mem_cons.2 ⟨?_, ih ?_⟩
    · exact placed_openNamespace hfile
        (h.sublist ((List.takeWhile_sublist isPlainStatement).cons_cons r)) hopen
    · exact h.sublist
        ((List.dropWhile_sublist isPlainStatement).trans (List.sublist_cons_self r rest))
  | plain r rest hplain ih =>
    rw [statements_cons, if_neg (by simp [hplain])]
    exact List.forall_mem_cons.2 ⟨h.child List.mem_cons_self,
      ih (h.sublist (List.sublist_cons_self r rest))⟩

end Statements

/-! ## One node -/

/-- The further clauses of an `if` among its rendered children. -/
def clausesOf (cs : List Rendered) : List Rendered :=
  cs.filter fun c => c.label.field == some "alternative"

/-- If the first clause is an else-if, there is no other. -/
def EndsInElseIf (clauses : List Rendered) : Prop :=
  ∀ c ∈ clauses.head?, c.label.type = "else_if_clause" → clauses.length = 1

section Nodes

variable {file : Option Span} {l : TreeLabel} {cs : List Rendered}
  (hfile : Span.Inside l.span? file) (h : Kept file l cs)

include hfile

theorem placed_commentNode : (commentNode l).Placed file l.span? := by
  unfold commentNode
  split <;> exact placed_plain hfile (by decide) (by decide) (by simpa using fits_str _)

omit hfile in
/-- An include directive declares itself and nothing else, whatever its target holds. -/
theorem placed_includeNode (once require : Bool) :
    (includeNode l once require cs).Placed file l.span? := by
  refine ⟨rfl, Span.Inside.refl _, fun n hn => ?_⟩
  obtain rfl := List.mem_singleton.1 hn
  exact fun _ _ _ _ => .leaf rfl (Span.Inside.refl l.span?)

/-- An `if` is in its place if its two branches are. -/
theorem placed_if {test body alternate : Value} (htest : test.PlacedIfAny file l.span?)
    (hbody : body.PlacedIfAny file l.span?) (halternate : alternate.PlacedIfAny file l.span?) :
    (l.tagged "if" [("test", test), ("body", body), ("alternate", alternate)]).Placed file
      l.span? := by
  refine placed_tagged hfile "if" ?_ (fun _ b hb => ?_) (fun hk => absurd hk (by decide))
  · simp only [List.forall_mem_cons]
    exact ⟨htest.fits, hbody.fits, halternate.fits, fun _ hx => nomatch hx⟩
  · have hmem : b ∈ [body, alternate] := List.mem_of_mem_filter hb
    simp only [List.mem_cons, List.not_mem_nil, or_false] at hmem
    obtain rfl | rfl := hmem
    · exact hbody.armFits
    · exact halternate.armFits

/-- The same for a `try` with its handlers and its final block. -/
theorem placed_try {body final : Value} {catches : List Value}
    (hbody : body.PlacedIfAny file l.span?) (hcatches : ∀ c ∈ catches, c.Fits file l.span?)
    (hhandlers : ∀ c ∈ catches, (c.field "body").PlacedIfAny file l.span?)
    (hfinal : final.PlacedIfAny file l.span?) :
    (l.tagged "try" [("body", body), ("catches", .list catches), ("always", final)]).Placed file
      l.span? := by
  refine placed_tagged hfile "try" ?_ (fun hk => absurd hk (by decide)) (fun _ b hb => ?_)
  · simp only [List.forall_mem_cons]
    exact ⟨hbody.fits, Value.fits_list hcatches, hfinal.fits, fun _ hx => nomatch hx⟩
  · have hmem := List.mem_of_mem_filter hb
    rw [List.cons_append, List.mem_cons, List.mem_append, List.mem_singleton] at hmem
    obtain rfl | hb | rfl := hmem
    · exact hbody.armFits
    · obtain ⟨c, hc, rfl⟩ := List.mem_map.1 hb
      exact (hhandlers c (List.mem_of_mem_filter hc)).armFits
    · unfold Value.finalBody
      split
      · exact hfinal.armFits
      · exact Value.PlacedIfAny.armFits (Or.inl rfl)

include h

theorem placed_genericNode : (genericNode l cs).Placed file l.span? := by
  -- the type may be any text, also `if` or `try`, but there are no bodies
  refine placed_tagged hfile l.type ?_ (fun _ _ hb => nomatch hb) (fun _ _ hb => nomatch hb)
  simp only [List.forall_mem_singleton]
  refine Value.fits_list fun v hv => ?_
  obtain ⟨c, hc, rfl⟩ := List.mem_map.1 hv
  exact (h.child (List.mem_of_mem_filter hc)).fits

theorem placed_expressionStatement : (expressionStatement l cs).Placed file l.span? := by
  unfold expressionStatement
  split
  · rename_i only honly
    have hmem : only ∈ namedOf cs := honly ▸ List.mem_singleton_self only
    exact h.child (List.mem_of_mem_filter hmem)
  · exact placed_genericNode hfile h

theorem placed_declarationNode {kind : String} (hif : kind ≠ "if") (htry : kind ≠ "try") :
    (declarationNode kind l cs).Placed file l.span? := by
  refine placed_plain hfile hif htry ?_
  simp only [List.forall_mem_cons]
  exact ⟨fits_ofText? _, (h.childValue "body").fits, fun _ hx => nomatch hx⟩

theorem fits_leftValue : (leftValue (child? cs "left")).Fits file l.span? := by
  unfold leftValue child?
  split
  · exact fun _ hn => nomatch hn
  · rename_i r hr
    have hmem : r ∈ cs := List.mem_of_find?_eq_some hr
    split
    · refine ((placed_plain ((h.inside hmem).trans hfile) (by decide) (by decide) ?_).mono
        (h.inside hmem)).fits
      simpa using fits_str _
    · exact (h.child hmem).fits

theorem placed_assignNode : (assignNode l cs).Placed file l.span? := by
  refine placed_plain hfile (by decide) (by decide) ?_
  simp only [List.forall_mem_cons]
  exact ⟨fits_leftValue hfile h, (h.childValue "right").fits, fun _ hx => nomatch hx⟩

variable (hbelow : ∀ c ∈ cs, Kept file c.label c.children)

include hbelow

theorem placed_namespaceNode : (namespaceNode l cs).Placed file l.span? := by
  refine placed_plain hfile (by decide) (by decide) ?_
  simp only [List.forall_mem_cons]
  refine ⟨fits_str _, Value.fits_list fun v hv => ?_, fun _ hx => nomatch hx⟩
  split at hv
  · rename_i b hb
    have hmem : b ∈ cs := List.mem_of_find?_eq_some hb
    have hstatements := placed_statements ((h.inside hmem).trans hfile)
      ((hbelow b hmem).sublist List.filter_sublist) v hv
    exact (hstatements.mono (h.inside hmem)).fits
  · cases hv

omit hfile in
/-- A block below one of the children. -/
theorem placed_below {c : Rendered} (hc : c ∈ cs) (role : String) :
    (childValue c.children role).PlacedIfAny file l.span? :=
  ((hbelow c hc).childValue role).imp id fun hv => hv.mono (h.inside hc)

theorem placed_alternate {clauses : List Rendered} (hsub : ∀ c ∈ clauses, c ∈ cs)
    (hlast : EndsInElseIf clauses) : (alternate clauses).PlacedIfAny file l.span? := by
  match clauses with
  | [] => exact Or.inl rfl
  | clause :: rest =>
    have hmem := hsub clause List.mem_cons_self
    unfold alternate
    split
    · rename_i htype
      -- a further clause would be nested in this one without stretching its range
      obtain rfl : rest = [] := by simpa using hlast clause rfl htype
      have hclause := placed_if ((h.inside hmem).trans hfile)
        ((hbelow clause hmem).childValue "condition") ((hbelow clause hmem).childValue "body")
        (Or.inl rfl)
      exact Or.inr (hclause.mono (h.inside hmem))
    · exact placed_below h hbelow hmem "body"

theorem placed_ifNode (hlast : EndsInElseIf (clausesOf cs)) :
    (ifNode l cs).Placed file l.span? :=
  placed_if hfile (h.childValue "condition") (h.childValue "body")
    (placed_alternate hfile h hbelow (fun _ => List.mem_of_mem_filter) hlast)

theorem placed_tryNode : (tryNode l cs).Placed file l.span? := by
  have hmem : ∀ {p : Rendered → Bool} {c : Rendered}, c ∈ (namedOf cs).filter p → c ∈ cs :=
    fun hc => List.mem_of_mem_filter (List.mem_of_mem_filter hc)
  refine placed_try hfile (h.childValue "body") ?_ ?_ ?_
  · intro v hv
    obtain ⟨c, hc, rfl⟩ := List.mem_map.1 hv
    have hinside := h.inside (hmem hc)
    refine ((placed_plain (hinside.trans hfile) (by decide) (by decide) ?_).mono hinside).fits
    simpa using ((hbelow c (hmem hc)).childValue "body").fits
  · intro v hv
    obtain ⟨c, hc, rfl⟩ := List.mem_map.1 hv
    exact placed_below h hbelow (hmem hc) "body"
  · cases hfinal : List.getLast? (((namedOf cs).filter fun c =>
        c.label.type = "finally_clause").map fun c => childValue c.children "body") with
    | none => exact Or.inl rfl
    | some v =>
      obtain ⟨c, hc, rfl⟩ := List.mem_map.1 (List.mem_of_getLast? hfinal)
      exact placed_below h hbelow (hmem hc) "body"

theorem placed_tagNode (hlast : l.type = "if_statement" → EndsInElseIf (clausesOf cs)) :
    (tagNode l cs).Placed file l.span? := by
  unfold tagNode
  split
  · exact placed_commentNode hfile
  · exact placed_namespaceNode hfile h hbelow
  · exact placed_declarationNode hfile h (by decide) (by decide)
  · exact placed_declarationNode hfile h (by decide) (by decide)
  · exact placed_declarationNode hfile h (by decide) (by decide)
  · exact placed_declarationNode hfile h (by decide) (by decide)
  · exact placed_declarationNode hfile h (by decide) (by decide)
  · exact placed_expressionStatement hfile h
  · exact placed_ifNode hfile h hbelow (hlast ‹_›)
  · exact placed_tryNode hfile h hbelow
  · exact placed_assignNode hfile h
  · split
    · exact placed_includeNode _ _
    · exact placed_genericNode hfile h

end Nodes

/-! ## The whole tree -/

@[simp] theorem label_render (t : ParseTree) : t.render.label = t.label := by
  cases t
  rfl

theorem renderAll_eq (ts : List ParseTree) : renderAll ts = ts.map render := by
  induction ts with
  | nil => rfl
  | cons t rest ih => rw [renderAll, ih, List.map_cons]

/-- The three conditions on a node under which its conversion keeps ranges nested. -/
structure Tidy (t : ParseTree) : Prop where
  encloses : t.Encloses
  elseIfLast : t.ElseIfLast
  namespaceFirst : t.NamespaceFirst

/-- The tagged tree of a node is in its place, and so are those of its children. -/
structure InPlace (file : Option Span) (t : ParseTree) : Prop where
  placed : t.render.value.Placed file t.label.span?
  below : Kept file t.label t.render.children

theorem inPlace_node {file : Option Span} {l : TreeLabel} {cs : List ParseTree}
    (hfile : Span.Inside l.span? file) (htidy : Tidy (node l cs))
    (hinPlace : ∀ c ∈ cs, InPlace file c) : InPlace file (node l cs) := by
  have hkept : Kept file l (cs.map render) := by
    refine ⟨?_, ?_, ?_⟩
    · simp only [List.forall_mem_map, label_render]
      exact htidy.encloses
    · simp only [List.forall_mem_map, label_render]
      exact fun c hc => (hinPlace c hc).placed
    · simp only [List.pairwise_map, label_render]
      exact htidy.namespaceFirst
  have hbelow : ∀ c ∈ cs.map render, Kept file c.label c.children := by
    simp only [List.forall_mem_map, label_render]
    exact fun c hc => (hinPlace c hc).below
  have hclauses : clausesOf (cs.map render) = (clauses (node l cs)).map render := by
    simp [clausesOf, clauses, children, List.filter_map, Function.comp_def]
  have hlast : l.type = "if_statement" → EndsInElseIf (clausesOf (cs.map render)) := by
    simp only [EndsInElseIf, hclauses, List.head?_map, Option.mem_map, forall_exists_index, and_imp,
      forall_apply_eq_imp_iff₂, label_render, List.length_map]
    exact htidy.elseIfLast
  rw [← renderAll_eq] at hkept hbelow hlast
  exact ⟨placed_tagNode hfile hkept hbelow hlast, hkept⟩

mutual

theorem inPlace_of_tidy {file : Option Span} : ∀ t : ParseTree, (∀ n ∈ t.nodes, n.Tidy) →
    Span.Inside t.label.span? file → InPlace file t
  | node l cs, h, hfile => by
    obtain ⟨hnode, hbelow⟩ := List.forall_mem_cons.1 h
    refine inPlace_node hfile hnode (inPlaceAmong_of_tidy cs hbelow fun c hc => ?_)
    obtain ⟨hstart, hstop⟩ := hnode.encloses c hc
    exact (TreeLabel.inside_span? hstart hstop).trans hfile
termination_by structural t => t

theorem inPlaceAmong_of_tidy {file : Option Span} : ∀ ts : List ParseTree,
    (∀ n ∈ nodesAmong ts, n.Tidy) → (∀ t ∈ ts, Span.Inside t.label.span? file) →
      ∀ t ∈ ts, InPlace file t
  | [], _, _ => fun _ ht => nomatch ht
  | t :: rest, h, hfile => by
    rw [nodesAmong, List.forall_mem_append] at h
    rw [List.forall_mem_cons] at hfile ⊢
    exact ⟨inPlace_of_tidy t h.1 hfile.1, inPlaceAmong_of_tidy rest h.2 hfile.2⟩
termination_by structural ts => ts

end

end ParseTree

end SymbolAtlas
