import Mathlib
import SymbolAtlas.Proofs.ParseTree.Akin
import SymbolAtlas.Proofs.ParseTree.Chain

/-!
# Comments in a parse tree

A comment that opens no documentation may stand anywhere in a source, and it says nothing about the
entities of a file.  `Commented` relates a parse tree to the same tree with such comments put in
among the children of its nodes.
-/

namespace SymbolAtlas

/-! ## Lists with more items put in -/

/-- The second list is the first one, item by item as `R` says, with items put in that `E`
allows. -/
inductive Woven {α : Type} (R : α → α → Prop) (E : α → Prop) : List α → List α → Prop
  | nil : Woven R E [] []
  | keep {a b : α} {as bs : List α} (hab : R a b) (h : Woven R E as bs) :
      Woven R E (a :: as) (b :: bs)
  | insert {b : α} {as bs : List α} (hb : E b) (h : Woven R E as bs) : Woven R E as (b :: bs)

namespace Woven

variable {α : Type} {R S : α → α → Prop} {E : α → Prop} {as bs : List α}

theorem mono (h : Woven R E as bs) (himp : ∀ a ∈ as, ∀ b, R a b → S a b) : Woven S E as bs := by
  induction h with
  | nil => exact .nil
  | keep hab _ ih =>
    exact .keep (himp _ List.mem_cons_self _ hab)
      (ih fun a ha => himp a (List.mem_cons_of_mem _ ha))
  | insert hb _ ih => exact .insert hb (ih himp)

theorem of_forall (h : ∀ a ∈ as, R a a) : Woven R E as as := by
  induction as with
  | nil => exact .nil
  | cons a rest ih =>
    obtain ⟨ha, hrest⟩ := List.forall_mem_cons.1 h
    exact .keep ha (ih hrest)

theorem exists_mem (h : Woven R E as bs) {a : α} (ha : a ∈ as) : ∃ b ∈ bs, R a b := by
  induction h with
  | nil => cases ha
  | keep hab _ ih =>
    rcases List.mem_cons.1 ha with rfl | ha
    · exact ⟨_, List.mem_cons_self, hab⟩
    · obtain ⟨b, hb, hab⟩ := ih ha
      exact ⟨b, List.mem_cons_of_mem _ hb, hab⟩
  | insert _ _ ih =>
    obtain ⟨b, hb, hab⟩ := ih ha
    exact ⟨b, List.mem_cons_of_mem _ hb, hab⟩

/-- Both lists contribute the same if the items that were put in contribute nothing. -/
theorem flatMap_eq {β : Type} {f : α → List β} (h : Woven R E as bs)
    (hR : ∀ a b, R a b → f a = f b) (hE : ∀ b, E b → f b = []) : as.flatMap f = bs.flatMap f := by
  induction h with
  | nil => rfl
  | keep hab _ ih => rw [List.flatMap_cons, List.flatMap_cons, hR _ _ hab, ih]
  | insert hb _ ih => rw [List.flatMap_cons, hE _ hb, ih, List.nil_append]

section Select

variable {p : α → Bool} (h : Woven R E as bs) (hp : ∀ a b, R a b → p b = p a)

include h hp

theorem filter : Woven R E (as.filter p) (bs.filter p) := by
  induction h with
  | nil => exact .nil
  | @keep a b as bs hab _ ih =>
    rw [List.filter_cons, List.filter_cons, hp a b hab]
    split
    · exact .keep hab ih
    · exact ih
  | insert hb _ ih =>
    rw [List.filter_cons]
    split
    · exact .insert hb ih
    · exact ih

/-- Without what was put in, the lists agree item by item. -/
theorem forall₂_filter (hE : ∀ b, E b → p b = false) :
    List.Forall₂ R (as.filter p) (bs.filter p) := by
  induction h with
  | nil => exact .nil
  | @keep a b as bs hab _ ih =>
    rw [List.filter_cons, List.filter_cons, hp a b hab]
    split
    · exact .cons hab ih
    · exact ih
  | insert hb _ ih =>
    rw [List.filter_cons, if_neg (by simp [hE _ hb])]
    exact ih

theorem takeWhile (hE : ∀ b, E b → p b = true) :
    Woven R E (as.takeWhile p) (bs.takeWhile p) := by
  induction h with
  | nil => exact .nil
  | @keep a b as bs hab _ ih =>
    rw [List.takeWhile_cons, List.takeWhile_cons, hp a b hab]
    split
    · exact .keep hab ih
    · exact .nil
  | insert hb _ ih =>
    rw [List.takeWhile_cons, if_pos (hE _ hb)]
    exact .insert hb ih

theorem dropWhile (hE : ∀ b, E b → p b = true) :
    Woven R E (as.dropWhile p) (bs.dropWhile p) := by
  induction h with
  | nil => exact .nil
  | @keep a b as bs hab hrest ih =>
    rw [List.dropWhile_cons, List.dropWhile_cons, hp a b hab]
    split
    · exact ih
    · exact .keep hab hrest
  | insert hb _ ih =>
    rw [List.dropWhile_cons, if_pos (hE _ hb)]
    exact ih

end Select

end Woven

namespace ParseTree

open Rendered

/-! ## Trees with comments put in -/

/-- A comment that opens no documentation.  It has no role in its parent. -/
structure IsPlainComment (t : ParseTree) : Prop where
  type_eq : t.label.type = "comment"
  field_eq : t.label.field = none
  text_ne : t.label.text.toList.take 3 ≠ ['/', '*', '*']

/-- The second tree is the first one with plain comments put in among the children of its nodes.  A
node and its counterpart have the same label, and `P` holds of them. -/
inductive Commented (P : ParseTree → ParseTree → Prop) : ParseTree → ParseTree → Prop
  | node {l : TreeLabel} {cs cs' : List ParseTree}
      (hcs : Woven (Commented P) IsPlainComment cs cs') (hp : P (.node l cs) (.node l cs')) :
      Commented P (.node l cs) (.node l cs')

namespace Commented

variable {P Q : ParseTree → ParseTree → Prop} {t t' : ParseTree}

theorem label_eq (h : Commented P t t') : t'.label = t.label := by
  cases h
  rfl

theorem children (h : Commented P t t') :
    Woven (Commented P) IsPlainComment t.children t'.children := by
  cases h with
  | node hcs _ => exact hcs

theorem holds (h : Commented P t t') : P t t' := by
  cases h with
  | node _ hp => exact hp

theorem refl (hP : ∀ t, P t t) (t : ParseTree) : Commented P t t := by
  induction hn : sizeOf t using Nat.strong_induction_on generalizing t with
  | _ n ih =>
    subst hn
    obtain ⟨l, cs⟩ := t
    refine .node (Woven.of_forall fun c hc => ih _ ?_ c rfl) (hP _)
    have := List.sizeOf_lt_of_mem hc
    simp only [node.sizeOf_spec]
    omega

/-- What holds of a node and its counterpart, provided that it holds of all those below them, holds
throughout. -/
theorem upgrade (step : ∀ l cs cs', Woven (Commented Q) IsPlainComment cs cs' →
    P (.node l cs) (.node l cs') → Q (.node l cs) (.node l cs'))
    (h : Commented P t t') : Commented Q t t' := by
  induction hn : sizeOf t using Nat.strong_induction_on generalizing t t' with
  | _ n ih =>
    subst hn
    cases h with
    | @node l cs cs' hcs hp =>
      have hcs' : Woven (Commented Q) IsPlainComment cs cs' := by
        refine hcs.mono fun c hc c' hcc => ih _ ?_ hcc rfl
        have := List.sizeOf_lt_of_mem hc
        simp only [node.sizeOf_spec]
        omega
      exact .node hcs' (step l cs cs' hcs' hp)

end Commented

section Children

variable {P : ParseTree → ParseTree → Prop} {t t' : ParseTree}
  (h : Woven (Commented P) IsPlainComment t.children t'.children)

include h

/-- The children with a role are the same in both trees. -/
theorem forall₂_role (role : String) :
    List.Forall₂ (Commented P) (t.children.filter fun c => c.label.field == some role)
      (t'.children.filter fun c => c.label.field == some role) :=
  h.forall₂_filter (fun a b hab => by rw [hab.label_eq])
    (fun b hb => by rw [hb.field_eq]; rfl)

theorem child?_cases (role : String) :
    (t.child? role = none ∧ t'.child? role = none) ∨
      ∃ c c', t.child? role = some c ∧ t'.child? role = some c' ∧ Commented P c c' := by
  have hroles := forall₂_role h role
  rw [child?, child?, ← List.head?_filter, ← List.head?_filter]
  generalize t.children.filter (fun c => c.label.field == some role) = cs at hroles ⊢
  generalize t'.children.filter (fun c => c.label.field == some role) = cs' at hroles ⊢
  cases hroles with
  | nil => exact Or.inl ⟨rfl, rfl⟩
  | cons hc _ => exact Or.inr ⟨_, _, rfl, rfl, hc⟩

theorem childText?_eq (role : String) :
    childText? t'.render.children role = childText? t.render.children role := by
  rw [childText?, childText?, child?_render, child?_render]
  obtain ⟨hnone, hnone'⟩ | ⟨c, c', hc, hc', hcc⟩ := child?_cases h role
  · rw [hnone, hnone']
  · rw [hc, hc', Option.map_some, Option.map_some, Option.map_some, Option.map_some, label_render,
      label_render, hcc.label_eq]

theorem woven_named :
    Woven (Commented P) IsPlainComment (t.children.filter fun c => c.label.named)
      (t'.children.filter fun c => c.label.named) :=
  h.filter (fun a b hab => by rw [hab.label_eq])

end Children

/-! ## Literal targets -/

mutual

/-- A node without any parentheses around it. -/
def innermost : ParseTree → ParseTree
  | node l cs =>
    if l.type = "parenthesized_expression" then (firstNamed cs).getD (node l cs) else node l cs
termination_by structural t => t

/-- The first named node among several, without any parentheses around it. -/
def firstNamed : List ParseTree → Option ParseTree
  | [] => none
  | t :: rest => if t.label.named then some (innermost t) else firstNamed rest
termination_by structural ts => ts

end

/-- A string without expressions in it. -/
def isLiteral (t : ParseTree) : Bool :=
  (t.label.type = "string" || t.label.type = "encapsed_string") &&
    (t.children.filter fun c => c.label.named).all fun c =>
      ["string_content", "string_value", "escape_sequence"].contains c.label.type

/-- The path that an include directive names literally. -/
def literalPath? (t : ParseTree) : Option String :=
  ((firstNamed t.children).filter isLiteral).map fun u => unquoted u.label.text

mutual

theorem insideParens_render : ∀ t : ParseTree,
    insideParens t.render = targetValue (innermost t).render
  | node l cs => by
    show insideParens (.node l _ (renderAll cs)) = _
    rw [insideParens, innermost, firstNamedTarget_render cs]
    split
    · cases firstNamed cs <;> rfl
    · rfl
termination_by structural t => t

theorem firstNamedTarget_render : ∀ ts : List ParseTree,
    firstNamedTarget (renderAll ts) = (firstNamed ts).map fun u => targetValue u.render
  | [] => rfl
  | t :: rest => by
    rw [renderAll, firstNamedTarget, firstNamed, label_render, insideParens_render t,
      firstNamedTarget_render rest]
    split <;> rfl
termination_by structural ts => ts

end

theorem namedOf_render (t : ParseTree) :
    namedOf t.render.children = (t.children.filter fun c => c.label.named).map render := by
  obtain ⟨l, cs⟩ := t
  show namedOf (renderAll cs) = _
  rw [renderAll_eq, namedOf, List.filter_map]
  simp only [Function.comp_def, label_render]
  rfl

/-- A converted node is no literal path by itself. -/
theorem pathOnly_convert (t : ParseTree) : (Node.includeTarget t.convert).pathOnly = .null := by
  obtain ⟨kind, range, fields, htagged, hstring⟩ := isTagged_convert t
  rw [htagged, Node.includeTarget]
  split
  · next path hkind hvalue =>
    have hget : Ledger.get? fields "value" = some (.str path) := by
      have hfield : (Value.object (("kind", .str kind) :: ("range", range) :: fields)).field "value"
          = (Ledger.get? fields "value").getD .null := rfl
      rw [hfield] at hvalue
      cases hfound : Ledger.get? fields "value" with
      | none => rw [hfound] at hvalue; cases hvalue
      | some v => rw [hfound] at hvalue; exact congrArg some hvalue
    have hsame : kind = "string" := Value.str.inj hkind
    rw [hstring hsame] at hget
    cases hget
  · rfl

theorem pathOnly_targetValue (t : ParseTree) :
    (Node.includeTarget (targetValue t.render)).pathOnly =
      if t.isLiteral then .str (unquoted t.label.text) else .null := by
  have hplain : (namedOf t.render.children).all isPlainPart =
      (t.children.filter fun c => c.label.named).all fun c =>
        ["string_content", "string_value", "escape_sequence"].contains c.label.type := by
    rw [namedOf_render, List.all_map]
    simp only [Function.comp_def, isPlainPart, label_render]
  rw [targetValue, label_render, hplain, isLiteral]
  split
  · rfl
  · exact pathOnly_convert t

/-- The literal path of a directive is that of its converted target. -/
theorem pathOnly_target (t : ParseTree) :
    (Node.includeTarget ((firstNamedTarget t.render.children).getD .null)).pathOnly =
      (t.literalPath?.map Value.str).getD .null := by
  obtain ⟨l, cs⟩ := t
  show (Node.includeTarget ((firstNamedTarget (renderAll cs)).getD .null)).pathOnly = _
  rw [firstNamedTarget_render, literalPath?]
  show _ = (((((firstNamed cs).filter isLiteral)).map fun u => unquoted u.label.text).map
    Value.str).getD .null
  cases firstNamed cs with
  | none => rfl
  | some u =>
    rw [Option.map_some, Option.getD_some, pathOnly_targetValue, Option.filter_some]
    split <;> rfl

section Literals

variable {P : ParseTree → ParseTree → Prop}

theorem type_eq_of_isLiteral {t : ParseTree} (h : t.isLiteral = true) :
    t.label.type = "string" ∨ t.label.type = "encapsed_string" := by
  rw [isLiteral, Bool.and_eq_true, Bool.or_eq_true, decide_eq_true_eq, decide_eq_true_eq] at h
  exact h.1

theorem not_isLiteral_of_type {t : ParseTree} {type : String} (htype : t.label.type = type)
    (hne : type ≠ "string" ∧ type ≠ "encapsed_string") : ¬ t.isLiteral = true := by
  intro h
  obtain hstring | hstring := type_eq_of_isLiteral h
  · exact hne.1 (htype ▸ hstring)
  · exact hne.2 (htype ▸ hstring)

/-- A literal with comments taken out is a literal. -/
theorem isLiteral_of_commented {t t' : ParseTree} (h : Commented P t t')
    (hlit : t'.isLiteral = true) : t.isLiteral = true := by
  rw [isLiteral, Bool.and_eq_true, h.label_eq, List.all_eq_true] at hlit
  rw [isLiteral, Bool.and_eq_true, List.all_eq_true]
  refine ⟨hlit.1, fun c hc => ?_⟩
  obtain ⟨c', hc', hcc⟩ := (woven_named h.children).exists_mem hc
  rw [← hcc.label_eq]
  exact hlit.2 c' hc'

mutual

/-- If a target is a literal, it was the same literal without the comments. -/
theorem innermost_of_commented : ∀ (t' t : ParseTree), Commented P t t' →
    (innermost t').isLiteral = true →
      (innermost t).isLiteral = true ∧ (innermost t').label = (innermost t).label
  | .node l cs', _, h, hlit => by
    cases h with
    | @node _ cs _ hcs hp =>
      rw [innermost] at hlit
      rw [innermost, innermost]
      split at hlit
      · next hparen =>
        rw [if_pos hparen, if_pos hparen]
        cases hfirst : firstNamed cs' with
        | none =>
          rw [hfirst] at hlit
          exact absurd hlit (not_isLiteral_of_type hparen (by decide))
        | some u' =>
          rw [hfirst, Option.getD_some] at hlit
          obtain ⟨u, hu, hlit', hlabel⟩ := firstNamed_of_woven cs' cs hcs u' hfirst hlit
          rw [hu, Option.getD_some, Option.getD_some]
          exact ⟨hlit', hlabel⟩
      · next hparen =>
        rw [if_neg hparen, if_neg hparen]
        exact ⟨isLiteral_of_commented (.node hcs hp) hlit, rfl⟩
termination_by structural t' => t'

theorem firstNamed_of_woven : ∀ ts' ts : List ParseTree, Woven (Commented P) IsPlainComment ts ts' →
    ∀ u', firstNamed ts' = some u' → u'.isLiteral = true →
      ∃ u, firstNamed ts = some u ∧ u.isLiteral = true ∧ u'.label = u.label
  | [], _, _, _, hfirst, _ => nomatch hfirst
  | t' :: rest', _, h, u', hfirst, hlit => by
    rw [firstNamed] at hfirst
    cases h with
    | @keep t _ rest _ ht hrest =>
      rw [ht.label_eq] at hfirst
      rw [firstNamed]
      split at hfirst
      · next hnamed =>
        obtain rfl := Option.some.inj hfirst
        rw [if_pos hnamed]
        exact ⟨_, rfl, innermost_of_commented t' t ht hlit⟩
      · next hnamed =>
        rw [if_neg hnamed]
        exact firstNamed_of_woven rest' rest hrest u' hfirst hlit
    | insert hc hrest =>
      split at hfirst
      · -- the comment itself would be the target
        obtain rfl := Option.some.inj hfirst
        have hself : innermost t' = t' := by
          obtain ⟨l, cs⟩ := t'
          have htype : l.type = "comment" := hc.type_eq
          rw [innermost, htype, if_neg (by decide)]
        rw [hself] at hlit
        exact absurd hlit (not_isLiteral_of_type hc.type_eq (by decide))
      · exact firstNamed_of_woven rest' _ hrest u' hfirst hlit
termination_by structural ts' => ts'

end

theorem literalPath?_of_woven {t t' : ParseTree}
    (h : Woven (Commented P) IsPlainComment t.children t'.children) {path : String}
    (hpath : t'.literalPath? = some path) : t.literalPath? = some path := by
  obtain ⟨u', hu', rfl⟩ := Option.map_eq_some_iff.1 hpath
  obtain ⟨hfirst, hlit⟩ := Option.filter_eq_some_iff.1 hu'
  obtain ⟨u, hu, hlit', hlabel⟩ := firstNamed_of_woven _ _ h u' hfirst hlit
  rw [literalPath?, hu, Option.filter_some_pos hlit', Option.map_some, hlabel]

end Literals

/-! ## What comments do to the conversion -/

/-- Comments put into a node are without harm to it: an expression statement has a single child if
it had one before and only then, and an include directive that names a path literally still does. -/
structure Harmless (t t' : ParseTree) : Prop where
  statement : t.label.type = "expression_statement" →
    ((t.children.filter fun c => c.label.named).length = 1 ↔
      (t'.children.filter fun c => c.label.named).length = 1)
  target : (includeFlags? t.label.type).isSome = true → t.literalPath?.isSome = true →
    t'.literalPath?.isSome = true

theorem Harmless.refl (t : ParseTree) : Harmless t t :=
  ⟨fun _ => Iff.rfl, fun _ => id⟩

instance (t t' : ParseTree) : Decidable (Harmless t t') :=
  decidable_of_iff (_ ∧ _) ⟨fun h => ⟨h.1, h.2⟩, fun h => ⟨h.statement, h.target⟩⟩

/-- A plain comment contributes nothing. -/
theorem gistAll_comment {c : ParseTree} (hc : c.IsPlainComment) :
    Node.gistAll (Node.ofValue c.convert) = [] := by
  obtain ⟨l, cs⟩ := c
  have htype : l.type = "comment" := hc.type_eq
  have hconvert : (node l cs).convert = l.tagged "comment" [("value", .str l.text)] := by
    show tagNode l (renderAll cs) = _
    simp only [tagNode, htype]
    exact if_neg hc.text_ne
  have hdoc : Node.docText "comment" (l.tagged "comment" [("value", .str l.text)]) = none := by
    have hreads : Node.readsLikeDoc (l.tagged "comment" [("value", .str l.text)]) = false := by
      have hopens : Node.opensDoc l.text = false := beq_eq_false_iff_ne.2 hc.text_ne
      have hvalue : (l.tagged "comment" [("value", .str l.text)]).field "value" = .str l.text := rfl
      have hbody : (l.tagged "comment" [("value", .str l.text)]).field "body" = .null := rfl
      rw [Node.readsLikeDoc, hvalue, hbody]
      cases (Value.str l.text).truthy with
      | true => exact hopens
      | false => rfl
    rw [Node.docText, hreads]
    rfl
  have hnode : Node.ofValue (l.tagged "comment" [("value", .str l.text)]) =
      [Node.classify "comment" (l.tagged "comment" [("value", .str l.text)])
        (Reading.readFields [("kind", .str "comment"), ("range", l.range),
          ("value", .str l.text)])] := rfl
  rw [hconvert, hnode, Node.classify]
  simp only [hdoc]
  rfl

theorem gistAll_openNamespace (r : Rendered) (stop : Int) (taken : List Value) :
    Node.gistAll (Node.ofValue (openNamespace r stop taken)) =
      [.namespaceNode { tag := "", name := some ((childText? r.children "name").getD "") }
        (Node.gistAll (Node.ofValue (.list taken)))] :=
  rfl

theorem isObject_statements {rs : List Rendered} (h : ∀ r ∈ rs, r.value.isObject = true) :
    ∀ v ∈ statements rs, v.isObject = true := by
  induction rs using statements_induction with
  | nil => exact List.forall_mem_nil _
  | opened r rest hopen ih =>
    rw [statements_cons, if_pos hopen]
    have hrest : ∀ u ∈ rest.dropWhile isPlainStatement, u.value.isObject = true := fun u hu =>
      h u (List.mem_cons_of_mem _ ((List.dropWhile_sublist _).subset hu))
    exact List.forall_mem_cons.2 ⟨rfl, ih hrest⟩
  | plain r rest hplain ih =>
    rw [statements_cons, if_neg (by simp [hplain])]
    obtain ⟨hr, hrest⟩ := List.forall_mem_cons.1 h
    exact List.forall_mem_cons.2 ⟨hr, ih hrest⟩

/-- The target of an include directive is the same literal path as without the comments. -/
theorem literalPath?_eq {P : ParseTree → ParseTree → Prop} {t t' : ParseTree}
    (h : Woven (Commented P) IsPlainComment t.children t'.children)
    (htarget : t.literalPath?.isSome = true → t'.literalPath?.isSome = true) :
    t'.literalPath? = t.literalPath? := by
  cases hpath : t.literalPath? with
  | none =>
    cases hpath' : t'.literalPath? with
    | none => rfl
    | some path =>
      rw [literalPath?_of_woven h hpath'] at hpath
      cases hpath
  | some path =>
    obtain ⟨path', hpath'⟩ := Option.isSome_iff_exists.1 (htarget (by rw [hpath]; rfl))
    rw [hpath', ← hpath, literalPath?_of_woven h hpath']

section Step

variable {Q : ParseTree → ParseTree → Prop} (hQ : ∀ u u', Q u u' → u.convert.Akin u'.convert)

include hQ

theorem gistAll_converted {ts ts' : List ParseTree}
    (h : Woven (Commented Q) IsPlainComment ts ts') :
    Node.gistAll (Node.ofValue (.list (ts.map convert))) =
      Node.gistAll (Node.ofValue (.list (ts'.map convert))) := by
  have hobjects : ∀ us : List ParseTree, ∀ v ∈ us.map convert, v.isObject = true := fun us =>
    List.forall_mem_map.2 fun u _ => (isTagged_convert u).isObject_eq
  rw [gistAll_list (hobjects ts), gistAll_list (hobjects ts'), List.flatMap_map, List.flatMap_map]
  exact h.flatMap_eq (fun u u' hu => (hQ u u' hu.holds).gist) fun c => gistAll_comment

theorem flatMap_statements {ts ts' : List ParseTree}
    (h : Woven (Commented Q) IsPlainComment ts ts') :
    (statements (ts.map render)).flatMap (fun v => Node.gistAll (Node.ofValue v)) =
      (statements (ts'.map render)).flatMap fun v => Node.gistAll (Node.ofValue v) := by
  induction hn : ts'.length using Nat.strong_induction_on generalizing ts ts' with
  | _ n ih =>
    subst hn
    cases h with
    | nil => rfl
    | @insert c _ rest' hc hrest =>
      have hplain : opensNamespace c.render = false := by
        rw [opensNamespace, label_render, hc.type_eq]
        rfl
      rw [List.map_cons, statements_cons, if_neg (by simp [hplain]), List.flatMap_cons]
      have hnone : Node.gistAll (Node.ofValue c.render.value) = [] := gistAll_comment hc
      rw [hnone, List.nil_append]
      exact ih _ (Nat.lt_succ_self _) hrest rfl
    | @keep t t' rest rest' ht hrest =>
      have hopens : opensNamespace t'.render = opensNamespace t.render := by
        rw [opensNamespace_render, opensNamespace_render, isUnbracketed, isUnbracketed,
          definesNamespace, definesNamespace, ht.label_eq]
        obtain ⟨hnone, hnone'⟩ | ⟨c, c', hc, hc', -⟩ := child?_cases ht.children "body"
        · rw [hnone, hnone']
        · rw [hc, hc']
          rfl
      have hdefines : ∀ u u', Commented Q u u' →
          (!u'.definesNamespace) = !u.definesNamespace := fun u u' hu => by
        rw [definesNamespace, definesNamespace, hu.label_eq]
      have hcomment : ∀ c : ParseTree, c.IsPlainComment → (!c.definesNamespace) = true :=
        fun c hc => by rw [definesNamespace, hc.type_eq]; rfl
      rw [List.map_cons, List.map_cons, statements_cons, statements_cons, hopens]
      split
      · rw [takeWhile_render, takeWhile_render, dropWhile_render, dropWhile_render,
          List.flatMap_cons, List.flatMap_cons]
        have hlength : (rest'.dropWhile fun u => !u.definesNamespace).length <
            (t' :: rest').length :=
          Nat.lt_succ_of_le (List.dropWhile_suffix _).length_le
        rw [ih _ hlength (hrest.dropWhile hdefines hcomment) rfl]
        congr 1
        rw [gistAll_openNamespace, gistAll_openNamespace, childText?_eq ht.children, List.map_map,
          List.map_map]
        exact congrArg (fun ns => [Node.namespaceNode _ ns])
          (gistAll_converted hQ (hrest.takeWhile hdefines hcomment))
      · rw [List.flatMap_cons, List.flatMap_cons, ih _ (Nat.lt_succ_self _) hrest rfl]
        congr 1
        exact (hQ t t' ht.holds).gist

/-- A statement list contributes the same with comments in it, whatever the namespaces in it take
in. -/
theorem gistAll_statements {ts ts' : List ParseTree}
    (h : Woven (Commented Q) IsPlainComment ts ts') :
    Node.gistAll (Node.ofValue (.list (statements (ts.map render)))) =
      Node.gistAll (Node.ofValue (.list (statements (ts'.map render)))) := by
  have hobjects : ∀ us : List ParseTree, ∀ v ∈ statements (us.map render), v.isObject = true :=
    fun us => isObject_statements
      (List.forall_mem_map.2 fun u _ => (isTagged_convert u).isObject_eq)
  rw [gistAll_list (hobjects ts), gistAll_list (hobjects ts'), flatMap_statements hQ h]

theorem akin_childValue {t t' : ParseTree}
    (h : Woven (Commented Q) IsPlainComment t.children t'.children) (role : String) :
    (childValue t.render.children role).Akin (childValue t'.render.children role) := by
  obtain ⟨hnone, hnone'⟩ | ⟨c, c', hc, hc', hcc⟩ := child?_cases h role
  · rw [childValue, childValue, child?_render, child?_render, hnone, hnone']
    exact .refl _
  · rw [childValue_render hc, childValue_render hc']
    exact hQ c c' hcc.holds

/-- Clauses are nested in the same way. -/
theorem akin_alternate {clauses clauses' : List ParseTree}
    (h : List.Forall₂ (Commented Q) clauses clauses') :
    (alternate (clauses.map render)).Akin (alternate (clauses'.map render)) := by
  induction h with
  | nil => exact .refl _
  | @cons c c' rest rest' hc _ ih =>
    rw [List.map_cons, List.map_cons, alternate, alternate, label_render, label_render, hc.label_eq]
    have hbody := akin_childValue hQ hc.children "body"
    split
    · exact akin_if c.label _ _ hbody ih
    · exact hbody

section Shapes

variable {t t' : ParseTree} (h : Woven (Commented Q) IsPlainComment t.children t'.children)

include h

theorem akin_genericNode (l : TreeLabel) :
    (genericNode l t.render.children).Akin (genericNode l t'.render.children) := by
  refine akin_generic l ?_
  rw [namedOf_render, namedOf_render, List.map_map, List.map_map]
  exact gistAll_converted hQ (woven_named h)

theorem akin_declarationNode (l : TreeLabel) {kind : String}
    (hkind : kind ∈ ["class", "interface", "trait", "function", "method"]) :
    (declarationNode kind l t.render.children).Akin
      (declarationNode kind l t'.render.children) := by
  rw [declarationNode, declarationNode, childText?_eq h]
  exact akin_declaration l hkind _ (akin_childValue hQ h "body")

theorem akin_namespaceNode (l : TreeLabel) :
    (namespaceNode l t.render.children).Akin (namespaceNode l t'.render.children) := by
  rw [namespaceNode, namespaceNode, childText?_eq h, child?_render, child?_render]
  refine akin_namespace l _ ?_
  obtain ⟨hnone, hnone'⟩ | ⟨c, c', hc, hc', hcc⟩ := child?_cases h "body"
  · rw [hnone, hnone']
  · rw [hc, hc', Option.map_some, Option.map_some]
    simp only [namedOf_render]
    exact gistAll_statements hQ (woven_named hcc.children)

theorem akin_assignNode (l : TreeLabel) :
    (assignNode l t.render.children).Akin (assignNode l t'.render.children) := by
  refine akin_assign l ?_ (akin_childValue hQ h "right")
  rw [child?_render, child?_render]
  obtain ⟨hnone, hnone'⟩ | ⟨c, c', hc, hc', hcc⟩ := child?_cases h "left"
  · rw [hnone, hnone']
    exact .refl _
  · rw [hc, hc', Option.map_some, Option.map_some, leftValue, leftValue, label_render,
      label_render, hcc.label_eq]
    split
    · exact .refl _
    · exact hQ c c' hcc.holds

theorem akin_expressionStatement (l : TreeLabel)
    (hcount : (t.children.filter fun c => c.label.named).length = 1 ↔
      (t'.children.filter fun c => c.label.named).length = 1) :
    (expressionStatement l t.render.children).Akin
      (expressionStatement l t'.render.children) := by
  have hmany : ∀ u : ParseTree, (u.children.filter fun c => c.label.named).length ≠ 1 →
      expressionStatement l u.render.children = genericNode l u.render.children := by
    intro u hu
    rw [expressionStatement, namedOf_render]
    split
    · next only honly =>
      rw [← List.length_map render, honly] at hu
      exact absurd rfl hu
    · rfl
  have hwoven := woven_named h
  by_cases hone : (t.children.filter fun c => c.label.named).length = 1
  · obtain ⟨c, hc⟩ := List.length_eq_one_iff.1 hone
    obtain ⟨c', hc'⟩ := List.length_eq_one_iff.1 (hcount.1 hone)
    rw [expressionStatement, expressionStatement, namedOf_render, namedOf_render, hc, hc']
    rw [hc, hc'] at hwoven
    cases hwoven with
    | keep hcc _ => exact hQ c c' hcc.holds
    | insert _ hrest => cases hrest
  · rw [hmany t hone, hmany t' (mt hcount.2 hone)]
    exact akin_genericNode hQ h l

omit hQ in
theorem akin_includeNode (l : TreeLabel) (once require : Bool)
    (htarget : t.literalPath?.isSome = true → t'.literalPath?.isSome = true) :
    (includeNode l once require t.render.children).Akin
      (includeNode l once require t'.render.children) := by
  refine akin_include l once require ?_
  rw [pathOnly_target, pathOnly_target, literalPath?_eq h htarget]

theorem akin_ifNode (l : TreeLabel) :
    (ifNode l t.render.children).Akin (ifNode l t'.render.children) := by
  rw [ifNode, ifNode, clauses_render, clauses_render]
  exact akin_if l _ _ (akin_childValue hQ h "body")
    (akin_alternate hQ (forall₂_role h "alternative"))

theorem akin_tryNode (l : TreeLabel) :
    (tryNode l t.render.children).Akin (tryNode l t'.render.children) := by
  -- the clauses of a type, among the named children, with the bodies that they give
  have hclauses : ∀ type : String, type ≠ "comment" → List.Forall₂ Value.Akin
      (((namedOf t.render.children).filter fun c => c.label.type = type).map fun c =>
        childValue c.children "body")
      (((namedOf t'.render.children).filter fun c => c.label.type = type).map fun c =>
        childValue c.children "body") := by
    intro type htype
    have hpairs := (woven_named h).forall₂_filter (p := fun c => c.label.type = type)
      (fun c c' hc => by rw [hc.label_eq]) (fun c hc => by rw [hc.type_eq]; simpa using htype.symm)
    rw [namedOf_render, namedOf_render, List.filter_map, List.filter_map, List.map_map,
      List.map_map]
    simp only [Function.comp_def, label_render]
    exact List.forall₂_map_left_iff.2 (List.forall₂_map_right_iff.2
      (hpairs.imp fun c c' hc => akin_childValue hQ hc.children "body"))
  have hhandlers : ∀ cs : List Rendered, (((cs.map fun c =>
      c.label.tagged "catch" [("body", childValue c.children "body")]).filter Value.isObject).map
        (·.field "body")) = cs.map fun c => childValue c.children "body" := by
    intro cs
    rw [List.filter_eq_self.2 (List.forall_mem_map.2 fun c _ => rfl), List.map_map]
    rfl
  refine akin_try l (akin_childValue hQ h "body") ?_
    (Value.Akin.getLast?_getD (hclauses "finally_clause" (by decide)))
  rw [hhandlers, hhandlers]
  exact hclauses "catch_clause" (by decide)

/-- A node is converted to a value of the same gist if all nodes below it are. -/
theorem akin_convert (hlabel : t'.label = t.label) (hharmless : Harmless t t') :
    t.convert.Akin t'.convert := by
  obtain ⟨l, cs⟩ := t
  obtain ⟨l', cs'⟩ := t'
  obtain rfl : l' = l := hlabel
  show (tagNode l' (renderAll cs)).Akin (tagNode l' (renderAll cs'))
  unfold tagNode
  split
  · exact .refl _
  · exact akin_namespaceNode hQ h l'
  · exact akin_declarationNode hQ h l' (by decide)
  · exact akin_declarationNode hQ h l' (by decide)
  · exact akin_declarationNode hQ h l' (by decide)
  · exact akin_declarationNode hQ h l' (by decide)
  · exact akin_declarationNode hQ h l' (by decide)
  · next htype => exact akin_expressionStatement hQ h l' (hharmless.statement htype)
  · exact akin_ifNode hQ h l'
  · exact akin_tryNode hQ h l'
  · exact akin_assignNode hQ h l'
  · split
    · next once require hflags =>
      exact akin_includeNode h l' once require (hharmless.target (by
        show (includeFlags? l'.type).isSome = true
        rw [hflags]
        rfl))
    · exact akin_genericNode hQ h l'

end Shapes

end Step

/-- Comments without harm leave the gist of every node as it is. -/
theorem Commented.akin {t t' : ParseTree} (h : Commented Harmless t t') :
    Commented (fun u u' => Harmless u u' ∧ u.convert.Akin u'.convert) t t' :=
  h.upgrade fun _ _ _ hcs hharmless =>
    ⟨hharmless, akin_convert (fun _ _ h => h.2) hcs rfl hharmless⟩

/-- The statements of a source contribute the same with comments in it. -/
theorem gistAll_program {l : TreeLabel} {cs cs' : List ParseTree}
    (h : Woven (Commented Harmless) IsPlainComment cs cs') :
    Node.gistAll (Node.ofValue (SourceFile.statements (node l cs).program)) =
      Node.gistAll (Node.ofValue (SourceFile.statements (node l cs').program)) := by
  have hstatements : ∀ ts : List ParseTree, SourceFile.statements (node l ts).program =
      .list (statements ((ts.filter fun c => c.label.named).map render)) := by
    intro ts
    show Value.list (statements (namedOf (node l ts).render.children)) = _
    rw [namedOf_render]
    rfl
  have hnamed : Woven _ IsPlainComment (cs.filter fun c => c.label.named)
      (cs'.filter fun c => c.label.named) :=
    (h.mono fun _ _ _ hcc => hcc.akin).filter fun a b hab => by rw [hab.label_eq]
  rw [hstatements, hstatements]
  exact gistAll_statements (fun _ _ h => h.2) hnamed

end ParseTree

end SymbolAtlas
