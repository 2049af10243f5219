import Mathlib
import SymbolAtlas.Proofs.Ledger
import SymbolAtlas.Proofs.Node.Contribution
import SymbolAtlas.Proofs.Outline.Sites

/-!
# Nodes that fit into a span

A node fits into a span if everything it declares lies where its owner lies: what it states directly
in the given span, what the body of a declaration states in the span of that declaration, and
namespaces, which the file owns, in the span of the file.  Whether a node fits is decided one level
at a time, by one lemma for each kind of node; `Node.fits_classify` puts these together for the node
of a tagged object, whose fields are known to fit into the object's own span.
-/

namespace SymbolAtlas

namespace Span

/-- The span lies within another one. -/
def Within (s t : Span) : Prop :=
  t.start.value ≤ s.start.value ∧ s.stop.value ≤ t.stop.value

instance (s t : Span) : Decidable (s.Within t) :=
  inferInstanceAs (Decidable (_ ∧ _))

/-- If there is an inner span, then there is an outer one, and the inner lies within it. -/
def Inside (inner outer : Option Span) : Prop :=
  ∀ s ∈ inner, ∃ t ∈ outer, s.Within t

namespace Inside

variable {a b c : Option Span}

theorem refl (a : Option Span) : Inside a a :=
  fun s hs => ⟨s, hs, le_refl _, le_refl _⟩

theorem trans (hab : Inside a b) (hbc : Inside b c) : Inside a c := by
  intro s hs
  obtain ⟨t, ht, hstart, hstop⟩ := hab s hs
  obtain ⟨u, hu, hstart', hstop'⟩ := hbc t ht
  exact ⟨u, hu, hstart'.trans hstart, hstop.trans hstop'⟩

theorem of_none (b : Option Span) : Inside none b :=
  fun _ hs => nomatch hs

end Inside

end Span

namespace Declaration

/-- The declaration lies in the span of its owner: that of the file for a namespace, and for all
others that of the scope whose body states the declaration. -/
def Lies (file site : Option Span) (d : Declaration) : Prop :=
  Span.Inside d.entity.span (if d.entity.scopeKind? = some .namespaceScope then file else site)

namespace Lies

variable {file site : Option Span} {d : Declaration}

theorem of_namespace (h : d.Lies file site)
    (hns : d.entity.scopeKind? = some .namespaceScope) : Span.Inside d.entity.span file := by
  rwa [Lies, if_pos hns] at h

theorem of_not_namespace (h : d.Lies file site)
    (hns : d.entity.scopeKind? ≠ some .namespaceScope) : Span.Inside d.entity.span site := by
  rwa [Lies, if_neg hns] at h

theorem mono {site' : Option Span} (h : d.Lies file site) (hsite : Span.Inside site site') :
    d.Lies file site' := by
  refine h.trans ?_
  split
  · exact Span.Inside.refl file
  · exact hsite

end Lies

end Declaration

namespace Node

/-- Everything that the node declares in a scope with the span `site` lies in the span of its
owner. -/
def Fits (file site : Option Span) (n : Node) : Prop :=
  ∀ (scope : Nat) (inClass : Bool) (next : Nat) (pending : Option String),
    Stated (fun c => Declaration.Lies file c.entity.span) (Declaration.Lies file site) scope next
      (declares scope inClass next pending n).1

/-- A branch whose block lies in the span of its owner, and whose nodes fit into the block. -/
def ArmFits (file site : Option Span) (arm : Arm) : Prop :=
  Span.Inside arm.1 site ∧ ∀ n ∈ arm.2, n.Fits file arm.1

section Fits

variable {file site : Option Span}

theorem Fits.mono {n : Node} {site' : Option Span} (h : n.Fits file site)
    (hsite : Span.Inside site site') : n.Fits file site' :=
  fun scope inClass next pending => (h scope inClass next pending).mono fun _ hd => hd.mono hsite

theorem stated_declaresAll {ns : List Node} (h : ∀ n ∈ ns, n.Fits file site) (scope : Nat)
    (inClass : Bool) (next : Nat) (pending : Option String) :
    Stated (fun c => Declaration.Lies file c.entity.span) (Declaration.Lies file site) scope next
      (declaresAll scope inClass next pending ns).1 := by
  induction ns generalizing next pending with
  | nil => exact .nil _ _ _
  | cons n rest ih =>
    obtain ⟨hn, hrest⟩ := List.forall_mem_cons.1 h
    exact (hn scope inClass next pending).append (ih hrest _ _)

theorem stated_declaresArms {arms : List Arm} (h : ∀ arm ∈ arms, ArmFits file site arm)
    (scope next : Nat) :
    Stated (fun c => Declaration.Lies file c.entity.span) (Declaration.Lies file site) scope next
      (declaresArms scope next arms) := by
  induction arms generalizing next with
  | nil => exact .nil _ _ _
  | cons arm rest ih =>
    obtain ⟨⟨hspan, hbody⟩, hrest⟩ := List.forall_mem_cons.1 h
    have hblock : Stated (fun c => Declaration.Lies file c.entity.span)
        (Declaration.Lies file site) scope next
        (⟨scope, blockEntity arm.1⟩ :: (declaresAll next false (next + 1) none arm.2).1) :=
      .single rfl hspan (stated_declaresAll hbody next false (next + 1) none)
    exact hblock.append (ih hrest _)

variable {h : Heading} {body fields : List Node}

theorem fits_documentation (text : String) : (documentation h text).Fits file site :=
  fun _ _ _ _ => .nil _ _ _

theorem fits_remark : (remark h).Fits file site :=
  fun _ _ _ _ => .nil _ _ _

theorem fits_classNode (hspan : Span.Inside h.span site) (hbody : ∀ n ∈ body, n.Fits file h.span) :
    (classNode h body).Fits file site :=
  fun _ _ _ _ => .single rfl hspan (stated_declaresAll hbody _ _ _ _)

theorem fits_functionNode (hspan : Span.Inside h.span site)
    (hbody : ∀ n ∈ body, n.Fits file h.span) : (functionNode h body).Fits file site :=
  fun _ _ _ _ => .single rfl hspan (stated_declaresAll hbody _ _ _ _)

/-- Outside of a class only the fields of a method count. -/
theorem fits_methodNode (hspan : Span.Inside h.span site) (hbody : ∀ n ∈ body, n.Fits file h.span)
    (hfields : ∀ n ∈ fields, n.Fits file site) : (methodNode h body fields).Fits file site := by
  intro scope inClass next pending
  cases inClass with
  | true => exact .single rfl hspan (stated_declaresAll hbody _ _ _ _)
  | false => exact stated_declaresAll hfields _ _ _ _

theorem fits_namespaceNode (hspan : Span.Inside h.span file)
    (hbody : ∀ n ∈ body, n.Fits file h.span) : (namespaceNode h body).Fits file site :=
  fun _ _ _ _ => .single rfl hspan (stated_declaresAll hbody _ _ _ _)

theorem fits_includeNode (hspan : Span.Inside h.span site) (target : Value) (once require : Bool) :
    (includeNode h target once require).Fits file site :=
  fun _ _ _ _ => .leaf rfl hspan

theorem fits_assignment (hspan : Span.Inside h.span site) : (assignment h).Fits file site :=
  fun _ _ _ _ => .leaf rfl hspan

theorem fits_branches {arms : List Arm} (harms : ∀ arm ∈ arms, ArmFits file site arm) :
    (branches h arms).Fits file site :=
  fun _ _ _ _ => stated_declaresArms harms _ _

theorem fits_other (hfields : ∀ n ∈ fields, n.Fits file site) : (other h fields).Fits file site :=
  fun _ _ _ _ => stated_declaresAll hfields _ _ _ _

end Fits

end Node

/-! ## Tagged objects -/

/-- The nodes of a value fit into a span. -/
def Value.Fits (file site : Option Span) (v : Value) : Prop :=
  ∀ n ∈ Node.ofValue v, n.Fits file site

namespace Value

variable {file site : Option Span}

theorem fits_list {items : List Value} (h : ∀ v ∈ items, v.Fits file site) :
    (Value.list items).Fits file site := by
  intro n hn
  rw [Node.ofValue_list, List.mem_flatMap] at hn
  obtain ⟨v, hv, hn⟩ := hn
  split at hn
  · exact h v hv n hn
  · cases hn

/-- The value of a field fits if every field does; one that is absent has no nodes. -/
theorem fits_field {fields : List (String × Value)}
    (h : ∀ entry ∈ fields, entry.1 ≠ "kind" → entry.2.Fits file site) {key : String}
    (hkey : key ≠ "kind") : ((Value.object fields).field key).Fits file site := by
  rw [field, field?]
  cases hget : Ledger.get? fields key with
  | none =>
    intro n hn
    cases hn
  | some v => exact h _ (Ledger.mem_of_get? hget) hkey

end Value

/-- A tagged object whose fields and branches lie in its own span fits into that span. -/
theorem Node.fits_classify {file : Option Span} {fields : List (String × Value)} (tag : String)
    (hfile : Span.Inside (Span.ofNode? (.object fields)) file)
    (hfields : ∀ entry ∈ fields, entry.1 ≠ "kind" →
      entry.2.Fits file (Span.ofNode? (.object fields)))
    (hif : tag = "if" → ∀ b ∈ (Value.object fields).ifBodies,
      ArmFits file (Span.ofNode? (.object fields)) (armOf b))
    (htry : tag = "try" → ∀ b ∈ (Value.object fields).tryBodies,
      ArmFits file (Span.ofNode? (.object fields)) (armOf b)) :
    (classify tag (.object fields) (Reading.readFields fields)).Fits file
      (Span.ofNode? (.object fields)) := by
  have hself := Span.Inside.refl (Span.ofNode? (.object fields))
  have hfield : ∀ key, key ≠ "kind" → ∀ n ∈ (Reading.field (Reading.readFields fields) key).nodes,
      n.Fits file (Span.ofNode? (.object fields)) := by
    intro key hkey
    rw [Reading.field_readFields]
    exact Value.fits_field hfields hkey
  have hall : ∀ n ∈ fieldNodes (Reading.readFields fields),
      n.Fits file (Span.ofNode? (.object fields)) := by
    intro n hn
    rw [fieldNodes_readFields, List.mem_flatMap] at hn
    obtain ⟨entry, hentry, hn⟩ := hn
    split at hn
    · cases hn
    · exact hfields entry hentry ‹_› n hn
  have harms : ∀ {bodies : List Value},
      (∀ b ∈ bodies, ArmFits file (Span.ofNode? (.object fields)) (armOf b)) →
      ∀ arm ∈ bodies.map armOf, ArmFits file (Span.ofNode? (.object fields)) arm := by
    intro bodies h arm harm
    obtain ⟨b, hb, rfl⟩ := List.mem_map.1 harm
    exact h b hb
  unfold classify
  simp only
  -- comments, the scopes with their bodies, includes, the two kinds of branches, and the rest
  split
  · split
    · exact fits_documentation _
    · exact fits_remark
  · split
    · exact fits_documentation _
    · exact fits_remark
  · exact fits_classNode hself (hfield "body" (by decide))
  · exact fits_functionNode hself (hfield "body" (by decide))
  · exact fits_methodNode hself (hfield "body" (by decide)) hall
  · exact fits_namespaceNode hfile (hfield "children" (by decide))
  · exact fits_includeNode hself _ _ _
  · rw [ifArms_readFields]
    exact fits_branches (harms (hif rfl))
  · rw [tryArms_readFields]
    exact fits_branches (harms (htry rfl))
  · split
    · exact fits_assignment hself
    · exact fits_other hall
  · exact fits_other hall

end SymbolAtlas
