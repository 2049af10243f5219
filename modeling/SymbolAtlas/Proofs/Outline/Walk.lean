import Mathlib
import SymbolAtlas.Proofs.Outline.Entering

/-!
# A walk enters declarations

`Node.declares` lists what a node declares, without an outline: from the scope whose body holds the
node, whether that scope is a class, the number that the next entity gets and the pending
documentation text.  Walking the node into a ready outline does nothing but enter that list, one
declaration after the other, and refuses nothing (`Walk.visitAll_spec`).
-/

namespace SymbolAtlas

/-- The block of a branch. -/
def blockEntity (span : Option Span) : Entity where
  detail := .scope .block {}
  span := span

namespace Node

mutual

/-- What a node declares, with the documentation text that is pending afterwards. -/
def declares (site : Nat) (inClass : Bool) (next : Nat) (pending : Option String) :
    Node → List Declaration × Option String
  | .documentation _ text => ([], some text)
  | .remark _ => ([], pending)
  | .classNode h body =>
    (⟨site, h.scope .classScope pending⟩ :: (declaresAll next true (next + 1) none body).1, none)
  | .functionNode h body =>
    (⟨site, h.scope (.functionScope false) pending⟩ ::
      (declaresAll next false (next + 1) none body).1, none)
  | .methodNode h body fields =>
    if inClass then
      (⟨site, h.scope (.functionScope true) pending⟩ ::
        (declaresAll next false (next + 1) none body).1, none)
    else declaresAll site inClass next none fields
  | .namespaceNode h body =>
    (⟨site, h.namespaceEntity pending⟩ :: (declaresAll next false (next + 1) none body).1, none)
  | .includeNode h target once require =>
    ([⟨site, h.externalEntity target once require pending⟩], none)
  | .assignment h => ([⟨site, h.variableEntity pending⟩], none)
  | .branches _ arms => (declaresArms site next arms, none)
  | .other _ fields => declaresAll site inClass next none fields
termination_by structural n => n

/-- What nodes declare one after the other. -/
def declaresAll (site : Nat) (inClass : Bool) (next : Nat) (pending : Option String) :
    List Node → List Declaration × Option String
  | [] => ([], pending)
  | n :: rest =>
    let first := declares site inClass next pending n
    let others := declaresAll site inClass (next + first.1.length) first.2 rest
    (first.1 ++ others.1, others.2)
termination_by structural ns => ns

/-- What branches declare: a block for each, followed by what its nodes declare in it. -/
def declaresArms (site : Nat) (next : Nat) : List (Option Span × List Node) → List Declaration
  | [] => []
  | (span, body) :: rest =>
    let block := ⟨site, blockEntity span⟩ :: (declaresAll next false (next + 1) none body).1
    block ++ declaresArms site (next + block.length) rest
termination_by structural arms => arms

end

theorem declaresAll_singleton (site : Nat) (inClass : Bool) (next : Nat) (pending : Option String)
    (n : Node) :
    declaresAll site inClass next pending [n] = declares site inClass next pending n := by
  rw [declaresAll, declaresAll]
  exact Prod.ext (List.append_nil _) rfl

theorem declaresAll_append (site : Nat) (inClass : Bool) (next : Nat) (pending : Option String)
    (ns ms : List Node) :
    declaresAll site inClass next pending (ns ++ ms) =
      ((declaresAll site inClass next pending ns).1 ++
        (declaresAll site inClass (next + (declaresAll site inClass next pending ns).1.length)
          (declaresAll site inClass next pending ns).2 ms).1,
       (declaresAll site inClass (next + (declaresAll site inClass next pending ns).1.length)
          (declaresAll site inClass next pending ns).2 ms).2) := by
  induction ns generalizing next pending with
  | nil => rfl
  | cons n rest ih =>
    rw [List.cons_append, declaresAll, ih, declaresAll]
    simp only [List.append_assoc, List.length_append, Nat.add_assoc]

end Node

/-! ## The entities of headings are fresh -/

namespace Heading

theorem isFresh_scope (h : Heading) {k : ScopeKind} (hk : k ≠ .file) (doc : Option String) :
    (h.scope k doc).IsFresh :=
  ⟨rfl, by simpa [scope, Entity.scopeKind?] using hk⟩

theorem isFresh_namespaceEntity (h : Heading) (doc : Option String) :
    (h.namespaceEntity doc).IsFresh :=
  ⟨rfl, by simp [namespaceEntity, Entity.newNamespace, Entity.scopeKind?]⟩

theorem isFresh_variableEntity (h : Heading) (doc : Option String) :
    (h.variableEntity doc).IsFresh :=
  ⟨rfl, by simp [variableEntity, Entity.scopeKind?]⟩

theorem isFresh_externalEntity (h : Heading) (target : Value) (once require : Bool)
    (doc : Option String) : (h.externalEntity target once require doc).IsFresh :=
  ⟨rfl, by simp [externalEntity, Entity.scopeKind?]⟩

end Heading

theorem isFresh_blockEntity (span : Option Span) : (blockEntity span).IsFresh :=
  ⟨rfl, by simp [blockEntity, Entity.scopeKind?]⟩

namespace Outline

section EnterScope

variable {o : Outline} {d : Declaration} (h : Ready o) (hd : o.Takes d)

include h hd

theorem size_enter : (o.enter d).size = o.size + 1 := by
  have := congrArg List.length (bares_enter h hd)
  simpa using this

/-- A declared scope is found under the next number. -/
theorem scopeKind?_enter : (o.enter d).scopeKind? o.size = d.entity.scopeKind? := by
  rw [scopeKind?_eq_bares, bares_enter h hd, ← length_bares, List.getElem?_concat_length]
  rfl

/-- Declaring in a ready outline is entering, without a fault. -/
theorem declare_eq_enter (list : MemberList) (shared : Bool)
    (henter : o.enter d = (o.declare d.site d.entity list shared).1) :
    o.declare d.site d.entity list shared = (o.enter d, o.size, none) := by
  rw [henter, declare_eq h hd.1 hd.2]

theorem declareNamespace_eq_enter
    (henter : o.enter d = (o.declareNamespace d.site d.entity).1) :
    o.declareNamespace d.site d.entity = (o.enter d, o.size, none) := by
  rw [henter, declareNamespace_eq h hd.1 hd.2]

theorem declareExternal_eq_enter
    (henter : o.enter d = (o.declareExternal d.site d.entity).1) :
    o.declareExternal d.site d.entity = (o.enter d, none) := by
  rw [henter, declareExternal_eq h hd.1 hd.2]

end EnterScope

end Outline

namespace Walk

open Outline Node

/-- What it means that a walk only enters declarations: the walk of some nodes from `w` ends in
`w'`, has entered `ds`, which the outline admits, and has reported nothing. -/
structure Enters (w w' : Walk) (ds : List Declaration) : Prop where
  admits : Admits w.outline ds
  eq : w' = { w with outline := w.outline.enterAll ds }

namespace Enters

variable {w w' w'' : Walk} {ds es : List Declaration}

theorem refl (w : Walk) : Enters w w [] :=
  ⟨.nil _, rfl⟩

theorem trans (h : Enters w w' ds) (h' : Enters w' w'' es) : Enters w w'' (ds ++ es) := by
  obtain ⟨ha, rfl⟩ := h
  obtain ⟨ha', rfl⟩ := h'
  exact ⟨ha.append ha', by rw [enterAll_append]⟩

theorem single {d : Declaration} (hd : w.outline.Takes d) :
    Enters w { w with outline := w.outline.enter d } [d] :=
  ⟨.cons hd (.nil _), rfl⟩

theorem ready (h : Enters w w' ds) (hr : Ready w.outline) : Ready w'.outline := by
  rw [h.eq]
  exact h.admits.ready hr

theorem size_eq (h : Enters w w' ds) (hr : Ready w.outline) :
    w'.outline.size = w.outline.size + ds.length := by
  rw [h.eq]
  exact h.admits.size_enterAll hr

theorem scopeKind?_eq (h : Enters w w' ds) (hr : Ready w.outline) {i : Nat}
    (hi : (w.outline.scopeKind? i).isSome) :
    w'.outline.scopeKind? i = w.outline.scopeKind? i := by
  rw [h.eq]
  exact h.admits.scopeKind?_enterAll hr (lt_size_of_scopeKind? hi)

end Enters

/-- A walk of a node enters what the node declares and leaves the text pending that the node
leaves pending; the node is not refused. -/
structure VisitSpec (site : Nat) (pending : Option String) (w : Walk) (n : Node) : Prop where
  enters : Enters w (visit site pending w n).walk
    (declares site (w.outline.isClass site) w.outline.size pending n).1
  pending_eq : (visit site pending w n).pending =
    (declares site (w.outline.isClass site) w.outline.size pending n).2
  fault_eq : (visit site pending w n).fault = none

/-- The same for nodes one after the other. -/
structure VisitAllSpec (site : Nat) (pending : Option String) (w : Walk) (ns : List Node) :
    Prop where
  enters : Enters w (visitAll site pending w ns).1
    (declaresAll site (w.outline.isClass site) w.outline.size pending ns).1
  pending_eq : (visitAll site pending w ns).2 =
    (declaresAll site (w.outline.isClass site) w.outline.size pending ns).2

/-- The same for branches. -/
structure VisitArmsSpec (site : Nat) (w : Walk) (arms : List (Option Span × List Node)) :
    Prop where
  enters : Enters w (visitArms site w arms).1 (declaresArms site w.outline.size arms)
  fault_eq : (visitArms site w arms).2 = none

/-- A scope with its body: the declaration is entered, and then what the body declares in it. -/
theorem enters_scope {w : Walk} (hr : Ready w.outline) {d : Declaration}
    (hd : w.outline.Takes d) {k : ScopeKind} (hk : d.entity.scopeKind? = some k)
    {body : List Node}
    (ih : ∀ v : Walk, Ready v.outline → ∀ s, (v.outline.scopeKind? s).isSome →
      VisitAllSpec s none v body) :
    Enters w (visitAll w.outline.size none { w with outline := w.outline.enter d } body).1
      (d :: (declaresAll w.outline.size (k == .classScope) (w.outline.size + 1) none body).1) := by
  have hkind : (w.outline.enter d).scopeKind? w.outline.size = some k :=
    (scopeKind?_enter hr hd).trans hk
  have hbody := (ih { w with outline := w.outline.enter d } (hr.enter hd) w.outline.size
    (by simp [hkind])).enters
  have hclass : (w.outline.enter d).isClass w.outline.size = (k == .classScope) := by
    rw [isClass, hkind]
    rfl
  simp only [hclass, size_enter hr hd] at hbody
  exact (Enters.single hd).trans hbody

section Visit

variable {site : Nat} {pending : Option String} {w : Walk} {n : Node} {d : Declaration}

/-- A node that declares a scope and goes on with its body. -/
theorem VisitSpec.of_scope (hr : Ready w.outline) (hd : w.outline.Takes d) {k : ScopeKind}
    (hk : d.entity.scopeKind? = some k) {body : List Node}
    (hvisit : visit site pending w n =
      { walk := (visitAll w.outline.size none { w with outline := w.outline.enter d } body).1 })
    (hdeclares : declares site (w.outline.isClass site) w.outline.size pending n =
      (d :: (declaresAll w.outline.size (k == .classScope) (w.outline.size + 1) none body).1, none))
    (ih : ∀ v : Walk, Ready v.outline → ∀ s, (v.outline.scopeKind? s).isSome →
      VisitAllSpec s none v body) : VisitSpec site pending w n := by
  refine ⟨?_, ?_, ?_⟩
  · rw [hvisit, hdeclares]
    exact enters_scope hr hd hk ih
  · rw [hvisit, hdeclares]
  · rw [hvisit]

/-- A node that declares something without a body. -/
theorem VisitSpec.of_leaf (hd : w.outline.Takes d)
    (hvisit : visit site pending w n = { walk := { w with outline := w.outline.enter d } })
    (hdeclares : declares site (w.outline.isClass site) w.outline.size pending n = ([d], none)) :
    VisitSpec site pending w n := by
  refine ⟨?_, ?_, ?_⟩
  · rw [hvisit, hdeclares]
    exact .single hd
  · rw [hvisit, hdeclares]
  · rw [hvisit]

end Visit

mutual

theorem visit_spec : ∀ (n : Node) (site : Nat) (pending : Option String) (w : Walk),
    Ready w.outline → (w.outline.scopeKind? site).isSome → VisitSpec site pending w n
  | .documentation _ text, site, pending, w, _, _ => ⟨.refl w, rfl, rfl⟩
  | .remark _, site, pending, w, _, _ => ⟨.refl w, rfl, rfl⟩
  | .classNode h body, site, pending, w, hr, hs => by
    have hd : w.outline.Takes ⟨site, h.scope .classScope pending⟩ :=
      ⟨hs, h.isFresh_scope (by decide) pending⟩
    refine .of_scope hr hd rfl ?_ rfl fun v hv s hvs => visitAll_spec body s none v hv hvs
    rw [visit, declare_eq_enter hr hd .classes true rfl]
  | .functionNode h body, site, pending, w, hr, hs => by
    have hd : w.outline.Takes ⟨site, h.scope (.functionScope false) pending⟩ :=
      ⟨hs, h.isFresh_scope (by decide) pending⟩
    refine .of_scope hr hd rfl ?_ rfl fun v hv s hvs => visitAll_spec body s none v hv hvs
    rw [visit, declare_eq_enter hr hd .functions true rfl]
  | .methodNode h body fields, site, pending, w, hr, hs => by
    by_cases hc : w.outline.isClass site = true
    · have hd : w.outline.Takes ⟨site, h.scope (.functionScope true) pending⟩ :=
        ⟨hs, h.isFresh_scope (by decide) pending⟩
      refine .of_scope hr hd rfl ?_ ?_ fun v hv s hvs => visitAll_spec body s none v hv hvs
      · rw [visit, if_pos hc, declare_eq_enter hr hd .functions false rfl]
      · rw [declares, if_pos hc]
        rfl
    · -- outside of a class the node counts as any other one
      have hfields := visitAll_spec fields site none w hr hs
      refine ⟨?_, ?_, ?_⟩ <;> simp only [visit, declares, if_neg hc]
      · exact hfields.enters
      · exact hfields.pending_eq
  | .namespaceNode h body, site, pending, w, hr, hs => by
    have hd : w.outline.Takes ⟨site, h.namespaceEntity pending⟩ :=
      ⟨hs, h.isFresh_namespaceEntity pending⟩
    refine .of_scope hr hd rfl ?_ rfl fun v hv s hvs => visitAll_spec body s none v hv hvs
    rw [visit, declareNamespace_eq_enter hr hd rfl]
  | .includeNode h target once require, site, pending, w, hr, hs => by
    have hd : w.outline.Takes ⟨site, h.externalEntity target once require pending⟩ :=
      ⟨hs, h.isFresh_externalEntity target once require pending⟩
    refine .of_leaf hd ?_ rfl
    rw [visit, declareExternal_eq_enter hr hd rfl]
  | .assignment h, site, pending, w, hr, hs => by
    have hd : w.outline.Takes ⟨site, h.variableEntity pending⟩ :=
      ⟨hs, h.isFresh_variableEntity pending⟩
    refine .of_leaf hd ?_ rfl
    rw [visit, declare_eq_enter hr hd .vars false rfl]
  | .branches _ arms, site, pending, w, hr, hs => by
    have harms := visitArms_spec arms site w hr hs
    exact ⟨harms.enters, rfl, harms.fault_eq⟩
  | .other _ fields, site, pending, w, hr, hs => by
    have hfields := visitAll_spec fields site none w hr hs
    exact ⟨hfields.enters, hfields.pending_eq, rfl⟩
termination_by structural n => n

theorem visitAll_spec : ∀ (ns : List Node) (site : Nat) (pending : Option String) (w : Walk),
    Ready w.outline → (w.outline.scopeKind? site).isSome → VisitAllSpec site pending w ns
  | [], site, pending, w, _, _ => ⟨.refl w, rfl⟩
  | n :: rest, site, pending, w, hr, hs => by
    have hn := visit_spec n site pending w hr hs
    have hkind := hn.enters.scopeKind?_eq hr hs
    have hrest := visitAll_spec rest site (visit site pending w n).pending
      (visit site pending w n).walk (hn.enters.ready hr) (hkind ▸ hs)
    have hclass : (visit site pending w n).walk.outline.isClass site = w.outline.isClass site := by
      rw [isClass, hkind]
      rfl
    have hsize := hn.enters.size_eq hr
    have hreport : (visit site pending w n).walk.report n.heading (visit site pending w n).fault =
        (visit site pending w n).walk := by
      rw [hn.fault_eq]
      rfl
    obtain ⟨henters, hpending⟩ := hrest
    rw [hclass, hsize] at henters hpending
    refine ⟨?_, ?_⟩ <;> simp only [visitAll, declaresAll, hreport, ← hn.pending_eq]
    · exact hn.enters.trans henters
    · exact hpending
termination_by structural ns => ns

theorem visitArms_spec : ∀ (arms : List (Option Span × List Node)) (site : Nat) (w : Walk),
    Ready w.outline → (w.outline.scopeKind? site).isSome → VisitArmsSpec site w arms
  | [], site, w, _, _ => ⟨.refl w, rfl⟩
  | (span, body) :: rest, site, w, hr, hs => by
    have hd : w.outline.Takes ⟨site, blockEntity span⟩ := ⟨hs, isFresh_blockEntity span⟩
    have hblock := enters_scope hr hd rfl fun v hv s hvs => visitAll_spec body s none v hv hvs
    have hkind := hblock.scopeKind?_eq hr hs
    have hrest := visitArms_spec rest site _ (hblock.ready hr) (hkind ▸ hs)
    have hsize := hblock.size_eq hr
    have hvisit : visitArms site w ((span, body) :: rest) =
        visitArms site (visitAll w.outline.size none
          { w with outline := w.outline.enter ⟨site, blockEntity span⟩ } body).1 rest := by
      have hdeclare : w.outline.declare site { detail := .scope .block {}, span := span } .blocks
          false = (w.outline.enter ⟨site, blockEntity span⟩, w.outline.size, none) :=
        declare_eq_enter hr hd .blocks false rfl
      rw [visitArms, hdeclare]
    refine ⟨?_, by rw [hvisit]; exact hrest.fault_eq⟩
    rw [hvisit]
    have hall := hblock.trans hrest.enters
    rw [hsize] at hall
    exact hall
termination_by structural arms => arms

end

end Walk

end SymbolAtlas
