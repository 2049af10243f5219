import Mathlib
import SymbolAtlas.Proofs.Outline.Sites
import SymbolAtlas.Proofs.Outline.Views
import SymbolAtlas.Proofs.SourceFile.OfTree

/-!
# What the file of a tree shows

The member lists of a blank file are empty, and a walk keeps them exact, so the file of a tree shows
in each list exactly what ownership and namespaces ask for (`SourceFile.exact_ofTree`).  Since only
classes state methods, a namespace shows the functions that lie in it and no method.
`SourceFile.memberViews_ofTree` puts all of this together.
-/

namespace SymbolAtlas

open Outline

/-- The numbers of the entities with a property, in ascending order. -/
def Outline.numbersOf (o : Outline) (p : Nat → Entity → Prop) [∀ i e, Decidable (p i e)] :
    List Nat :=
  (List.range o.size).filter fun i => (o.get? i).any fun e => p i e

/-- Every list of a file is a view of its entities: what it lists follows from kinds, owners and
namespaces alone. -/
structure MemberViews (o : Outline) : Prop where
  /-- A namespace shows the classes that lie in it, whatever scope owns them. -/
  namespaceClasses : ∀ n e, o.get? n = some e → e.kind = .namespaceDecl →
    e.members .classes =
      o.numbersOf fun i x => x.kind = .classDecl ∧ o.namespaceOf i = some n
  /-- A namespace shows the functions that lie in it, but no method. -/
  namespaceFunctions : ∀ n e, o.get? n = some e → e.kind = .namespaceDecl →
    e.members .functions =
      o.numbersOf fun i x => x.scopeKind? = some (.functionScope false) ∧ o.namespaceOf i = some n
  scopeClasses : ∀ s e, o.get? s = some e → e.isScope = true → e.kind ≠ .namespaceDecl →
    e.members .classes = o.numbersOf fun _ x => x.kind = .classDecl ∧ x.parent = some s
  /-- Any other scope shows the functions that it owns, methods included. -/
  scopeFunctions : ∀ s e, o.get? s = some e → e.isScope = true → e.kind ≠ .namespaceDecl →
    e.members .functions = o.numbersOf fun _ x => x.kind = .functionDecl ∧ x.parent = some s
  vars : ∀ s e, o.get? s = some e → e.isScope = true →
    e.members .vars = o.numbersOf fun _ x => x.kind = .variableDecl ∧ x.parent = some s
  blocks : ∀ s e, o.get? s = some e → e.isScope = true →
    e.members .blocks = o.numbersOf fun _ x => x.kind = .block ∧ x.parent = some s
  unused : ∀ s e, o.get? s = some e →
    e.members .defines = [] ∧ e.members .interfaces = [] ∧ e.members .traits = []
  namespaces : o.namespaces = o.numbersOf fun _ x => x.kind = .namespaceDecl
  /-- The home comes first among the namespaces. -/
  home : o.home.isSome ∧ o.namespaces.head? = o.home
  namespacesOwned : ∀ i x, o.get? i = some x → x.kind = .namespaceDecl → x.parent = some 0
  externals : o.externals = o.numbersOf fun _ x => x.kind = .external

/-! ## From the invariant to the views -/

namespace Outline

theorem filter_range_eq_numbersOf {o : Outline} {q : Nat → Bool} {p : Nat → Entity → Prop}
    [∀ i e, Decidable (p i e)] (h : ∀ i e, o.get? i = some e → (q i = true ↔ p i e)) :
    (List.range o.size).filter q = o.numbersOf p := by
  refine List.filter_congr fun i hi => ?_
  obtain ⟨e, he⟩ := Option.isSome_iff_exists.1 (get?_isSome_iff.2 (List.mem_range.1 hi))
  rw [he, Option.any_some]
  exact Bool.eq_iff_iff.2 ((h i e he).trans decide_eq_true_iff.symm)

/-- What is owned by a namespace and is none lies in it. -/
theorem WellOwned.namespaceOf_of_owner? {o : Outline} (h : WellOwned o) {i n : Nat}
    (howner : o.owner? i = some n) (hn : o.isNamespace n = true)
    (hi : o.isNamespace i = false) : o.namespaceOf i = some n := by
  rw [namespaceOf, h.ancestors_of_owner? howner, List.find?_cons_of_neg (by simp [hi]),
    List.find?_cons_of_pos hn]

section Shows

variable {o : Outline} {i : Nat} {e : Entity} (he : o.get? i = some e)

include he

theorem isNamespace_iff : o.isNamespace i = true ↔ e.kind = .namespaceDecl := by
  rw [isNamespace, scopeKind?, he, Option.bind_some, beq_iff_eq]
  obtain ⟨detail, name, parent, span, doc⟩ := e
  cases detail with
  | scope k b => cases k <;> simp [Entity.scopeKind?, Entity.kind, ScopeKind.kind]
  | «variable» => simp [Entity.scopeKind?, Entity.kind]
  | external inc => simp [Entity.scopeKind?, Entity.kind]

theorem isExternal_iff : o.isExternal i = true ↔ e.kind = .external := by
  rw [isExternal, he, Option.bind_some]
  obtain ⟨detail, name, parent, span, doc⟩ := e
  cases detail with
  | scope k b => cases k <;> simp [Entity.inclusion?, Entity.kind, ScopeKind.kind]
  | «variable» => simp [Entity.inclusion?, Entity.kind]
  | external inc => simp [Entity.inclusion?, Entity.kind]

/-- Who shows an entity, in terms of the entity itself. -/
theorem showsIn_iff (list : MemberList) (scope : Nat) :
    o.showsIn list scope i = true ↔
      ∃ shared, e.showing? = some (list, shared) ∧
        (e.parent = some scope ∨ (shared = true ∧ o.namespaceOf i = some scope)) := by
  have howner : o.owner? i = e.parent := by
    rw [owner?_eq, he, Option.bind_some]
  rw [showsIn, showing?, he, Option.bind_some, howner]
  cases hsh : e.showing? with
  | none => simp
  | some entry =>
    obtain ⟨l, shared⟩ := entry
    simp only [Bool.and_eq_true, Bool.or_eq_true, decide_eq_true_eq, Option.some.injEq,
      Prod.mk.injEq]
    constructor
    · rintro ⟨rfl, hwhere⟩
      exact ⟨shared, ⟨rfl, rfl⟩, hwhere⟩
    · rintro ⟨shared', ⟨rfl, rfl⟩, hwhere⟩
      exact ⟨rfl, hwhere⟩

end Shows

end Outline

namespace Entity

variable (e : Entity)

theorem showing?_classes_iff (shared : Bool) :
    e.showing? = some (.classes, shared) ↔ e.kind = .classDecl ∧ shared = true := by
  obtain ⟨detail, name, parent, span, doc⟩ := e
  cases detail with
  | scope k b => cases k <;> simp [showing?, kind, ScopeKind.kind, eq_comm]
  | «variable» => simp [showing?, kind]
  | external inc => simp [showing?, kind]

theorem showing?_functions_iff (shared : Bool) :
    e.showing? = some (.functions, shared) ↔ e.scopeKind? = some (.functionScope (!shared)) := by
  obtain ⟨detail, name, parent, span, doc⟩ := e
  cases detail with
  | scope k b => cases k <;> cases shared <;> simp [showing?, scopeKind?]
  | «variable» => simp [showing?, scopeKind?]
  | external inc => simp [showing?, scopeKind?]

theorem showing?_vars_iff (shared : Bool) :
    e.showing? = some (.vars, shared) ↔ e.kind = .variableDecl ∧ shared = false := by
  obtain ⟨detail, name, parent, span, doc⟩ := e
  cases detail with
  | scope k b => cases k <;> simp [showing?, kind, ScopeKind.kind]
  | «variable» => simp [showing?, kind, eq_comm]
  | external inc => simp [showing?, kind]

theorem showing?_blocks_iff (shared : Bool) :
    e.showing? = some (.blocks, shared) ↔ e.kind = .block ∧ shared = false := by
  obtain ⟨detail, name, parent, span, doc⟩ := e
  cases detail with
  | scope k b => cases k <;> simp [showing?, kind, ScopeKind.kind, eq_comm]
  | «variable» => simp [showing?, kind]
  | external inc => simp [showing?, kind]

/-- The other lists show nothing. -/
theorem list_of_showing? {list : MemberList} {shared : Bool}
    (h : e.showing? = some (list, shared)) :
    list = .classes ∨ list = .functions ∨ list = .blocks ∨ list = .vars := by
  obtain ⟨detail, name, parent, span, doc⟩ := e
  cases detail with
  | scope k b => cases k <;> simp_all [showing?]
  | «variable» => simp_all [showing?]
  | external inc => simp [showing?] at h

theorem kind_eq_functionDecl_iff :
    e.kind = .functionDecl ↔ ∃ isMethod, e.scopeKind? = some (.functionScope isMethod) := by
  obtain ⟨detail, name, parent, span, doc⟩ := e
  cases detail with
  | scope k b => cases k <;> simp [kind, ScopeKind.kind, scopeKind?]
  | «variable» => simp [kind, scopeKind?]
  | external inc => simp [kind, scopeKind?]

end Entity

theorem Outline.Catalogued.isNamespace_home {o : Outline} (h : Catalogued o) {n : Nat}
    (hn : o.home = some n) : o.isNamespace n = true := by
  have hmem : n ∈ o.namespaces := List.mem_of_head? (h.home.2.trans hn)
  rw [h.namespaces] at hmem
  exact (List.mem_filter.1 hmem).2

namespace Outline

section Views

variable {o : Outline} (hx : Exact o) (hc : Catalogued o) {s : Nat} {e : Entity}
  (he : o.get? s = some e)

include hx he in
theorem Exact.members_eq {list : MemberList} {p : Nat → Entity → Prop}
    [∀ i x, Decidable (p i x)]
    (h : ∀ i x, o.get? i = some x → (o.showsIn list s i = true ↔ p i x)) :
    e.members list = o.numbersOf p := by
  rw [o.members_eq_shown he, hx]
  exact filter_range_eq_numbersOf h

include hc he in
/-- A scope that is no namespace shows what it owns. -/
theorem showsIn_iff_owned (hk : e.kind ≠ .namespaceDecl) (list : MemberList) {i : Nat} {x : Entity}
    (hi : o.get? i = some x) :
    o.showsIn list s i = true ↔ (∃ shared, x.showing? = some (list, shared)) ∧
      x.parent = some s := by
  have hns : o.namespaceOf i ≠ some s := fun hn =>
    hk ((isNamespace_iff he).1 (isNamespace_of_namespaceOf (fun _ => hc.isNamespace_home) hn))
  rw [showsIn_iff hi]
  simp [hns]

include he in
/-- A namespace shows what lies in it and is shared, provided that it owns nothing else of the
list. -/
theorem showsIn_iff_inside (hw : WellOwned o) (hk : e.kind = .namespaceDecl) {list : MemberList}
    {i : Nat} {x : Entity} (hi : o.get? i = some x)
    (hown : x.parent = some s → x.showing? ≠ some (list, false)) :
    o.showsIn list s i = true ↔
      x.showing? = some (list, true) ∧ o.namespaceOf i = some s := by
  rw [showsIn_iff hi]
  constructor
  · rintro ⟨shared, hsh, hparent | ⟨rfl, hns⟩⟩
    · cases shared with
      | false => exact absurd hsh (hown hparent)
      | true =>
        have howner : o.owner? i = some s := by
          rw [owner?_eq, hi, Option.bind_some, hparent]
        have hplain : o.isNamespace i = false := Bool.eq_false_iff.2 fun hns =>
          Entity.scopeKind?_of_showing? hsh (by
            rwa [isNamespace, beq_iff_eq, scopeKind?, hi, Option.bind_some] at hns)
        exact ⟨hsh, hw.namespaceOf_of_owner? howner ((isNamespace_iff he).2 hk) hplain⟩
    · exact ⟨hsh, hns⟩
  · rintro ⟨hsh, hns⟩
    exact ⟨true, hsh, Or.inr ⟨rfl, hns⟩⟩

end Views

/-- Only classes own methods. -/
def MethodsInClasses (o : Outline) : Prop :=
  ∀ i, o.scopeKind? i = some (.functionScope true) →
    ∃ c, o.owner? i = some c ∧ o.isClass c = true

theorem MethodsInClasses.not_in_namespace {o : Outline} (h : MethodsInClasses o) {n i : Nat}
    {e x : Entity} (he : o.get? n = some e) (hk : e.kind = .namespaceDecl)
    (hi : o.get? i = some x) (hparent : x.parent = some n) :
    x.showing? ≠ some (.functions, false) := by
  intro hsh
  have hmethod : o.scopeKind? i = some (.functionScope true) := by
    rw [scopeKind?, hi]
    exact (x.showing?_functions_iff false).1 hsh
  obtain ⟨c, hown, hclass⟩ := h i hmethod
  rw [owner?_eq, hi, Option.bind_some, hparent] at hown
  cases hown
  have hns := (isNamespace_iff he).2 hk
  rw [isClass, beq_iff_eq] at hclass
  rw [isNamespace, hclass] at hns
  cases hns

end Outline

/-- Exact lists are views, provided that only classes own methods. -/
theorem memberViews_of_exact {o : Outline} (hw : WellOwned o) (hx : Exact o) (hc : Catalogued o)
    (hm : MethodsInClasses o) : MemberViews o := by
  refine ⟨?_, ?_, ?_, ?_, ?_, ?_, ?_, ?_, hc.home, ?_, ?_⟩
  · intro n e he hk
    refine hx.members_eq he fun i x hi => ?_
    rw [showsIn_iff_inside he hw hk hi (by simp [Entity.showing?_classes_iff])]
    simp [Entity.showing?_classes_iff]
  · intro n e he hk
    refine hx.members_eq he fun i x hi => ?_
    rw [showsIn_iff_inside he hw hk hi (hm.not_in_namespace he hk hi)]
    simp [Entity.showing?_functions_iff]
  · intro s e he _ hk
    refine hx.members_eq he fun i x hi => ?_
    rw [showsIn_iff_owned hc he hk .classes hi]
    simp [Entity.showing?_classes_iff]
  · intro s e he _ hk
    refine hx.members_eq he fun i x hi => ?_
    rw [showsIn_iff_owned hc he hk .functions hi, x.kind_eq_functionDecl_iff]
    simp [Entity.showing?_functions_iff, or_comm]
  · intro s e he _
    refine hx.members_eq he fun i x hi => ?_
    rw [showsIn_iff hi]
    simp [Entity.showing?_vars_iff]
  · intro s e he _
    refine hx.members_eq he fun i x hi => ?_
    rw [showsIn_iff hi]
    simp [Entity.showing?_blocks_iff]
  · intro s e he
    have hnone : ∀ list, list ≠ .classes → list ≠ .functions → list ≠ .blocks → list ≠ .vars →
        e.members list = [] := by
      intro list h1 h2 h3 h4
      rw [o.members_eq_shown he, hx]
      refine List.filter_eq_nil_iff.2 fun i hi hsh => ?_
      obtain ⟨x, hxi⟩ := Option.isSome_iff_exists.1 (get?_isSome_iff.2 (List.mem_range.1 hi))
      obtain ⟨shared, hshowing, -⟩ := (showsIn_iff hxi list s).1 hsh
      have := x.list_of_showing? hshowing
      tauto
    exact ⟨hnone _ (by decide) (by decide) (by decide) (by decide),
      hnone _ (by decide) (by decide) (by decide) (by decide),
      hnone _ (by decide) (by decide) (by decide) (by decide)⟩
  · rw [hc.namespaces]
    exact filter_range_eq_numbersOf fun i x hi => isNamespace_iff hi
  · intro i x hi hk
    have := hc.owned i ((isNamespace_iff hi).2 hk)
    rwa [owner?_eq, hi, Option.bind_some] at this
  · rw [hc.externals]
    exact filter_range_eq_numbersOf fun i x hi => isExternal_iff hi

/-! ## Files of trees -/

namespace SourceFile

theorem shown_blank (name : String) (span : Option Span) (i : Nat) :
    (blank name span true).outline.shown i = {} := by
  match i with
  | 0 => rfl
  | 1 => rfl
  | _ + 2 => rfl

theorem exact_blank (name : String) (span : Option Span) :
    Exact (blank name span true).outline := by
  intro scope list
  rw [shown_blank]
  cases list <;> rfl

theorem catalogued_blank (name : String) (span : Option Span) :
    Catalogued (blank name span true).outline where
  namespaces := rfl
  externals := rfl
  home := ⟨rfl, rfl⟩
  owned := by
    intro i hi
    match i with
    | 0 => cases hi
    | 1 => rfl
    | _ + 2 => cases hi

section OfTree

variable (name : String) (tree : Value) (contentHash : Option String) (mtime : Option Double)
  (size : Option Int)

theorem exact_entered : Exact (entered name tree) :=
  (enters_declarations name tree).admits.keeps (ready_blank name (spanOf tree))
    (fun _ _ h hd hx => hx.enter h hd) (exact_blank name (spanOf tree))

theorem catalogued_entered : Catalogued (entered name tree) :=
  (enters_declarations name tree).admits.keeps (ready_blank name (spanOf tree))
    (fun _ _ h hd hc => hc.enter h hd) (catalogued_blank name (spanOf tree))

/-- After the file and its home come the declarations of the tree. -/
theorem getElem?_bares_ofTree (k : Nat) :
    (ofTree name tree contentHash mtime size).1.outline.bares[2 + k]? =
      (declarations tree)[k]?.map fun d => { d.entity with parent := some d.owner } := by
  have hlength : (blank name (spanOf tree) true).outline.bares.length = 2 := rfl
  rw [bares_ofTree, bares_entered, List.getElem?_append_right (by omega), List.getElem?_map,
    hlength, Nat.add_sub_cancel_left]

theorem methodsInClasses_ofTree :
    MethodsInClasses (ofTree name tree contentHash mtime size).1.outline := by
  intro i hi
  match i with
  | 0 =>
    rw [(wellOwned_ofTree name tree contentHash mtime size).root] at hi
    cases hi
  | 1 =>
    rw [scopeKind?_eq_bares, bares_ofTree, bares_entered] at hi
    cases hi
  | k + 2 =>
    rw [Nat.add_comm] at hi ⊢
    rw [scopeKind?_eq_bares, getElem?_bares_ofTree] at hi
    obtain ⟨x, hx, hkind⟩ := Option.bind_eq_some_iff.1 hi
    obtain ⟨d, hd, rfl⟩ := Option.map_eq_some_iff.1 hx
    have hmethod : d.entity.IsMethod := hkind
    have howner : d.owner = d.site := by
      rw [Declaration.owner, if_neg]
      rw [hmethod]
      simp
    have hstated : Stated Node.MethodInClass (fun d => d.entity.IsMethod → false = true) 0 2
        (declarations tree) :=
      Node.stated_methodsAll (Node.ofValue (statements tree)) 0 false 2 none
    obtain ⟨-, htop⟩ | ⟨m, c, -, hc, hsite, hclass⟩ := hstated.holder hd
    · cases htop hmethod
    · refine ⟨2 + m, ?_, ?_⟩
      · rw [owner?_eq_bares, getElem?_bares_ofTree, hd, ← hsite, ← howner]
        rfl
      · rw [isClass, scopeKind?_eq_bares, getElem?_bares_ofTree, hc]
        exact beq_iff_eq.2 (hclass hmethod)

theorem exact_ofTree : Exact (ofTree name tree contentHash mtime size).1.outline := by
  have hsame := upToLinks_ofTree name tree contentHash mtime size
  exact (exact_entered name tree).congr hsame.bares hsame.home hsame.shown

theorem catalogued_ofTree : Catalogued (ofTree name tree contentHash mtime size).1.outline := by
  have hsame := upToLinks_ofTree name tree contentHash mtime size
  exact (catalogued_entered name tree).congr hsame.bares hsame.home hsame.namespaces hsame.externals

/-- Every list of the file of a tree is a view of its entities. -/
theorem memberViews_ofTree : MemberViews (ofTree name tree contentHash mtime size).1.outline := by
  exact memberViews_of_exact (wellOwned_ofTree name tree contentHash mtime size)
    (exact_ofTree name tree contentHash mtime size)
    (catalogued_ofTree name tree contentHash mtime size)
    (methodsInClasses_ofTree name tree contentHash mtime size)

end OfTree

end SourceFile

end SymbolAtlas
