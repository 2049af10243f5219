import Mathlib
import SymbolAtlas.Proofs.Outline.Members
import SymbolAtlas.Proofs.Outline.Nesting

/-!
# Member lists as views of the ownership tree

An entity is shown in one list of its owner and, if it is shared, in the same list of the namespace
around it.  `Outline.Exact` says that the member lists hold exactly these entities, each once and in
the order of their numbers; `Outline.Catalogued` says the same of the namespaces and the include
directives that the file lists.  Entering a declaration keeps both (`Exact.enter`,
`Catalogued.enter`): what was shown before stays as it was, since the owners and the namespaces of
earlier entities do not change, and the new entity comes last in the lists of its hosts.
-/

namespace SymbolAtlas

namespace Entity

variable {e : Entity}

theorem showing?_bare (e : Entity) : e.bare.showing? = e.showing? := by
  obtain ⟨detail, name, parent, span, doc⟩ := e
  cases detail with
  | scope k b => cases k <;> rfl
  | «variable» => rfl
  | external i => rfl

theorem showing?_of_namespace (h : e.scopeKind? = some .namespaceScope) : e.showing? = none := by
  obtain ⟨detail, name, parent, span, doc⟩ := e
  cases detail with
  | scope k b =>
    cases h
    rfl
  | «variable» => cases h
  | external i => cases h

theorem scopeKind?_of_showing? {list : MemberList} {shared : Bool}
    (h : e.showing? = some (list, shared)) : e.scopeKind? ≠ some .namespaceScope := by
  intro hk
  rw [showing?_of_namespace hk] at h
  cases h

/-- An include directive is no scope and is shown in no list. -/
theorem of_inclusion? (h : e.inclusion?.isSome) : e.scopeKind? = none ∧ e.showing? = none := by
  obtain ⟨detail, name, parent, span, doc⟩ := e
  cases detail with
  | scope k b => cases h
  | «variable» => cases h
  | external i => exact ⟨rfl, rfl⟩

theorem inclusion?_of_scopeKind? {k : ScopeKind} (h : e.scopeKind? = some k) :
    e.inclusion? = none := by
  obtain ⟨detail, name, parent, span, doc⟩ := e
  cases detail with
  | scope k b => rfl
  | «variable» => rfl
  | external i => cases h

end Entity

namespace Outline

/-- The list that shows an entity in its owner, and whether the namespace around it shares it. -/
def showing? (o : Outline) (i : Nat) : Option (MemberList × Bool) :=
  (o.get? i).bind Entity.showing?

/-- Whether one of the lists of `scope` is to show the entity `i`. -/
def showsIn (o : Outline) (list : MemberList) (scope i : Nat) : Bool :=
  match o.showing? i with
  | some (l, shared) =>
    l = list && (o.owner? i = some scope || (shared && o.namespaceOf i = some scope))
  | none => false

/-- The member lists show what they are to show, in ascending order. -/
def Exact (o : Outline) : Prop :=
  ∀ scope list, (o.shown scope).get list = (List.range o.size).filter (o.showsIn list scope)

/-- The file lists its namespaces, the home first, and its include directives in ascending order,
and it owns the namespaces. -/
structure Catalogued (o : Outline) : Prop where
  namespaces : o.namespaces = (List.range o.size).filter o.isNamespace
  externals : o.externals = (List.range o.size).filter o.isExternal
  home : o.home.isSome ∧ o.namespaces.head? = o.home
  owned : ∀ i, o.isNamespace i = true → o.owner? i = some 0

theorem Exact.inRange {o : Outline} (h : Exact o) : InRange o := by
  intro i list m hm
  rw [h i list] at hm
  exact List.mem_range.1 (List.mem_filter.1 hm).1

theorem showing?_eq_bares (o : Outline) (i : Nat) :
    o.showing? i = o.bares[i]?.bind Entity.showing? := by
  rw [showing?, getElem?_bares, Option.bind_map]
  congr 1
  funext e
  exact e.showing?_bare.symm

/-! ## Views depend on what is stated and shown -/

section Congr

variable {o o' : Outline} (hbares : o'.bares = o.bares) (hhome : o'.home = o.home)

include hbares hhome in
theorem showsIn_congr (list : MemberList) (scope i : Nat) :
    o'.showsIn list scope i = o.showsIn list scope i := by
  have hns : o'.namespaceOf i = o.namespaceOf i := by
    refine namespaceOf_congr (fun j _ => ?_) (fun j _ => ?_) hhome
    · rw [owner?_eq_bares, owner?_eq_bares, hbares]
    · rw [scopeKind?_eq_bares, scopeKind?_eq_bares, hbares]
  rw [showsIn, showsIn, showing?_eq_bares, showing?_eq_bares, owner?_eq_bares, owner?_eq_bares,
    hbares, hns]

theorem size_eq_of_bares (hbares : o'.bares = o.bares) : o'.size = o.size := by
  rw [← length_bares, hbares, length_bares]

include hbares hhome in
theorem Exact.congr (h : Exact o) (hshown : ∀ i, o'.shown i = o.shown i) : Exact o' := by
  intro scope list
  rw [hshown, h scope list, size_eq_of_bares hbares]
  exact List.filter_congr fun i _ => (showsIn_congr hbares hhome list scope i).symm

include hbares hhome in
theorem Catalogued.congr (h : Catalogued o) (hns : o'.namespaces = o.namespaces)
    (hex : o'.externals = o.externals) : Catalogued o' := by
  have hisns : o'.isNamespace = o.isNamespace := by
    funext i
    rw [isNamespace_eq_bares, isNamespace_eq_bares, hbares]
  have hisex : o'.isExternal = o.isExternal := by
    funext i
    rw [isExternal_eq_bares, isExternal_eq_bares, hbares]
  refine ⟨?_, ?_, ?_, ?_⟩
  · rw [hns, hisns, size_eq_of_bares hbares, h.namespaces]
  · rw [hex, hisex, size_eq_of_bares hbares, h.externals]
  · rw [hhome, hns]
    exact h.home
  · intro i hi
    rw [owner?_eq_bares, hbares, ← owner?_eq_bares]
    exact h.owned i (hisns ▸ hi)

end Congr

/-! ## Hosts -/

theorem namespaceOf_of_isNamespace {o : Outline} {i : Nat} (h : o.isNamespace i = true) :
    o.namespaceOf i = some i := by
  simp [namespaceOf, h]

/-- An entity lies in a namespace, provided that the home is one. -/
theorem isNamespace_of_namespaceOf {o : Outline}
    (hhome : ∀ n, o.home = some n → o.isNamespace n = true) {i n : Nat}
    (h : o.namespaceOf i = some n) : o.isNamespace n = true := by
  unfold namespaceOf at h
  split at h
  · rename_i m hm
    cases h
    exact List.find?_some hm
  · split at h
    · exact hhome n h
    · cases h

theorem Ready.isNamespace_home {o : Outline} (h : Ready o) {n : Nat} (hn : o.home = some n) :
    o.isNamespace n = true := by
  obtain ⟨m, hm, hns⟩ := h.home
  rw [hn] at hm
  cases hm
  exact hns

section Hosts

variable {o : Outline} (h : Ready o) {site : Nat} (hs : (o.scopeKind? site).isSome)

theorem mem_hosts (o : Outline) (site : Nat) (shared : Bool) (i : Nat) :
    i ∈ o.hosts site shared ↔ i = site ∨ (shared = true ∧ o.namespaceOf site = some i) := by
  by_cases hns : o.isNamespace site = true
  · simp only [hosts, hns, namespaceOf_of_isNamespace hns]
    constructor
    · intro hi
      exact Or.inl (by simpa using hi)
    · rintro (rfl | ⟨-, hi⟩)
      · exact List.mem_cons_self
      · cases hi
        exact List.mem_cons_self
  · cases shared <;> simp [hosts, hns]

include h hs in
theorem nodup_hosts (shared : Bool) : (o.hosts site shared).Nodup := by
  by_cases hsh : (shared && !o.isNamespace site) = true
  · obtain ⟨n, hn, hns⟩ := h.exists_namespaceOf (lt_size_of_scopeKind? hs)
    have hne : site ≠ n := by
      rintro rfl
      simp [hns] at hsh
    simp [hosts, hsh, hn, hne]
  · simp [hosts, hsh]

include h hs in
theorem scopeKind?_of_mem_hosts {shared : Bool} {i : Nat} (hi : i ∈ o.hosts site shared) :
    (o.scopeKind? i).isSome := by
  rcases (mem_hosts o site shared i).1 hi with rfl | ⟨-, hn⟩
  · exact hs
  · have hns := isNamespace_of_namespaceOf (fun _ => h.isNamespace_home) hn
    rw [isNamespace, beq_iff_eq] at hns
    simp [hns]

/-- An entity that is added and shown in several scopes comes last in one list of each of them. -/
theorem shown_addShown (site : Nat) {e : Entity} (hl : o.linked = true) (he : e.IsFresh)
    (list : MemberList) {scopes : List Nat} (hnodup : scopes.Nodup)
    (hscopes : ∀ s ∈ scopes, (o.scopeKind? s).isSome) (i : Nat) :
    (o.addShown site e list scopes).shown i =
      if i ∈ scopes then (o.shown i).push list o.size else o.shown i := by
  have hall : ∀ (ss : List Nat) (x : Outline), ss.Nodup → (∀ s ∈ ss, (x.scopeKind? s).isSome) →
      (ss.foldl (fun x s => x.display list o.size s) x).shown i =
        if i ∈ ss then (x.shown i).push list o.size else x.shown i := by
    intro ss
    induction ss with
    | nil => intro x _ _; rfl
    | cons s ss ih =>
      intro x hnd hk
      obtain ⟨hs, hrest⟩ := List.forall_mem_cons.1 hk
      obtain ⟨hnot, hnd⟩ := List.nodup_cons.1 hnd
      have hone : (x.display list o.size s).shown i =
          if i = s then (x.shown i).push list o.size else x.shown i := by
        rw [display, shown_setMembers x fun ms => ms.push list o.size]
        by_cases hi : i = s
        · subst hi
          simp [hs]
        · simp [hi, Ne.symm hi]
      have hkinds : ∀ t ∈ ss, ((x.display list o.size s).scopeKind? t).isSome := fun t ht => by
        rw [scopeKind?_display]
        exact hrest t ht
      rw [List.foldl_cons, ih _ hnd hkinds, hone]
      by_cases hi : i = s
      · subst hi
        simp [hnot]
      · simp [hi]
  rw [addShown, hall scopes _ hnodup, shown_add hl site he]
  intro s hsc
  have hsome := hscopes s hsc
  rw [scopeKind?_add hl, if_neg (Nat.ne_of_lt (lt_size_of_scopeKind? hsome))]
  exact hsome

end Hosts

/-! ## Entering one more entity -/

section Enter

variable {o : Outline} {d : Declaration} (h : Ready o) (hd : o.Takes d)

include h hd

theorem home_enter : (o.enter d).home = o.home := by
  obtain ⟨list, shared, -, -, -, he⟩ | ⟨-, -, he⟩ | ⟨-, -, he⟩ := enter_cases h hd
  · rw [he]
    exact addShown_keeps (P := fun x => x.home = o.home) (fun _ _ hx => hx) (home_add o _ _) _
  · rw [he]
    exact home_add o _ _
  · rw [he]
    exact home_add o _ _

theorem scopeKind?_enter_of_lt {i : Nat} (hi : i < o.size) :
    (o.enter d).scopeKind? i = o.scopeKind? i := by
  rw [scopeKind?_eq_bares, scopeKind?_eq_bares, getElem?_bares_enter h hd, if_neg (by omega)]

theorem namespaceOf_enter_of_lt {i : Nat} (hi : i < o.size) :
    (o.enter d).namespaceOf i = o.namespaceOf i := by
  refine namespaceOf_congr (fun j hj => ?_) (fun j hj => ?_) (home_enter h hd)
  · rw [owner?_enter h hd, if_neg (by omega)]
  · exact scopeKind?_enter_of_lt h hd (by omega)

/-- What is declared in a scope lies in the namespace of the scope, unless it is a namespace. -/
theorem namespaceOf_enter_size (hkind : d.entity.scopeKind? ≠ some .namespaceScope) :
    (o.enter d).namespaceOf o.size = o.namespaceOf d.site := by
  have hsite : d.site < o.size := lt_size_of_scopeKind? hd.1
  have hw := (h.enter hd).wellOwned
  have howner : (o.enter d).owner? o.size = some d.site := by
    rw [owner?_enter h hd, if_pos rfl, Declaration.owner, if_neg hkind]
  have hnew : (o.enter d).isNamespace o.size = false := by
    rw [isNamespace, scopeKind?_enter h hd]
    simpa using hkind
  have hfile : (o.enter d).fileOf o.size = (o.enter d).fileOf d.site := by
    have hsize := size_enter h hd
    rw [hw.fileOf_eq (by omega), hw.fileOf_eq (by omega)]
  rw [← namespaceOf_enter_of_lt h hd hsite, namespaceOf, namespaceOf,
    hw.ancestors_of_owner? howner, List.find?_cons_of_neg (by simp [hnew]), hfile]

theorem showing?_enter (i : Nat) :
    (o.enter d).showing? i = if i = o.size then d.entity.showing? else o.showing? i := by
  rw [showing?_eq_bares, showing?_eq_bares, getElem?_bares_enter h hd]
  split <;> rfl

theorem showsIn_enter_of_lt (list : MemberList) (scope : Nat) {i : Nat} (hi : i < o.size) :
    (o.enter d).showsIn list scope i = o.showsIn list scope i := by
  rw [showsIn, showsIn, showing?_enter h hd, if_neg (by omega), owner?_enter h hd,
    if_neg (by omega), namespaceOf_enter_of_lt h hd hi]

/-- The new entity comes last in the lists that are to show it; the other lists stay as they are. -/
theorem get_shown_enter (scope : Nat) (list : MemberList) :
    ((o.enter d).shown scope).get list =
      (o.shown scope).get list ++
        [o.size].filter ((o.enter d).showsIn list scope) := by
  have hl := h.wellOwned.linked
  have hown := owner?_enter h hd o.size
  rw [if_pos rfl] at hown
  have hshowing := showing?_enter h hd o.size
  rw [if_pos rfl] at hshowing
  obtain ⟨l, shared, hsh, hw, -, he⟩ | ⟨-, hkind, he⟩ | ⟨-, hinc, he⟩ := enter_cases h hd
  · have hkind := Entity.scopeKind?_of_showing? hsh
    have hshows : (o.enter d).showsIn list scope o.size = true ↔
        l = list ∧ scope ∈ o.hosts d.site shared := by
      rw [showsIn, hshowing, hsh, mem_hosts, hown, hw, namespaceOf_enter_size h hd hkind]
      simp only [Bool.and_eq_true, Bool.or_eq_true, decide_eq_true_eq, Option.some.injEq,
        @eq_comm Nat scope d.site]
    have hshown := shown_addShown d.site hl hd.2 l (nodup_hosts h hd.1 shared)
      (fun s => scopeKind?_of_mem_hosts h hd.1) scope
    rw [← he] at hshown
    rw [hshown]
    by_cases hhost : scope ∈ o.hosts d.site shared
    · by_cases hlist : list = l
      · subst hlist
        simp [hhost, hshows.2]
      · have hnot : ¬ (o.enter d).showsIn list scope o.size = true := fun hc =>
          hlist (hshows.1 hc).1.symm
        simp [hhost, hnot, Members.get_push_of_ne _ _ hlist]
    · have hnot : ¬ (o.enter d).showsIn list scope o.size = true := fun hc => hhost (hshows.1 hc).2
      simp [hhost, hnot]
  · -- a namespace is shown in no list
    have hnone : d.entity.showing? = none := Entity.showing?_of_namespace hkind
    have hshown : (o.enter d).shown scope = o.shown scope := by
      rw [he]
      exact shown_add hl 0 hd.2 scope
    simp [hshown, showsIn, hshowing, hnone]
  · have hnone : d.entity.showing? = none := (Entity.of_inclusion? hinc).2
    have hshown : (o.enter d).shown scope = o.shown scope := by
      rw [he]
      exact shown_add hl d.site hd.2 scope
    simp [hshown, showsIn, hshowing, hnone]

/-- Entering splits the numbers into the old ones and the new one. -/
theorem filter_range_enter (p q : Nat → Bool) (hpq : ∀ i, i < o.size → p i = q i) :
    (List.range (o.enter d).size).filter p =
      (List.range o.size).filter q ++ [o.size].filter p := by
  rw [size_enter h hd, List.range_succ, List.filter_append]
  congr 1
  exact List.filter_congr fun i hi => hpq i (List.mem_range.1 hi)

theorem Exact.enter (hx : Exact o) : Exact (o.enter d) := by
  intro scope list
  rw [get_shown_enter h hd, hx scope list]
  exact (filter_range_enter h hd _ _ fun i hi => showsIn_enter_of_lt h hd list scope hi).symm

/-- Only a namespace changes the list of namespaces, and only an include directive that of the
include directives. -/
theorem lists_enter :
    (o.enter d).namespaces = o.namespaces ++ [o.size].filter (o.enter d).isNamespace ∧
      (o.enter d).externals = o.externals ++ [o.size].filter (o.enter d).isExternal := by
  have hns : (o.enter d).isNamespace o.size = (d.entity.scopeKind? == some .namespaceScope) := by
    rw [isNamespace_enter h hd, if_pos rfl]
  have hex : (o.enter d).isExternal o.size = d.entity.inclusion?.isSome := by
    rw [isExternal_enter h hd, if_pos rfl]
  obtain ⟨list, shared, hsh, -, hinc, he⟩ | ⟨-, hkind, he⟩ | ⟨-, hinc, he⟩ := enter_cases h hd
  · have hkind := Entity.scopeKind?_of_showing? hsh
    have hlists : (o.enter d).namespaces = o.namespaces ∧ (o.enter d).externals = o.externals := by
      rw [he]
      exact addShown_keeps (P := fun x => x.namespaces = o.namespaces ∧ x.externals = o.externals)
        (fun _ _ hx => hx) ⟨namespaces_add o _ _, externals_add o _ _⟩ _
    simp [hlists, hns, hex, hinc, hkind]
  · have hinc : d.entity.inclusion? = none := Entity.inclusion?_of_scopeKind? hkind
    have hlists : (o.enter d).namespaces = o.namespaces ++ [o.size] ∧
        (o.enter d).externals = o.externals := by
      rw [he]
      exact ⟨rfl, externals_add o _ _⟩
    simp [hlists, hns, hex, hinc, hkind]
  · have hkind : d.entity.scopeKind? = none := (Entity.of_inclusion? hinc).1
    have hlists : (o.enter d).namespaces = o.namespaces ∧
        (o.enter d).externals = o.externals ++ [o.size] := by
      rw [he]
      exact ⟨namespaces_add o _ _, rfl⟩
    simp [hlists, hns, hex, hinc, hkind]

theorem Catalogued.enter (hc : Catalogued o) : Catalogued (o.enter d) := by
  obtain ⟨hns, hex⟩ := lists_enter h hd
  refine ⟨?_, ?_, ⟨?_, ?_⟩, ?_⟩
  · rw [hns, hc.namespaces]
    refine (filter_range_enter h hd _ _ fun i hi => ?_).symm
    rw [isNamespace_enter h hd, if_neg (by omega)]
  · rw [hex, hc.externals]
    refine (filter_range_enter h hd _ _ fun i hi => ?_).symm
    rw [isExternal_enter h hd, if_neg (by omega)]
  · rw [home_enter h hd]
    exact hc.home.1
  · obtain ⟨n, hn⟩ := Option.isSome_iff_exists.1 hc.home.1
    have hhead := hc.home.2
    rw [home_enter h hd, hns, List.head?_append, hhead, hn]
    rfl
  · intro i hi
    rw [isNamespace_enter h hd] at hi
    rw [owner?_enter h hd]
    by_cases hnew : i = o.size
    · rw [if_pos hnew, beq_iff_eq] at hi
      rw [if_pos hnew, Declaration.owner, if_pos hi]
    · rw [if_neg hnew] at hi ⊢
      exact hc.owned i hi

end Enter

end Outline

end SymbolAtlas
