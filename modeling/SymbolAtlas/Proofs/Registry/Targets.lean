import Mathlib
import SymbolAtlas.Proofs.Registry.Coherence
import SymbolAtlas.Proofs.SourceFile.RoundTrip
import SymbolAtlas.Proofs.Text.Path

/-!
# What links lead to

A directive leads to the first of its candidates that denotes an indexed file.  Two registries with
the same site and the same indexed names resolve the same candidates.  So if a directive is
queued again with the name that it led to, or with none if it led nowhere, it leads to the same name
once more, although its candidates now come in another order (`Registry.target?_linkTo`).
-/

namespace SymbolAtlas

/-- Only a text is looked up as a name; what counts as false is passed over. -/
def Value.isNameOrFalsy : Value → Bool
  | .str _ => true
  | v => !v.truthy

theorem Value.isNameOrFalsy_iff {v : Value} :
    v.isNameOrFalsy = true ↔ (v.truthy = true → ∃ s, v = .str s) := by
  cases v <;> simp [isNameOrFalsy]

theorem Value.isNameOrFalsy_ofText? (s : Option String) :
    (Value.ofText? s).isNameOrFalsy = true := by
  cases s <;> rfl

namespace SourceFile

/-! ## Candidates -/

/-- The names that the literal path of a directive may stand for. -/
def pathsOf (fileName : String) (inc : Inclusion) : List String :=
  match inc.path? with
  | some path => pathNames fileName path
  | none => []

theorem ne_empty_of_mem_pathsOf {fileName : String} {inc : Inclusion} {name : String}
    (h : name ∈ pathsOf fileName inc) : name ≠ "" := by
  have hnormal : ∀ text, Path.normalText text ≠ "" := fun text =>
    (Path.proper_parse text).normal.render_ne
  unfold pathsOf at h
  split at h
  · unfold pathNames addName at h
    simp only at h
    split at h
    · rw [List.mem_singleton] at h
      exact h ▸ hnormal _
    · simp only [List.cons_append, List.nil_append, List.mem_cons, List.not_mem_nil, or_false] at h
      rcases h with h | h
      · rw [h]
        exact hnormal _
      · rw [h]
        exact hnormal _
  · cases h

section Candidates

variable {fileName : String} {inc : Inclusion}

theorem candidates_null :
    candidates fileName inc .null = (pathsOf fileName inc).map Value.str := rfl

theorem candidates_str {s : String} (hs : s ≠ "") :
    candidates fileName inc (.str s) =
      .str s :: ((pathsOf fileName inc).filter (· ≠ s)).map Value.str := by
  have htruthy : (Value.str s).truthy = true := by simpa [Value.truthy] using hs
  unfold candidates
  rw [if_pos htruthy]
  rfl

/-- A text among the candidates is never empty. -/
theorem ne_empty_of_mem_candidates {before : Value} {s : String}
    (h : .str s ∈ candidates fileName inc before) : s ≠ "" := by
  unfold candidates at h
  rcases List.mem_append.1 h with h | h
  · split at h
    · rename_i htruthy
      rw [List.mem_singleton] at h
      rw [← h] at htruthy
      simpa [Value.truthy] using htruthy
    · cases h
  · obtain ⟨name, hname, ⟨⟩⟩ := List.mem_map.1 h
    have hpath : s ∈ pathsOf fileName inc := by
      split at hname
      · exact (List.mem_filter.1 hname).1
      · exact hname
    exact ne_empty_of_mem_pathsOf hpath

/-- The names of the path are among the candidates, wherever the directive led before. -/
theorem mem_candidates_of_mem_pathsOf (before : Value) {s : String}
    (h : s ∈ pathsOf fileName inc) : .str s ∈ candidates fileName inc before := by
  unfold candidates
  rw [List.mem_append]
  cases before with
  | str t =>
    by_cases hst : s = t
    · left
      have htruthy : (Value.str t).truthy = true := by
        simpa [Value.truthy, ← hst] using ne_empty_of_mem_pathsOf h
      rw [if_pos htruthy, hst]
      exact List.mem_singleton.2 rfl
    · right
      exact List.mem_map.2 ⟨s, List.mem_filter.2 ⟨h, by simpa using hst⟩, rfl⟩
  | _ => exact Or.inr (List.mem_map.2 ⟨s, h, rfl⟩)

/-- If a directive led to a name before, or to nothing, then all of its candidates are texts. -/
theorem isText_of_mem_candidates {before : Value} (hbefore : before.isNameOrFalsy = true)
    {c : Value} (h : c ∈ candidates fileName inc before) : ∃ s, c = .str s := by
  unfold candidates at h
  rcases List.mem_append.1 h with h | h
  · split at h
    · rename_i htruthy
      rw [List.mem_singleton] at h
      obtain ⟨s, rfl⟩ := Value.isNameOrFalsy_iff.1 hbefore htruthy
      exact ⟨s, h⟩
    · cases h
  · obtain ⟨name, -, rfl⟩ := List.mem_map.1 h
    exact ⟨name, rfl⟩

/-- Anything else that a directive led to before is its first candidate. -/
theorem candidates_of_not_name (fileName : String) (inc : Inclusion) {before : Value}
    (hbefore : before.isNameOrFalsy = false) :
    ∃ rest, candidates fileName inc before = before :: rest := by
  have htruthy : before.truthy = true := by
    cases before <;> simp_all [Value.isNameOrFalsy]
  unfold candidates
  rw [if_pos htruthy]
  exact ⟨_, rfl⟩

end Candidates

/-! ## The first hit -/

section FirstHit

variable {resolve : Value → Except BadName (Option Nat)} {names : List Value}

theorem mem_of_firstHit_some {n : Nat} (h : firstHit resolve names = .ok (some n)) :
    ∃ c ∈ names, resolve c = .ok (some n) := by
  induction names with
  | nil => cases h
  | cons c rest ih =>
    rw [firstHit] at h
    split at h
    · cases h
    · rename_i m hm
      cases h
      exact ⟨c, List.mem_cons_self, hm⟩
    · obtain ⟨c', hc', hhit⟩ := ih h
      exact ⟨c', List.mem_cons_of_mem c hc', hhit⟩

theorem firstHit_eq_none_iff :
    firstHit resolve names = .ok none ↔ ∀ c ∈ names, resolve c = .ok none := by
  induction names with
  | nil => simp [firstHit]
  | cons c rest ih =>
    rw [firstHit, List.forall_mem_cons]
    split
    · rename_i e he
      simp [he]
    · rename_i n hn
      simp [hn]
    · rename_i hn
      rw [ih]
      simp [hn]

theorem firstHit_ok (h : ∀ c ∈ names, ∃ hit, resolve c = .ok hit) :
    ∃ hit, firstHit resolve names = .ok hit := by
  induction names with
  | nil => exact ⟨none, rfl⟩
  | cons c rest ih =>
    obtain ⟨⟨hit, hhit⟩, hrest⟩ := List.forall_mem_cons.1 h
    rw [firstHit, hhit]
    cases hit with
    | none => exact ih hrest
    | some n => exact ⟨some n, rfl⟩

end FirstHit

end SourceFile

/-! ## Names that a text is looked up under -/

namespace Registry

open SourceFile

/-- The names under which the file that a text denotes may be indexed: the text itself, and an
absolute path also as seen from the directory. -/
def lookupNames (site : Site) (s : String) : List String :=
  s :: if (Path.parse s).isAbsolute && !(Path.parse s).hasNul then
    (site.directory.below? (site.placeOf (Path.parse s))).toList.map Path.render else []

theorem ne_empty_of_mem_lookupNames {site : Site} {s k : String} (hs : s ≠ "")
    (h : k ∈ lookupNames site s) : k ≠ "" := by
  unfold lookupNames at h
  rcases List.mem_cons.1 h with rfl | h
  · exact hs
  · split at h
    · obtain ⟨relative, hrelative, rfl⟩ := List.mem_map.1 h
      rw [Option.mem_toList] at hrelative
      exact ((Path.proper_parse _).below? hrelative).render_ne
    · cases h

variable {r r' : Registry}

theorem resolve_eq_findSome? (s : String) :
    r.resolve s = (lookupNames r.toSite s).findSome? r.get? := by
  unfold resolve lookupNames
  rw [List.findSome?_cons]
  cases r.get? s with
  | some n => rfl
  | none =>
    simp only
    split
    · cases r.directory.below? (r.placeOf (Path.parse s)) with
      | none => rfl
      | some relative =>
        simp only [Option.toList_some, List.map_cons, List.map_nil, List.findSome?_cons,
          List.findSome?_nil]
        cases r.get? relative.render <;> rfl
    · rfl

/-- A candidate that leads to a file is a text, and the file is indexed under one of its names. -/
theorem get?_of_resolveCandidate {c : Value} {n : Nat}
    (h : r.resolveCandidate c = .ok (some n)) :
    ∃ s k, c = .str s ∧ k ∈ lookupNames r.toSite s ∧ r.get? k = some n := by
  cases c with
  | str s =>
    have hresolve : r.resolve s = some n := Except.ok.inj h
    rw [resolve_eq_findSome?] at hresolve
    obtain ⟨k, hk, hn⟩ := List.exists_of_findSome?_eq_some hresolve
    exact ⟨s, k, rfl, hk, hn⟩
  | _ => cases h

theorem resolveCandidate_of_get? {k : String} {n : Nat} (h : r.get? k = some n) :
    r.resolveCandidate (.str k) = .ok (some n) := by
  rw [resolveCandidate, resolve, h]

/-- The candidates of a directive can be looked up unless it led to something that is no name. -/
theorem firstHit_candidates_ok_iff {fileName : String} {inc : Inclusion} {before : Value} :
    (∃ hit, firstHit r.resolveCandidate (candidates fileName inc before) = .ok hit) ↔
      before.isNameOrFalsy = true := by
  constructor
  · rintro ⟨hit, hhit⟩
    by_contra hbefore
    rw [Bool.not_eq_true] at hbefore
    obtain ⟨rest, hrest⟩ := candidates_of_not_name fileName inc hbefore
    rw [hrest, firstHit] at hhit
    cases before with
    | str s => cases hbefore
    | _ => cases hhit
  · intro hbefore
    refine firstHit_ok fun c hc => ?_
    obtain ⟨s, rfl⟩ := isText_of_mem_candidates hbefore hc
    exact ⟨_, rfl⟩

/-- The registries stand at the same site and index the same names. -/
structure SameNames (r r' : Registry) : Prop where
  site : r'.toSite = r.toSite
  get? : ∀ k, (r'.get? k).isSome = (r.get? k).isSome

theorem SameNames.resolve_eq_none (h : SameNames r r') {s : String}
    (hs : r.resolveCandidate (.str s) = .ok none) : r'.resolveCandidate (.str s) = .ok none := by
  have hnone : r.resolve s = none := Except.ok.inj hs
  rw [resolve_eq_findSome?, List.findSome?_eq_none_iff] at hnone
  rw [resolveCandidate, resolve_eq_findSome?, h.site]
  congr 1
  rw [List.findSome?_eq_none_iff]
  intro k hk
  rw [← Option.not_isSome_iff_eq_none, h.get?, hnone k hk]
  simp

theorem nameOf_of_get? (h : r.Coherent) {k : String} {n : Nat} (hk : r.get? k = some n) :
    r.nameOf n = some k := by
  have hentry : r.entries.get? k = some (.loaded n) := by
    unfold Registry.get? at hk
    split at hk
    · rename_i m hm
      cases hk
      exact hm
    · cases hk
  obtain ⟨f, hf, hentered⟩ := h.named hentry
  rw [nameOf, hf, Option.map_some, hentered.name_eq]

/-- A directive that is queued again with the name that it led to leads there once more. -/
theorem target?_linkTo (hr : r.Coherent) (hr' : r'.Coherent) (hsame : SameNames r r')
    {fileName : String} {inc : Inclusion} {before : Value} {hit : Option Nat}
    (hhit : firstHit r.resolveCandidate (candidates fileName inc before) = .ok hit)
    {target : Option String}
    (htarget : (linkTo r.resolveCandidate (candidates fileName inc before)).target? r.nameOf =
      target) :
    (linkTo r'.resolveCandidate (candidates fileName inc (Value.ofText? target))).target?
      r'.nameOf = target := by
  rw [linkTo, hhit] at htarget
  cases hit with
  | none =>
    subst htarget
    have hmiss : firstHit r'.resolveCandidate (candidates fileName inc .null) = .ok none := by
      rw [firstHit_eq_none_iff, candidates_null]
      intro c hc
      obtain ⟨s, hs, rfl⟩ := List.mem_map.1 hc
      exact hsame.resolve_eq_none
        (firstHit_eq_none_iff.1 hhit _ (mem_candidates_of_mem_pathsOf before hs))
    show (linkTo r'.resolveCandidate (candidates fileName inc .null)).target? r'.nameOf = none
    rw [linkTo, hmiss]
    rfl
  | some n =>
    obtain ⟨c, hc, hcn⟩ := mem_of_firstHit_some hhit
    obtain ⟨s, k, rfl, hk, hkn⟩ := get?_of_resolveCandidate hcn
    have hne : k ≠ "" := ne_empty_of_mem_lookupNames (ne_empty_of_mem_candidates hc) hk
    have hname : target = some k := by
      rw [← htarget]
      exact nameOf_of_get? hr hkn
    obtain ⟨m, hm⟩ : ∃ m, r'.get? k = some m := by
      rw [← Option.isSome_iff_exists, hsame.get?, hkn]
      rfl
    rw [hname]
    show (linkTo r'.resolveCandidate (candidates fileName inc (.str k))).target? r'.nameOf = some k
    rw [linkTo, candidates_str hne, firstHit, resolveCandidate_of_get? hm]
    exact nameOf_of_get? hr' hm

end Registry

end SymbolAtlas
