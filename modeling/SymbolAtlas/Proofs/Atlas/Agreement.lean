import Mathlib
import SymbolAtlas.Proofs.Atlas.RoundTrip
import SymbolAtlas.Proofs.SourceFile.Relinked

/-!
# Indexes that agree

Two registries concur if they index the same names, and under each name the same file, up to how
often and among what it was looked up.  Files that were numbered, entered or linked in another order
do not matter.  Once all directives are looked up again, concurring indexes show the same snapshot
under every name (`Atlas.snapshot_of_concur`).
-/

namespace SymbolAtlas

namespace SourceFile

/-- All names that the directives of a file may lead to are texts. -/
def QueuesTexts (f : SourceFile) : Prop :=
  ∀ q ∈ f.queue, ∀ c ∈ q.candidates, ∃ s, c = .str s

theorem QueuesTexts.relinked {f g : SourceFile} (h : f.QueuesTexts) (hg : f.Relinked g) :
    g.QueuesTexts := by
  intro q hq
  exact h q (hg.queue_eq ▸ hq)

theorem queuesTexts_ofTree (name : String) (tree : Value) (contentHash : Option String)
    (mtime : Option Double) (size : Option Int) :
    (ofTree name tree contentHash mtime size).1.QueuesTexts := by
  intro q hq c hc
  obtain ⟨inc, -, hcandidates⟩ := (queues_ofTree name tree contentHash mtime size).sound q hq
  rw [hcandidates] at hc
  exact isText_of_mem_candidates rfl hc

end SourceFile

namespace Registry

open SourceFile

variable {r₁ r₂ : Registry}

theorem Tidy.nameOf_of_get? {r : Registry} (h : r.Tidy) {k : String} {n : Nat}
    (hk : r.get? k = some n) : r.nameOf n = some k := by
  obtain ⟨f, hf, hbears⟩ := h.named (entry_of_get? hk)
  rw [nameOf, hf, Option.map_some, hbears.name_eq]

theorem Tidy.get?_of_mem_loadedEntries {r : Registry} (h : r.Tidy) {x : String × Nat}
    (hx : x ∈ r.loadedEntries) : r.get? x.1 = some x.2 := by
  rw [get?_eq_loadedEntries h.distinct]
  exact Ledger.get?_of_mem (nodup_keys_loadedEntries h.distinct) hx

theorem Tidy.nodup_loaded {r : Registry} (h : r.Tidy) : r.loaded.Nodup := by
  refine List.Nodup.map_on ?_ (List.Nodup.of_map Prod.fst (nodup_keys_loadedEntries h.distinct))
  intro x hx y hy hxy
  -- a file bears one name only
  have hnames : some x.1 = some y.1 := by
    rw [← h.nameOf_of_get? (h.get?_of_mem_loadedEntries hx),
      ← h.nameOf_of_get? (h.get?_of_mem_loadedEntries hy), hxy]
  exact Prod.ext (Option.some.inj hnames) hxy

theorem mem_loaded_of_get? {r : Registry} {k : String} {n : Nat} (h : r.get? k = some n) :
    n ∈ r.loaded := by
  rw [loaded_eq]
  exact mem_loadedOf.2 ⟨k, Ledger.mem_of_get? (entry_of_get? h)⟩

theorem Tidy.get?_of_mem_loaded {r : Registry} (h : r.Tidy) {n : Nat} (hn : n ∈ r.loaded) :
    ∃ k, r.get? k = some n := by
  obtain ⟨x, hx, rfl⟩ := List.mem_map.1 hn
  exact ⟨x.1, h.get?_of_mem_loadedEntries hx⟩

/-! ## Registries that concur -/

/-- Both registries index versions of one file under a name, or neither indexes a file. -/
inductive ConcurAt (r₁ r₂ : Registry) (k : String) : Prop
  | neither (h₁ : r₁.get? k = none) (h₂ : r₂.get? k = none)
  | both {n₁ n₂ : Nat} {f f₁ f₂ : SourceFile} (h₁ : r₁.get? k = some n₁) (h₂ : r₂.get? k = some n₂)
      (hf₁ : r₁.files[n₁]? = some f₁) (hf₂ : r₂.files[n₂]? = some f₂) (htraced : f.Traced)
      (hrelinked₁ : f.Relinked f₁) (hrelinked₂ : f.Relinked f₂)

/-- The registries stand at the same site and concur under every name. -/
structure Concur (r₁ r₂ : Registry) : Prop where
  site : r₂.toSite = r₁.toSite
  files : ∀ k, ConcurAt r₁ r₂ k

/-- What two look-ups come to: the same fault, no file, or the files under one name. -/
inductive SameHit (r₁ r₂ : Registry) :
    Except BadName (Option Nat) → Except BadName (Option Nat) → Prop
  | fault (e : BadName) : SameHit r₁ r₂ (.error e) (.error e)
  | nothing : SameHit r₁ r₂ (.ok none) (.ok none)
  | file {k : String} {n₁ n₂ : Nat} (h₁ : r₁.get? k = some n₁) (h₂ : r₂.get? k = some n₂) :
      SameHit r₁ r₂ (.ok (some n₁)) (.ok (some n₂))

namespace Concur

variable (h : Concur r₁ r₂)

include h

theorem findSome? (ks : List String) :
    SameHit r₁ r₂ (.ok (ks.findSome? r₁.get?)) (.ok (ks.findSome? r₂.get?)) := by
  induction ks with
  | nil => exact .nothing
  | cons k rest ih =>
    rw [List.findSome?_cons, List.findSome?_cons]
    cases h.files k with
    | neither h₁ h₂ =>
      rw [h₁, h₂]
      exact ih
    | both h₁ h₂ =>
      rw [h₁, h₂]
      exact .file h₁ h₂

theorem resolveCandidate (c : Value) :
    SameHit r₁ r₂ (r₁.resolveCandidate c) (r₂.resolveCandidate c) := by
  cases c with
  | str s =>
    simp only [Registry.resolveCandidate, resolve_eq_findSome?, h.site]
    exact h.findSome? _
  | _ => exact .fault _

theorem firstHit (candidates : List Value) :
    SameHit r₁ r₂ (firstHit r₁.resolveCandidate candidates)
      (firstHit r₂.resolveCandidate candidates) := by
  induction candidates with
  | nil => exact .nothing
  | cons c rest ih =>
    have hsame := h.resolveCandidate c
    rw [SourceFile.firstHit, SourceFile.firstHit]
    generalize r₁.resolveCandidate c = hit₁ at hsame
    generalize r₂.resolveCandidate c = hit₂ at hsame
    cases hsame with
    | fault e => exact .fault e
    | nothing => exact ih
    | file h₁ h₂ => exact .file h₁ h₂

/-- Directives lead to the same names. -/
theorem target?_linkTo (h₁ : r₁.Tidy) (h₂ : r₂.Tidy) (candidates : List Value) :
    (linkTo r₂.resolveCandidate candidates).target? r₂.nameOf =
      (linkTo r₁.resolveCandidate candidates).target? r₁.nameOf := by
  have hsame := h.firstHit candidates
  unfold linkTo
  generalize SourceFile.firstHit r₁.resolveCandidate candidates = hit₁ at hsame
  generalize SourceFile.firstHit r₂.resolveCandidate candidates = hit₂ at hsame
  cases hsame with
  | fault e => rfl
  | nothing => rfl
  | file hk₁ hk₂ => exact (h₂.nameOf_of_get? hk₂).trans (h₁.nameOf_of_get? hk₁).symm

end Concur

end Registry

namespace Atlas

open SourceFile Registry

/-- All names that the directives of indexed files may lead to are texts. -/
def QueuesTexts (a : Atlas) : Prop :=
  ∀ k n f, a.get? k = some n → a.file? n = some f → f.QueuesTexts

/-- If all names can be looked up, all directives can. -/
theorem QueuesTexts.relinkEach_ok {a : Atlas} (h : a.QueuesTexts) (ha : a.registry.Tidy) :
    ∃ b missed, a.relinkEach a.registry.loaded 0 = (b, .ok missed) := by
  refine relinkEach_ok_iff.2 fun n hn f hf => ?_
  obtain ⟨k, hk⟩ := ha.get?_of_mem_loaded hn
  refine relink_ok_iff.2 fun q hq => firstHit_ok fun c hc => ?_
  obtain ⟨s, rfl⟩ := h k n f hk hf q hq c hc
  exact ⟨_, rfl⟩

theorem nameOf_relinkEach {a b : Atlas} (ha : a.registry.Tidy) {missed : Nat}
    (h : a.relinkEach a.registry.loaded 0 = (b, .ok missed)) :
    b.registry.nameOf = a.registry.nameOf := by
  obtain ⟨-, hothers, heach⟩ := relinkEach_eq_ok ha.nodup_loaded h
  funext n
  by_cases hn : n ∈ a.registry.loaded
  · obtain ⟨k, hk⟩ := ha.get?_of_mem_loaded hn
    obtain ⟨f, hf, -⟩ := ha.named (entry_of_get? hk)
    obtain ⟨g, count, hg, hbg⟩ := heach n hn f hf
    have hname := (Relinked.single f a.registry.resolveCandidate).upToLinks.name_eq
    rw [hg] at hname
    rw [Registry.nameOf, Registry.nameOf, hf, show b.registry.files[n]? = some g from hbg,
      Option.map_some, Option.map_some, hname]
  · exact congrArg (Option.map SourceFile.name) (hothers n hn)

/-- The snapshot that is written down under a name is that of the file indexed there. -/
theorem get?_files_snapshot {a : Atlas} (ha : a.registry.Tidy) (k : String) :
    Ledger.get? a.snapshot.files k = (a.get? k).bind a.fileSnapshot? := by
  have hdistinct := nodup_keys_loadedEntries ha.distinct
  rw [Atlas.get?, get?_eq_loadedEntries ha.distinct, snapshot]
  generalize a.registry.loadedEntries = entries at hdistinct
  induction entries with
  | nil => rfl
  | cons x rest ih =>
    obtain ⟨name, n⟩ := x
    rw [Ledger.keys, List.map_cons, List.nodup_cons] at hdistinct
    have hrest := ih hdistinct.2
    simp only [List.filterMap_cons, Ledger.get?_cons]
    by_cases hk : name = k
    · rw [if_pos hk, Option.bind_some]
      cases hn : a.fileSnapshot? n with
      | some s => rw [Option.map_some, Ledger.get?_cons, if_pos hk]
      | none =>
        have hnone : Ledger.get? rest k = none := Ledger.get?_eq_none_iff.2 (hk ▸ hdistinct.1)
        rw [hnone] at hrest
        exact hrest
    · rw [if_neg hk]
      cases hn : a.fileSnapshot? n with
      | some s => rw [Option.map_some, Ledger.get?_cons, if_neg hk, hrest]
      | none => exact hrest

/-- Indexes that concur show the same snapshot under every name once all directives were looked
up again. -/
theorem snapshot_of_concur {a₁ a₂ b₁ b₂ : Atlas} (h : Concur a₁.registry a₂.registry)
    (ha₁ : a₁.registry.Tidy) (ha₂ : a₂.registry.Tidy) {missed₁ missed₂ : Nat}
    (hb₁ : a₁.relinkEach a₁.registry.loaded 0 = (b₁, .ok missed₁))
    (hb₂ : a₂.relinkEach a₂.registry.loaded 0 = (b₂, .ok missed₂)) (k : String) :
    (b₂.get? k).bind b₂.fileSnapshot? = (b₁.get? k).bind b₁.fileSnapshot? := by
  obtain ⟨hbooks₁, -, heach₁⟩ := relinkEach_eq_ok ha₁.nodup_loaded hb₁
  obtain ⟨hbooks₂, -, heach₂⟩ := relinkEach_eq_ok ha₂.nodup_loaded hb₂
  have hget : ∀ {a b : Atlas}, SameBooks a b → b.get? k = a.registry.get? k := by
    intro a b hbooks
    rw [Atlas.get?, Registry.get?, hbooks.entries, ← Registry.get?]
  rw [hget hbooks₁, hget hbooks₂]
  cases h.files k with
  | neither h₁ h₂ => rw [h₁, h₂, Option.bind_none, Option.bind_none]
  | both h₁ h₂ hf₁ hf₂ htraced hrelinked₁ hrelinked₂ =>
    obtain ⟨g₁, count₁, hg₁, hbg₁⟩ := heach₁ _ (mem_loaded_of_get? h₁) _ hf₁
    obtain ⟨g₂, count₂, hg₂, hbg₂⟩ := heach₂ _ (mem_loaded_of_get? h₂) _ hf₂
    rw [h₁, h₂, Option.bind_some, Option.bind_some, fileSnapshot?, fileSnapshot?, hbg₁, hbg₂,
      Option.map_some, Option.map_some, nameOf_relinkEach ha₁ hb₁, nameOf_relinkEach ha₂ hb₂]
    exact congrArg some (htraced.snapshot_eq hrelinked₁ hrelinked₂ hg₁ hg₂
      (h.target?_linkTo ha₁ ha₂))

end Atlas

end SymbolAtlas
