import Mathlib
import SymbolAtlas.Proofs.Registry.Operations

/-!
# Registries that were started out of turn

A load may be started on behalf of someone who remembers a file that is no longer indexed.  The
tally suffers from it, so such a registry need not be coherent.  What holds all the same is that an
indexed name leads to a file of that name that is no empty shell (`Registry.Steady`).

`Registry.Ends` says what the end of a load does to the entries: it may change that of its own name,
and only if the load is awaited.
-/

namespace SymbolAtlas

namespace Registry

section ForgetReplaced

variable (r : Registry) (name : String)

theorem files_forgetReplaced (m : Nat) :
    (r.forgetReplaced name).files[m]? =
      if r.replaced.get? name = some m then r.files[m]?.map SourceFile.detach else r.files[m]? := by
  unfold forgetReplaced forget
  split
  · rename_i n hn
    simp only [hn, Option.some.injEq]
    split
    · exact Array.getElem?_modify
    · rename_i hfile
      split
      · rename_i heq
        rw [← heq, hfile]
        rfl
      · rfl
  · rename_i hn
    simp only [hn, reduceCtorEq, ↓reduceIte]

theorem size_forgetReplaced : (r.forgetReplaced name).files.size = r.files.size := by
  unfold forgetReplaced forget
  split
  · split
    · exact Array.size_modify
    · rfl
  · rfl

theorem loads_forgetReplaced : (r.forgetReplaced name).loads = r.loads := by
  unfold forgetReplaced forget
  split
  · split <;> rfl
  · rfl

end ForgetReplaced

/-- Whether a name is entered with a load. -/
def isLoading (r : Registry) (name : String) : Bool :=
  match r.entries.get? name with
  | some (.loading _) => true
  | _ => false

section Start

variable (r : Registry) (name : String) (previous : Option Nat)

theorem entries_start :
    (r.start name previous).1.entries = r.entries.set name (.loading r.loads) := by
  cases previous <;> rfl

theorem get?_start (k : String) : (r.start name previous).1.entries.get? k =
    if k = name then some (.loading r.loads) else r.entries.get? k := by
  rw [entries_start, Ledger.get?_set]

theorem isLoading_start (k : String) : (r.start name previous).1.isLoading k =
    if k = name then true else r.isLoading k := by
  rw [isLoading, get?_start]
  by_cases hk : k = name
  · rw [if_pos hk, if_pos hk]
  · rw [if_neg hk, if_neg hk, isLoading]

theorem snd_start : (r.start name previous).2 = r.loads := by
  cases previous <;> rfl

theorem loads_start : (r.start name previous).1.loads = r.loads + 1 := by
  cases previous <;> rfl

theorem files_start : (r.start name previous).1.files = r.files := by
  cases previous <;> rfl

variable {r name previous} in
/-- What is indexed once a load has started was indexed before, under another name. -/
theorem loaded_of_start {k : String} {n : Nat}
    (hk : (r.start name previous).1.entries.get? k = some (.loaded n)) :
    k ≠ name ∧ r.entries.get? k = some (.loaded n) := by
  rw [get?_start] at hk
  split at hk
  · cases hk
  · rename_i hne
    exact ⟨hne, hk⟩

end Start

/-- The file with a number exists and is indexed under no other name. -/
structure Keeps (r : Registry) (name : String) (n : Nat) : Prop where
  exists' : n < r.files.size
  alone : ∀ {k}, r.entries.get? k = some (.loaded n) → k = name

theorem Keeps.start {r : Registry} {k name : String} {n : Nat} (h : r.Keeps k n)
    (previous : Option Nat) : (r.start name previous).1.Keeps k n where
  exists' := by
    rw [files_start]
    exact h.exists'
  alone := fun hk => h.alone (loaded_of_start hk).2

/-- An indexed file bears its name and is no empty shell, and no file that waits for its replacement
is indexed. -/
structure Steady (r : Registry) : Prop where
  named : ∀ {k n}, r.entries.get? k = some (.loaded n) →
    ∃ f, r.files[n]? = some f ∧ f.IsEntered k
  replaced_lt : ∀ {k n}, r.replaced.get? k = some n → n < r.files.size
  replaced_ne : ∀ {k n}, r.replaced.get? k = some n → ∀ k', r.entries.get? k' ≠ some (.loaded n)

section Steady

variable {r r' : Registry}

theorem Coherent.steady (h : Coherent r) : Steady r where
  named := h.named
  replaced_lt := fun hk => h.lt_size_of_held (mem_held_of_replaced hk)
  replaced_ne := by
    intro k n hk k' hk'
    have hloaded : n ∈ r.loaded := by
      rw [loaded_eq]
      exact mem_loadedOf.2 ⟨k', Ledger.mem_of_get? hk'⟩
    have hvalues : n ∈ r.replaced.values := List.mem_map.2 ⟨(k, n), Ledger.mem_of_get? hk, rfl⟩
    exact (List.nodup_append.1 h.exclusive).2.2 n hloaded n hvalues rfl

namespace Steady

theorem congr (h : Steady r) (he : r'.entries = r.entries) (hf : r'.files = r.files)
    (hr : r'.replaced = r.replaced) : Steady r' where
  named := by
    rw [he, hf]
    exact h.named
  replaced_lt := by
    rw [hr, hf]
    exact h.replaced_lt
  replaced_ne := by
    rw [hr, he]
    exact h.replaced_ne

theorem lt_size (h : Steady r) {k : String} {n : Nat}
    (hk : r.entries.get? k = some (.loaded n)) : n < r.files.size := by
  obtain ⟨f, hf, -⟩ := h.named hk
  exact (Array.getElem?_eq_some_iff.1 hf).1

theorem keeps (h : Steady r) {k : String} {n : Nat}
    (hk : r.entries.get? k = some (.loaded n)) : r.Keeps k n where
  exists' := h.lt_size hk
  alone := by
    intro k' hk'
    obtain ⟨f, hf, hentered⟩ := h.named hk
    obtain ⟨f', hf', hentered'⟩ := h.named hk'
    rw [hf] at hf'
    cases hf'
    rw [← hentered'.name_eq, hentered.name_eq]

theorem start (h : Steady r) {name : String} {previous : Option Nat}
    (hprevious : ∀ n, previous = some n → r.Keeps name n) : Steady (r.start name previous).1 := by
  have hfiles := r.files_start name previous
  -- the file that is to be replaced is the one that the load was given, if any
  have hreplaced : ∀ {k n}, (r.start name previous).1.replaced.get? k = some n →
      r.replaced.get? k = some n ∨ (k = name ∧ previous = some n) := by
    intro k n hk
    cases previous with
    | none => exact Or.inl hk
    | some m =>
      have hset : (r.replaced.set name m).get? k = some n := hk
      rw [Ledger.get?_set] at hset
      split at hset
      · rename_i heq
        cases hset
        exact Or.inr ⟨heq, rfl⟩
      · exact Or.inl hset
  refine ⟨?_, ?_, ?_⟩
  · intro k n hk
    rw [hfiles]
    exact h.named (loaded_of_start hk).2
  · intro k n hk
    rw [hfiles]
    rcases hreplaced hk with hold | ⟨-, hnew⟩
    · exact h.replaced_lt hold
    · exact (hprevious n hnew).exists'
  · intro k n hk k' hk'
    obtain ⟨hne, hentry⟩ := loaded_of_start hk'
    rcases hreplaced hk with hold | ⟨-, hnew⟩
    · exact h.replaced_ne hold k' hentry
    · exact hne ((hprevious n hnew).alone hentry)

/-- Forgetting the file that a load was to replace touches no indexed file. -/
theorem forgetReplaced (h : Steady r) (name : String) : Steady (r.forgetReplaced name) := by
  have hsub : ∀ {k m}, (r.forgetReplaced name).replaced.get? k = some m →
      r.replaced.get? k = some m := by
    intro k m hk
    rw [replaced_forgetReplaced, Ledger.get?_erase] at hk
    split at hk
    · cases hk
    · exact hk
  refine ⟨?_, ?_, ?_⟩
  · intro k m hk
    rw [entries_forgetReplaced] at hk
    rw [files_forgetReplaced, if_neg fun hm => h.replaced_ne hm k hk]
    exact h.named hk
  · intro k m hk
    rw [size_forgetReplaced]
    exact h.replaced_lt (hsub hk)
  · intro k m hk k' hk'
    rw [entries_forgetReplaced] at hk'
    exact h.replaced_ne (hsub hk) k' hk'

/-- A name may go. -/
theorem erase (h : Steady r) (name : String) :
    Steady { r with entries := r.entries.erase name } := by
  have hsub : ∀ {k n}, (r.entries.erase name).get? k = some (.loaded n) →
      r.entries.get? k = some (.loaded n) := by
    intro k n hk
    rw [Ledger.get?_erase] at hk
    split at hk
    · cases hk
    · exact hk
  exact ⟨fun hk => h.named (hsub hk), h.replaced_lt,
    fun hk k' hk' => h.replaced_ne hk k' (hsub hk')⟩

theorem getElem?_push {n : Nat} {f : SourceFile} (hlt : n < r.files.size) :
    (r.files.push f)[n]? = r.files[n]? := by
  rw [Array.getElem?_push, if_neg (by omega)]

/-- A file that is not indexed may come. -/
theorem addFile (h : Steady r) (f : SourceFile) : Steady (r.addFile f).1 where
  named := by
    intro k n hk
    rw [Registry.addFile, getElem?_push (h.lt_size hk)]
    exact h.named hk
  replaced_lt := by
    intro k n hk
    have hlt := h.replaced_lt hk
    simp only [Registry.addFile, Array.size_push]
    omega
  replaced_ne := h.replaced_ne

/-- A new file may be indexed under its name. -/
theorem enterNew (h : Steady r) {name : String} {f : SourceFile} (hf : f.IsEntered name) :
    Steady { (r.addFile f).1 with entries := r.entries.set name (.loaded r.files.size) } where
  named := by
    intro k n hk
    have hk' : (r.entries.set name (.loaded r.files.size)).get? k = some (.loaded n) := hk
    rw [Ledger.get?_set] at hk'
    split at hk'
    · rename_i heq
      cases hk'
      exact ⟨f, Array.getElem?_push_size, heq ▸ hf⟩
    · exact (h.addFile f).named hk'
  replaced_lt := (h.addFile f).replaced_lt
  replaced_ne := by
    intro k n hk k' hk'
    have hset : (r.entries.set name (.loaded r.files.size)).get? k' = some (.loaded n) := hk'
    rw [Ledger.get?_set] at hset
    split at hset
    · cases hset
      exact absurd (h.replaced_lt hk) (Nat.lt_irrefl _)
    · exact h.replaced_ne hk k' hset

theorem relink (h : Steady r) (n : Nat) : Steady (r.relink n).1 where
  named := by
    intro k m hk
    rw [entries_relink] at hk
    obtain ⟨f, hf, hentered⟩ := h.named hk
    rw [files_relink, hf]
    refine ⟨_, rfl, ?_⟩
    split
    · exact hentered.upToLinks f.upToLinks_relink
    · exact hentered
  replaced_lt := by
    intro k m hk
    rw [replaced_relink] at hk
    have hlt := h.replaced_lt hk
    have hsome : ((r.relink n).1.files[m]?).isSome := by
      rw [files_relink, Option.isSome_map, Array.getElem?_eq_getElem hlt]
      rfl
    simpa using hsome
  replaced_ne := by
    intro k m hk
    rw [replaced_relink] at hk
    rw [entries_relink]
    exact h.replaced_ne hk

end Steady

end Steady

/-! ## The end of a load -/

/-- What the end of a load leaves alone, and where its file is found. -/
structure Ends (r : Registry) (name : String) (load : Nat) (result : Option Nat)
    (r' : Registry) : Prop where
  loads : r'.loads = r.loads
  others : ∀ {k}, k ≠ name → r'.entries.get? k = r.entries.get? k
  superseded : r.awaits name load = false → r'.entries.get? name = r.entries.get? name
  entered : r.awaits name load = true → ∀ n, result = some n →
    r'.entries.get? name = some (.loaded n)
  /-- A file that is newly indexed is a new one. -/
  fresh : ∀ {k n}, r'.entries.get? k = some (.loaded n) →
    r.entries.get? k = some (.loaded n) ∨ r.files.size ≤ n
  size : r.files.size ≤ r'.files.size
  steady : r.Steady → r'.Steady

section Ends

variable {r : Registry} {name : String} {load : Nat}

/-- Only the entry with the load itself may have changed. -/
theorem Ends.get?_eq {result : Option Nat} {r' : Registry} (h : r.Ends name load result r')
    {k : String} (hk : k = name → r.entries.get? k ≠ some (.loading load)) :
    r'.entries.get? k = r.entries.get? k := by
  by_cases hname : k = name
  · subst hname
    exact h.superseded (decide_eq_false (hk rfl))
  · exact h.others hname

theorem Ends.isLoading_eq {result : Option Nat} {r' : Registry} (h : r.Ends name load result r')
    {k : String} (hk : k ≠ name) : r'.isLoading k = r.isLoading k := by
  rw [isLoading, h.others hk, ← isLoading]

theorem Ends.keeps {result : Option Nat} {r' : Registry} (h : r.Ends name load result r')
    {k : String} {n : Nat} (hk : r.Keeps k n) : r'.Keeps k n where
  exists' := Nat.lt_of_lt_of_le hk.exists' h.size
  alone := by
    intro k' hk'
    rcases h.fresh hk' with hold | hnew
    · exact hk.alone hold
    · have := hk.exists'
      omega

theorem ends_fail (failure : Failure) : r.Ends name load none (r.fail name load failure) := by
  unfold fail
  split
  · rename_i hawaits
    set dropped : Registry := { r with
      entries := r.entries.erase name
      failures := r.failures.set name failure
      tally := { r.tally with error := r.tally.error + 1 } } with hdropped
    have hentries : ∀ k, (dropped.forgetReplaced name).endWork.entries.get? k =
        if k = name then none else r.entries.get? k := by
      intro k
      rw [entries_endWork, entries_forgetReplaced, hdropped, Ledger.get?_erase]
    refine ⟨loads_forgetReplaced dropped name, ?_, ?_, nofun, ?_, ?_, ?_⟩
    · intro k hk
      rw [hentries, if_neg hk]
    · intro hno
      rw [hawaits] at hno
      cases hno
    · intro k n hk
      rw [hentries] at hk
      split at hk
      · cases hk
      · exact Or.inl hk
    · exact Nat.le_of_eq (size_forgetReplaced dropped name).symm
    · intro h
      have hsteady : dropped.Steady := (h.erase name).congr rfl rfl rfl
      exact (hsteady.forgetReplaced name).congr rfl rfl rfl
  · rename_i hno
    exact ⟨rfl, fun _ => rfl, fun _ => rfl, nofun, Or.inl, Nat.le_refl _,
      fun h => h.congr rfl rfl rfl⟩

theorem ends_abandon (crash : Crash) : r.Ends name load none (r.abandon load crash) where
  loads := rfl
  others := fun _ => rfl
  superseded := fun _ => rfl
  entered := nofun
  fresh := Or.inl
  size := Nat.le_refl _
  steady := fun h => h.congr rfl rfl rfl

/-- The registry in which the file of a load has just been indexed. -/
def entering (r : Registry) (name : String) (f : SourceFile) : Registry :=
  { r.endWork with
    files := r.files.push f
    entries := r.entries.set name (.loaded r.files.size)
    failures := r.failures.erase name }

theorem succeed_of_awaited {f : SourceFile} (h : r.awaits name load = true) :
    r.succeed name load f =
      ({ (r.entering name f).forgetReplaced name with
        tally := ((r.entering name f).forgetReplaced name).tally.count f }, r.files.size) := by
  simp only [succeed, awaits_endWork, h, ↓reduceIte]
  rfl

theorem ends_succeed_of_awaited {f : SourceFile} (hf : f.IsEntered name)
    (hawaits : r.awaits name load = true) :
    r.Ends name load (some (r.succeed name load f).2) (r.succeed name load f).1 := by
  rw [succeed_of_awaited hawaits]
  have hentries : ∀ k, ((r.entering name f).forgetReplaced name).entries.get? k =
      if k = name then some (.loaded r.files.size) else r.entries.get? k := by
    intro k
    rw [entries_forgetReplaced]
    exact Ledger.get?_set r.entries name k _
  have hsize : ((r.entering name f).forgetReplaced name).files.size = r.files.size + 1 :=
    (size_forgetReplaced _ name).trans (Array.size_push f)
  refine ⟨loads_forgetReplaced _ name, ?_, ?_, ?_, ?_, ?_, ?_⟩
  · intro k hk
    exact (hentries k).trans (if_neg hk)
  · intro hno
    rw [hawaits] at hno
    cases hno
  · rintro - n ⟨⟩
    exact (hentries name).trans (if_pos rfl)
  · intro k n hk
    have hk' := (hentries k).symm.trans hk
    split at hk'
    · cases hk'
      exact Or.inr (Nat.le_refl _)
    · exact Or.inl hk'
  · exact Nat.le_of_succ_le (Nat.le_of_eq hsize.symm)
  · intro h
    have hsteady : (r.entering name f).Steady := (h.enterNew hf).congr rfl rfl rfl
    exact (hsteady.forgetReplaced name).congr rfl rfl rfl

theorem ends_succeed {f : SourceFile} (hf : f.IsEntered name) :
    r.Ends name load (some (r.succeed name load f).2) (r.succeed name load f).1 := by
  cases hawaits : r.awaits name load with
  | true => exact ends_succeed_of_awaited hf hawaits
  | false =>
    rw [succeed_of_superseded f hawaits]
    refine ⟨rfl, fun _ => rfl, fun _ => rfl, ?_, Or.inl, ?_,
      fun h => ((h.addFile f.detach).congr rfl rfl rfl)⟩
    · intro hyes
      rw [hawaits] at hyes
      cases hyes
    · exact Nat.le_of_succ_le (Nat.le_of_eq (Array.size_push f.detach).symm)

theorem size_relink (r : Registry) (n : Nat) : (r.relink n).1.files.size = r.files.size := by
  unfold Registry.relink
  split
  · exact Array.size_modify
  · rfl

theorem loads_relink (r : Registry) (n : Nat) : (r.relink n).1.loads = r.loads := by
  unfold Registry.relink
  split <;> rfl

theorem Ends.relink {result : Option Nat} {r' : Registry} (h : r.Ends name load result r')
    (n : Nat) : r.Ends name load result (r'.relink n).1 := by
  refine ⟨(loads_relink r' n).trans h.loads, ?_, ?_, ?_, ?_, ?_, fun hr => (h.steady hr).relink n⟩
  · rw [entries_relink]
    exact h.others
  · rw [entries_relink]
    exact h.superseded
  · rw [entries_relink]
    exact h.entered
  · rw [entries_relink]
    exact h.fresh
  · rw [size_relink]
    exact h.size

end Ends

end Registry

end SymbolAtlas
