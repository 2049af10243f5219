import Mathlib
import SymbolAtlas.Proofs.Registry.Tidiness

/-!
# Operations that concern one name

A load of a name touches what is known of that name and the files that bear it, and spares all else
(`Registry.Spares`).  What it does to the counts can be said as an amount that is added, and amounts
can be added in any order (`Tally` is a commutative group), so loads of different names do not get
into each other's way.
-/

namespace SymbolAtlas

/-! ## Amounts -/

namespace Tally

attribute [ext] Tally

/-- Tallies are added count by count. -/
instance : Add Tally where
  add s t := ⟨s.total + t.total, s.loading + t.loading, s.loaded + t.loaded, s.error + t.error,
    s.symbols + t.symbols, s.size + t.size⟩

instance : Zero Tally where
  zero := {}

instance : Neg Tally where
  neg t := ⟨-t.total, -t.loading, -t.loaded, -t.error, -t.symbols, -t.size⟩

instance : AddCommGroup Tally where
  add_assoc s t u := Tally.ext (Int.add_assoc ..) (Int.add_assoc ..) (Int.add_assoc ..)
    (Int.add_assoc ..) (Int.add_assoc ..) (Int.add_assoc ..)
  add_comm s t := Tally.ext (Int.add_comm ..) (Int.add_comm ..) (Int.add_comm ..)
    (Int.add_comm ..) (Int.add_comm ..) (Int.add_comm ..)
  zero_add t := Tally.ext (Int.zero_add _) (Int.zero_add _) (Int.zero_add _) (Int.zero_add _)
    (Int.zero_add _) (Int.zero_add _)
  add_zero t := Tally.ext (Int.add_zero _) (Int.add_zero _) (Int.add_zero _) (Int.add_zero _)
    (Int.add_zero _) (Int.add_zero _)
  neg_add_cancel t := Tally.ext (Int.add_left_neg _) (Int.add_left_neg _) (Int.add_left_neg _)
    (Int.add_left_neg _) (Int.add_left_neg _) (Int.add_left_neg _)
  nsmul := nsmulRec
  zsmul := zsmulRec

/-- What a file amounts to. -/
def ofFile (f : SourceFile) : Tally where
  loaded := 1
  symbols := f.symbolCount
  size := f.size.getD 0

/-- What one more name amounts to. -/
def oneName : Tally where
  total := 1

/-- What a load that works amounts to. -/
def oneLoading : Tally where
  loading := 1

/-- What a failure amounts to. -/
def oneError : Tally where
  error := 1

theorem count_eq (t : Tally) (f : SourceFile) : t.count f = t + ofFile f :=
  Tally.ext (Int.add_zero _).symm (Int.add_zero _).symm rfl (Int.add_zero _).symm rfl rfl

theorem uncount_eq (t : Tally) (f : SourceFile) : t.uncount f = t - ofFile f := by
  rw [sub_eq_add_neg]
  exact Tally.ext (Int.add_zero _).symm (Int.add_zero _).symm rfl (Int.add_zero _).symm rfl rfl

end Tally

namespace Registry

variable {r r' r'' : Registry} {name : String}

/-- What the file that a load of a name replaces amounts to. -/
def owed (r : Registry) (name : String) : Tally :=
  ((r.replaced.get? name).bind (r.files[·]?)).elim 0 Tally.ofFile

theorem tally_start (r : Registry) (name : String) (previous : Option Nat) :
    (r.start name previous).1.tally = r.tally + previous.elim Tally.oneName fun _ => 0 := by
  cases previous with
  | none =>
    exact Tally.ext rfl (Int.add_zero _).symm (Int.add_zero _).symm (Int.add_zero _).symm
      (Int.add_zero _).symm (Int.add_zero _).symm
  | some n => exact (add_zero _).symm

theorem tally_begin (r : Registry) : r.begin.tally = r.tally + Tally.oneLoading :=
  Tally.ext (Int.add_zero _).symm rfl (Int.add_zero _).symm (Int.add_zero _).symm
    (Int.add_zero _).symm (Int.add_zero _).symm

theorem tally_endWork (r : Registry) : r.endWork.tally = r.tally - Tally.oneLoading := by
  rw [sub_eq_add_neg]
  exact Tally.ext (Int.add_zero _).symm rfl (Int.add_zero _).symm (Int.add_zero _).symm
    (Int.add_zero _).symm (Int.add_zero _).symm

theorem tally_forgetReplaced (r : Registry) (name : String) :
    (r.forgetReplaced name).tally = r.tally - r.owed name := by
  unfold forgetReplaced owed
  cases hn : r.replaced.get? name with
  | none => exact (sub_zero _).symm
  | some n =>
    unfold forget
    simp only [Option.bind_some]
    cases hf : r.files[n]? with
    | none => exact (sub_zero _).symm
    | some f => exact Tally.uncount_eq _ f

theorem failures_forgetReplaced (r : Registry) (name : String) :
    (r.forgetReplaced name).failures = r.failures := by
  unfold forgetReplaced forget
  cases r.replaced.get? name with
  | none => rfl
  | some n =>
    simp only
    split <;> rfl

theorem failures_relink (r : Registry) (n : Nat) : (r.relink n).1.failures = r.failures := by
  unfold Registry.relink
  split <;> rfl

theorem crashes_forgetReplaced (r : Registry) (name : String) :
    (r.forgetReplaced name).crashes = r.crashes := by
  unfold forgetReplaced forget
  cases r.replaced.get? name with
  | none => rfl
  | some n =>
    simp only
    split <;> rfl

theorem crashes_fail (r : Registry) (name : String) (load : Nat) (failure : Failure) :
    (r.fail name load failure).crashes = r.crashes := by
  unfold fail
  split
  · exact crashes_forgetReplaced _ name
  · rfl

theorem crashes_succeed (r : Registry) (name : String) (load : Nat) (f : SourceFile) :
    (r.succeed name load f).1.crashes = r.crashes := by
  by_cases hawaits : r.awaits name load = true
  · rw [succeed_of_awaited hawaits]
    exact crashes_forgetReplaced (r.entering name f) name
  · rw [succeed_of_superseded f (eq_false_of_ne_true hawaits)]
    rfl

theorem crashes_relink (r : Registry) (n : Nat) : (r.relink n).1.crashes = r.crashes := by
  unfold Registry.relink
  split <;> rfl

/-! ## Sparing -/

/-- Nothing has changed but what is known of a name and the files that bear it, and loads may have
crashed. -/
structure Spares (name : String) (r r' : Registry) : Prop where
  site : r'.toSite = r.toSite
  entries : ∀ {k}, k ≠ name → r'.entries.get? k = r.entries.get? k
  failures : ∀ {k}, k ≠ name → r'.failures.get? k = r.failures.get? k
  replaced : ∀ {k}, k ≠ name → r'.replaced.get? k = r.replaced.get? k
  files : ∀ {n : Nat} {f}, r.files[n]? = some f → f.name ≠ name → r'.files[n]? = some f
  crashed : ∀ {load}, (r.crash? load).isSome → (r'.crash? load).isSome

namespace Spares

theorem refl (name : String) (r : Registry) : Spares name r r :=
  ⟨rfl, fun _ => rfl, fun _ => rfl, fun _ => rfl, fun h _ => h, fun h => h⟩

theorem trans (h : Spares name r r') (h' : Spares name r' r'') : Spares name r r'' where
  site := h'.site.trans h.site
  entries := fun hk => (h'.entries hk).trans (h.entries hk)
  failures := fun hk => (h'.failures hk).trans (h.failures hk)
  replaced := fun hk => (h'.replaced hk).trans (h.replaced hk)
  files := fun hf hname => h'.files (h.files hf hname) hname
  crashed := fun hload => h'.crashed (h.crashed hload)

theorem congr (h : Spares name r r') (hs : r''.toSite = r'.toSite)
    (he : r''.entries = r'.entries) (hf : r''.failures = r'.failures)
    (hr : r''.replaced = r'.replaced) (hfiles : r''.files = r'.files)
    (hc : r''.crashes = r'.crashes) : Spares name r r'' where
  site := hs.trans h.site
  entries := fun hk => he ▸ h.entries hk
  failures := fun hk => hf ▸ h.failures hk
  replaced := fun hk => hr ▸ h.replaced hk
  files := fun hf hname => hfiles ▸ h.files hf hname
  crashed := by
    intro load hload
    rw [crash?, hc]
    exact h.crashed hload

/-- One more load has crashed. -/
theorem crash (h : Spares name r r') (load : Nat) (crash : Crash) :
    Spares name r { r' with crashes := (load, crash) :: r'.crashes } := by
  refine { h with crashed := ?_ }
  intro other hother
  rw [crash?, List.find?_cons]
  split
  · rfl
  · exact h.crashed hother

theorem modifyFile (h : Spares name r r') {n : Nat} (change : SourceFile → SourceFile)
    (hn : ∀ f, r.files[n]? = some f → f.name = name) : Spares name r (r'.modifyFile n change) := by
  refine { h with files := ?_ }
  intro m f hf hname
  have hne : n ≠ m := by
    rintro rfl
    exact hname (hn f hf)
  rw [Registry.modifyFile, Array.getElem?_modify, if_neg hne]
  exact h.files hf hname

/-- The file that a load of a name replaces bears the name. -/
theorem forgetReplaced (h : Spares name r r')
    (hold : ∀ n f, r'.replaced.get? name = some n → r.files[n]? = some f → f.name = name) :
    Spares name r (r'.forgetReplaced name) := by
  cases hn : r'.replaced.get? name with
  | none =>
    rw [Registry.forgetReplaced, hn]
    exact h
  | some n =>
    have herased : Spares name r { r' with replaced := r'.replaced.erase name } := by
      refine { h with replaced := ?_ }
      intro k hk
      rw [Ledger.get?_erase_of_ne _ hk]
      exact h.replaced hk
    rw [Registry.forgetReplaced, hn]
    simp only [Registry.forget]
    split
    · exact (herased.modifyFile SourceFile.detach fun f hf => hold n f hn hf).congr rfl rfl rfl rfl
        rfl rfl
    · exact herased

end Spares

theorem spares_start (r : Registry) (name : String) (previous : Option Nat) :
    Spares name r (r.start name previous).1 where
  site := by cases previous <;> rfl
  entries := by
    intro k hk
    rw [get?_start, if_neg hk]
  failures := by cases previous <;> exact fun _ => rfl
  replaced := by
    intro k hk
    cases previous with
    | none => rfl
    | some n => exact Ledger.get?_set_of_ne _ _ hk
  files := by
    intro n f hf _
    rw [files_start]
    exact hf
  crashed := by cases previous <;> exact fun h => h

section Ending

variable {load : Nat} (hawaits : r.awaits name load = true)
  (hold : ∀ n f, r.replaced.get? name = some n → r.files[n]? = some f → f.name = name)

include hawaits

theorem fail_of_awaited (failure : Failure) :
    r.fail name load failure =
      ({ r with
        entries := r.entries.erase name
        failures := r.failures.set name failure
        tally := { r.tally with error := r.tally.error + 1 } }.forgetReplaced name).endWork := by
  rw [fail, if_pos hawaits]

theorem tally_fail_of_awaited (failure : Failure) :
    (r.fail name load failure).tally =
      r.tally - Tally.oneLoading + Tally.oneError - r.owed name := by
  have herror : ({ r.tally with error := r.tally.error + 1 } : Tally) =
      r.tally + Tally.oneError :=
    Tally.ext (Int.add_zero _).symm (Int.add_zero _).symm (Int.add_zero _).symm rfl
      (Int.add_zero _).symm (Int.add_zero _).symm
  rw [fail_of_awaited hawaits, tally_endWork, tally_forgetReplaced, herror]
  show r.tally + Tally.oneError - r.owed name - Tally.oneLoading = _
  abel

theorem entry_fail_of_awaited (failure : Failure) :
    (r.fail name load failure).entries.get? name = none := by
  rw [fail_of_awaited hawaits, entries_endWork, entries_forgetReplaced]
  exact Ledger.get?_erase_self _ _

theorem failure_fail_of_awaited (failure : Failure) :
    (r.fail name load failure).failures.get? name = some failure := by
  rw [fail_of_awaited hawaits]
  show (Registry.forgetReplaced _ name).failures.get? name = _
  rw [failures_forgetReplaced]
  exact Ledger.get?_set_self _ _ _

theorem tally_succeed_of_awaited (f : SourceFile) (hknown : ∀ n, r.replaced.get? name = some n →
    n < r.files.size) : (r.succeed name load f).1.tally =
      r.tally - Tally.oneLoading + Tally.ofFile f - r.owed name := by
  have howed : (r.entering name f).owed name = r.owed name := by
    unfold owed
    show ((r.replaced.get? name).bind ((r.files.push f)[·]?)).elim 0 Tally.ofFile = _
    cases hn : r.replaced.get? name with
    | none => rfl
    | some n =>
      rw [Option.bind_some, Option.bind_some, Steady.getElem?_push (hknown n hn)]
  rw [succeed_of_awaited hawaits]
  show ((r.entering name f).forgetReplaced name).tally.count f = _
  rw [Tally.count_eq, tally_forgetReplaced, howed]
  show r.endWork.tally - r.owed name + Tally.ofFile f = _
  rw [tally_endWork]
  abel

theorem entry_succeed_of_awaited (f : SourceFile) :
    (r.succeed name load f).1.entries.get? name = some (.loaded r.files.size) := by
  rw [succeed_of_awaited hawaits]
  show ((r.entering name f).forgetReplaced name).entries.get? name = _
  rw [entries_forgetReplaced]
  exact Ledger.get?_set_self _ _ _

theorem failure_succeed_of_awaited (f : SourceFile) :
    (r.succeed name load f).1.failures.get? name = none := by
  rw [succeed_of_awaited hawaits]
  show ((r.entering name f).forgetReplaced name).failures.get? name = _
  rw [failures_forgetReplaced]
  exact Ledger.get?_erase_self _ _

/-- The file of a load gets the next number. -/
theorem file_succeed_of_awaited (f : SourceFile) (hknown : ∀ n, r.replaced.get? name = some n →
    n < r.files.size) : (r.succeed name load f).1.files[r.files.size]? = some f := by
  rw [succeed_of_awaited hawaits]
  show ((r.entering name f).forgetReplaced name).files[r.files.size]? = _
  have hne : (r.entering name f).replaced.get? name ≠ some r.files.size := fun hn =>
    Nat.lt_irrefl _ (hknown _ hn)
  rw [files_forgetReplaced, if_neg hne]
  exact Array.getElem?_push_size

include hold

theorem spares_fail (failure : Failure) : Spares name r (r.fail name load failure) := by
  have herased : Spares name r { r with
      entries := r.entries.erase name
      failures := r.failures.set name failure
      tally := { r.tally with error := r.tally.error + 1 } } :=
    ⟨rfl, fun hk => Ledger.get?_erase_of_ne _ hk, fun hk => Ledger.get?_set_of_ne _ _ hk,
      fun _ => rfl, fun hf _ => hf, fun h => h⟩
  rw [fail_of_awaited hawaits]
  exact (herased.forgetReplaced hold).congr rfl rfl rfl rfl rfl rfl

theorem spares_succeed (f : SourceFile) : Spares name r (r.succeed name load f).1 := by
  have hentering : Spares name r (r.entering name f) := by
    refine ⟨rfl, fun hk => Ledger.get?_set_of_ne _ _ hk, fun hk => Ledger.get?_erase_of_ne _ hk,
      fun _ => rfl, fun {n g} hg _ => ?_, fun h => h⟩
    exact (Steady.getElem?_push (Array.getElem?_eq_some_iff.1 hg).1).trans hg
  rw [succeed_of_awaited hawaits]
  exact (hentering.forgetReplaced hold).congr rfl rfl rfl rfl rfl rfl

end Ending

section Entries

variable (r : Registry) {k : String} (hk : k ≠ name)

include hk

/-- The end of a load concerns its own name only. -/
theorem get?_entries_fail (load : Nat) (failure : Failure) :
    (r.fail name load failure).entries.get? k = r.entries.get? k := by
  unfold fail
  split
  · rw [entries_endWork, entries_forgetReplaced]
    exact Ledger.get?_erase_of_ne _ hk
  · rfl

theorem get?_entries_succeed (load : Nat) (f : SourceFile) :
    (r.succeed name load f).1.entries.get? k = r.entries.get? k := by
  by_cases hawaits : r.awaits name load = true
  · rw [succeed_of_awaited hawaits]
    show ((r.entering name f).forgetReplaced name).entries.get? k = _
    rw [entries_forgetReplaced]
    exact Ledger.get?_set_of_ne _ _ hk
  · rw [succeed_of_superseded f (eq_false_of_ne_true hawaits)]
    rfl

end Entries

theorem spares_relink {n : Nat} (hn : ∀ f, r.files[n]? = some f → f.name = name) :
    Spares name r (r.relink n).1 := by
  unfold Registry.relink
  split
  · exact (Spares.refl name r).modifyFile _ hn
  · exact .refl name r

end Registry

end SymbolAtlas
