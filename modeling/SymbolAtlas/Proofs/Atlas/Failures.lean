import Mathlib
import SymbolAtlas.Proofs.Atlas.Histories

/-!
# Failures of indexed names

Whatever has a name indexed drops the failure that was recorded under the name, and a failure is
recorded only when its name is no longer indexed: loading does so, taking out does so, and so does
taking over a snapshot.  So a name is never indexed and recorded as a failure at once
(`Registry.Proceeds.apart`).

Renaming does not look at the failures.  It keeps names and failures apart if and only if none is
recorded under the new name (`Registry.Apart.rename_iff`), and so a history without such renamings
keeps them apart (`Atlas.History.apart_of_spares`), and one with such a renaming need not
(`Atlas.indexed_and_failed`).
-/

namespace SymbolAtlas

namespace Registry

/-- No indexed name is recorded as a failure. -/
def Apart (r : Registry) : Prop :=
  ∀ {k : String} {n : Nat}, r.entries.get? k = some (.loaded n) → r.failures.get? k = none

section Failures

variable (r : Registry)

theorem failures_start (name : String) (previous : Option Nat) :
    (r.start name previous).1.failures = r.failures := by
  cases previous <;> rfl

theorem failures_forget (n : Nat) : (r.forget n).failures = r.failures := by
  unfold forget
  split <;> rfl

theorem failures_remove (name : String) : (r.remove name).failures = r.failures.erase name := by
  unfold remove
  simp only
  split
  · rw [failures_forget]
  · rw [failures_forgetReplaced]
  · rfl

theorem failures_replaceAll (directory : Path) (files : Ledger SourceFile) :
    (r.replaceAll directory files).failures = [] :=
  replaceAll_keeps (P := fun s => s.failures = []) rfl fun _ _ _ hs => hs

end Failures

namespace Apart

variable {r r' : Registry} (h : r.Apart)

include h

theorem congr (he : r'.entries = r.entries) (hf : r'.failures = r.failures) : r'.Apart := by
  intro k n hk
  rw [hf]
  exact h (he ▸ hk)

/-- What happens to a single name keeps the others apart. -/
theorem of_name (name : String) (he : ∀ k, k ≠ name → r'.entries.get? k = r.entries.get? k)
    (hf : ∀ k, k ≠ name → r'.failures.get? k = r.failures.get? k)
    (hname : ∀ n, r'.entries.get? name = some (.loaded n) → r'.failures.get? name = none) :
    r'.Apart := by
  intro k n hk
  by_cases hkname : k = name
  · subst hkname
    exact hname n hk
  · rw [hf k hkname]
    exact h (he k hkname ▸ hk)

theorem start (name : String) (previous : Option Nat) : (r.start name previous).1.Apart := by
  apply h.of_name name
  · intro k hk
    rw [get?_start, if_neg hk]
  · intro k _
    rw [failures_start]
  · intro n hn
    rw [get?_start, if_pos rfl] at hn
    cases hn

theorem fail (name : String) (load : Nat) (failure : Failure) :
    (r.fail name load failure).Apart := by
  by_cases hawaits : r.awaits name load = true
  · apply h.of_name name
    · exact fun k hk => r.get?_entries_fail hk load failure
    · intro k hk
      rw [fail_of_awaited hawaits]
      show (Registry.forgetReplaced _ name).failures.get? k = _
      rw [failures_forgetReplaced]
      exact Ledger.get?_set_of_ne _ _ hk
    · intro n hn
      rw [entry_fail_of_awaited hawaits] at hn
      cases hn
  · rw [fail_of_superseded failure (eq_false_of_ne_true hawaits)]
    exact h.congr rfl rfl

theorem succeed (name : String) (load : Nat) (f : SourceFile) :
    (r.succeed name load f).1.Apart := by
  by_cases hawaits : r.awaits name load = true
  · apply h.of_name name
    · exact fun k hk => r.get?_entries_succeed hk load f
    · intro k hk
      rw [succeed_of_awaited hawaits]
      show ((r.entering name f).forgetReplaced name).failures.get? k = _
      rw [failures_forgetReplaced]
      exact Ledger.get?_erase_of_ne _ hk
    · exact fun n _ => failure_succeed_of_awaited hawaits f
  · rw [succeed_of_superseded f (eq_false_of_ne_true hawaits)]
    exact h.congr rfl rfl

theorem remove (name : String) : (r.remove name).Apart := by
  apply h.of_name name
  · intro k hk
    rw [entries_remove, Ledger.get?_erase_of_ne _ hk]
  · intro k hk
    rw [failures_remove, Ledger.get?_erase_of_ne _ hk]
  · intro n hn
    rw [entries_remove, Ledger.get?_erase_self] at hn
    cases hn

theorem relink (n : Nat) : (r.relink n).1.Apart :=
  h.congr (r.entries_relink n) (r.failures_relink n)

/-- Renaming keeps names and failures apart if and only if no failure is recorded under the new
name. -/
theorem rename_iff {old new : String} (hr : r.rename old new = .ok r') :
    r'.Apart ↔ r.failures.get? new = none := by
  obtain ⟨m, -, -, rfl⟩ := rename_eq_ok hr
  have hnew : (r.renamed old new m).entries.get? new = some (.loaded m) := by
    rw [get?_renamed, if_pos rfl]
  refine ⟨fun hapart => hapart hnew, fun hnone => ?_⟩
  intro k n hk
  show r.failures.get? k = none
  rw [get?_renamed] at hk
  split at hk
  · rename_i hknew
    rw [hknew, hnone]
  · split at hk
    · cases hk
    · exact h hk

end Apart

/-- Every step that renames nothing keeps names and failures apart. -/
theorem Proceeds.apart {r r' : Registry} (hstep : r.Proceeds r') (h : r.Apart) : r'.Apart := by
  cases hstep with
  | start hprecedes => exact h.start _ _
  | begin => exact h.congr rfl rfl
  | fail name load failure => exact h.fail name load failure
  | abandon load crash => exact h.congr rfl rfl
  | succeed name load tree contentHash mtime size => exact h.succeed name load _
  | relink n => exact h.relink n
  | remove name => exact h.remove name
  | clear => exact fun hk => by cases hk
  | replaceAll directory hdistinct hfiles =>
    intro k n _
    rw [failures_replaceAll]
    rfl

/-- The renaming, if it is carried out, leads to a name under which no failure is recorded. -/
def SparesFailures (r : Registry) (old new : String) : Prop :=
  ∀ r', r.rename old new = .ok r' → r.failures.get? new = none

end Registry

namespace Atlas

/-- An indexed name is not recorded as a failure, unless a file was given the name of a failure. -/
theorem History.apart_of_spares {a : Atlas} (h : History Registry.SparesFailures a) {k : String}
    {n : Nat} (hk : a.get? k = some n) : a.registry.failures.get? k = none := by
  have hapart : a.registry.Apart := by
    refine h.keeps (P := Registry.Apart) (fun _ _ _ _ hk => by cases hk) Registry.Proceeds.apart ?_
    intro r r' old new hspares hok hr
    exact (hr.rename_iff hok).2 (hspares r' hok)
  exact hapart (Registry.entry_of_get? hk)

/-- Two sources, of which the parser refuses the second one. -/
def crookedWorld : World where
  disk := { root := .directory [("src", .directory
    [("a.php", .file [] default), ("b.php", .file [33] default)])] }
  codecs := .common
  parser text _ := if text.isEmpty then .ok (.list []) else .error "boom"

/-- An index that has seen both of them. -/
def crooked : Atlas :=
  (((Atlas.empty (Path.parse "/src") {}).parse crookedWorld { name := "b.php" }).1.parse
    crookedWorld { name := "a.php" }).1

/-- With any renamings. -/
theorem history_crooked (permitted : Registry → String → String → Prop) :
    History permitted crooked :=
  .operate (.operate (.empty "/src" {}) (operation_parse _ _ _)) (operation_parse _ _ _)

/-- The first source is renamed to a name that is free, while a failure is recorded for the second
one. -/
theorem apart_of_spares_crooked :
    (crooked.rename "a.php" "c.php").get? "c.php" = some 0 ∧
      (crooked.rename "a.php" "c.php").registry.failures.get? "c.php" = none ∧
      ((crooked.rename "a.php" "c.php").registry.failures.get? "b.php").isSome = true := by
  have hfree : (crooked.registry.failures.get? "c.php").isNone = true := by decide +kernel
  have hindexed : (crooked.rename "a.php" "c.php").get? "c.php" = some 0 := by decide +kernel
  have hhistory : History Registry.SparesFailures (crooked.rename "a.php" "c.php") :=
    (history_crooked _).rename fun _ _ => Option.isNone_iff_eq_none.1 hfree
  exact ⟨hindexed, hhistory.apart_of_spares hindexed, by decide +kernel⟩

/-- The file of the first source takes the name of the second one, whose failure stays recorded. -/
theorem indexed_and_failed :
    History (fun _ _ _ => True) (crooked.rename "a.php" "b.php") ∧
      (crooked.rename "a.php" "b.php").get? "b.php" = some 0 ∧
      ((crooked.rename "a.php" "b.php").registry.failures.get? "b.php").isSome = true :=
  ⟨(history_crooked _).rename trivial, by decide +kernel, by decide +kernel⟩

end Atlas

end SymbolAtlas
