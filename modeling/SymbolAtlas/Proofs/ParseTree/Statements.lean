import Mathlib
import SymbolAtlas.ParseTree.Convert

/-!
# Statement lists in closed form

The conversion of a statement list goes through it once, with the namespace that is open at hand.
What that namespace ends up with are the plain statements up to the next namespace of either form
(`Gathering.result_foldl_open`), so the list can also be taken apart from its front
(`statements_cons`, `statements_induction`).
-/

namespace SymbolAtlas

namespace ParseTree

open Rendered

namespace Gathering

/-- What was converted for good before makes no difference to what follows. -/
theorem result_foldl_append (done : List Value) (g : Gathering) (rs : List Rendered) :
    (rs.foldl add { g with done := done ++ g.done }).result = done ++ (rs.foldl add g).result := by
  induction rs generalizing g with
  | nil => simp [result]
  | cons r rest ih =>
    have hstep : add { g with done := done ++ g.done } r =
        { add g r with done := done ++ (add g r).done } := by
      obtain ⟨before, current⟩ := g
      unfold add result
      cases opensNamespace r <;> cases isPlainStatement r <;> cases current <;> simp
    rw [List.foldl_cons, List.foldl_cons, hstep, ih]

/-- A namespace of either form is met as if nothing were open. -/
theorem add_of_not_plain (g : Gathering) {r : Rendered} (h : isPlainStatement r = false) :
    add g r = add { done := g.result } r := by
  unfold add
  simp only [h, Bool.false_eq_true, ↓reduceIte]
  split <;> simp [result]

/-- An open namespace takes in the plain statements, up to the first that is none. -/
theorem result_foldl_open (done : List Value) (o : OpenNamespace) (rs : List Rendered) :
    (rs.foldl add { done := done, current := some o }).result =
      done ++ openNamespace o.heading
          ((rs.takeWhile isPlainStatement).foldl (fun stop t => max stop t.label.stop) o.stop)
          (o.taken ++ (rs.takeWhile isPlainStatement).map value) ::
        statements (rs.dropWhile isPlainStatement) := by
  induction rs generalizing o with
  | nil => simp [result, statements, OpenNamespace.value]
  | cons r rest ih =>
    cases hplain : isPlainStatement r with
    | true =>
      have hopens : opensNamespace r = false := by
        rw [isPlainStatement, decide_eq_true_eq] at hplain
        simp [opensNamespace, hplain]
      have hadd : add { done := done, current := some o } r =
          { done := done, current := some (o.take r) } := by
        simp [add, hopens, hplain]
      rw [List.foldl_cons, hadd, ih, List.takeWhile_cons_of_pos hplain,
        List.dropWhile_cons_of_pos hplain, List.foldl_cons, List.map_cons, OpenNamespace.take,
        List.append_assoc, List.singleton_append]
    | false =>
      have hclosed := result_foldl_append
        (done ++ [o.value]) {} (r :: rest)
      rw [List.takeWhile_cons_of_neg (by simp [hplain]),
        List.dropWhile_cons_of_neg (by simp [hplain]), List.foldl_cons, add_of_not_plain _ hplain,
        ← List.foldl_cons]
      simpa [result, statements, OpenNamespace.value] using hclosed

end Gathering

theorem statements_nil : statements [] = [] :=
  rfl

/-- A statement list taken apart from its front. -/
theorem statements_cons (r : Rendered) (rest : List Rendered) :
    statements (r :: rest) =
      if opensNamespace r then
        openNamespace r ((rest.takeWhile isPlainStatement).foldl
            (fun stop t => max stop t.label.stop) r.label.stop)
          ((rest.takeWhile isPlainStatement).map value) ::
          statements (rest.dropWhile isPlainStatement)
      else r.value :: statements rest := by
  rw [statements, List.foldl_cons, Gathering.add]
  split
  · exact Gathering.result_foldl_open [] { heading := r, stop := r.label.stop } rest
  · have hclosed := Gathering.result_foldl_append [r.value] {} rest
    cases isPlainStatement r <;> simpa [Gathering.result, statements] using hclosed

/-- Induction along a statement list: a namespace without a body goes with what it takes in. -/
@[elab_as_elim]
theorem statements_induction {motive : List Rendered → Prop} (nil : motive [])
    (opened : ∀ r rest, opensNamespace r = true → motive (rest.dropWhile isPlainStatement) →
      motive (r :: rest))
    (plain : ∀ r rest, opensNamespace r = false → motive rest → motive (r :: rest))
    (rs : List Rendered) : motive rs := by
  induction hlength : rs.length using Nat.strong_induction_on generalizing rs with
  | _ n ih =>
    subst hlength
    cases rs with
    | nil => exact nil
    | cons r rest =>
      cases hopens : opensNamespace r with
      | true =>
        exact opened r rest hopens
          (ih _ (Nat.lt_succ_of_le (List.dropWhile_suffix _).length_le) _ rfl)
      | false => exact plain r rest hopens (ih _ (Nat.lt_succ_self _) _ rfl)

end ParseTree

end SymbolAtlas
