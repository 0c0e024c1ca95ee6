import Mathlib.Logic.Function.Iterate
import Mathlib.Data.Nat.Find

/-!
# Trying again

A step is taken again until what it leads to is accepted. How many turns that takes is
how many results in a row are rejected, so a bound on these bounds the recursion.

`Rejects` counts the results that are rejected before one is accepted. With fuel for one turn
more the recursion returns, and it returns what that many turns lead to (`Rejects.retry_eq`).
-/

namespace Lib

variable {σ : Type*} {step : σ → σ} {accepts : σ → Bool} {s : σ} {k : Nat}

/-- The first accepted state after `s`, if it comes within `depth` turns. -/
def retry (step : σ → σ) (accepts : σ → Bool) : Nat → σ → Option σ
  | 0, _ => none
  | depth + 1, s => if accepts (step s) then some (step s) else retry step accepts depth (step s)

/-- The states after `s` are rejected `k` times, and then one is accepted. -/
structure Rejects (step : σ → σ) (accepts : σ → Bool) (s : σ) (k : Nat) : Prop where
  rejected : ∀ i < k, accepts (step^[i + 1] s) = false
  accepted : accepts (step^[k + 1] s) = true

/-- One rejection less is left after it. -/
theorem Rejects.tail (h : Rejects step accepts s (k + 1)) : Rejects step accepts (step s) k where
  rejected i hi := h.rejected (i + 1) (Nat.succ_lt_succ hi)
  accepted := h.accepted

/-- **The turns it takes** are one more than the rejections. -/
theorem Rejects.retry_eq (h : Rejects step accepts s k) (depth : Nat) :
    retry step accepts depth s = if k < depth then some (step^[k + 1] s) else none := by
  induction depth generalizing s k with
  | zero => rfl
  | succ depth ih =>
      cases k with
      | zero =>
          have haccepted : accepts (step s) = true := h.accepted
          rw [retry, if_pos haccepted, if_pos (Nat.succ_pos depth)]
          rfl
      | succ k =>
          have hrejected : accepts (step s) = false := h.rejected 0 (Nat.succ_pos k)
          rw [retry, hrejected, if_neg Bool.false_ne_true, ih h.tail]
          simp only [Nat.add_lt_add_iff_right, Function.iterate_succ_apply]

/-- If one of the next states is accepted, there is a first one. -/
theorem exists_rejects {j : Nat} (h : accepts (step^[j + 1] s) = true) :
    ∃ k ≤ j, Rejects step accepts s k := by
  have hex : ∃ i, accepts (step^[i + 1] s) = true := ⟨j, h⟩
  refine ⟨Nat.find hex, Nat.find_min' hex h, fun i hi => ?_, Nat.find_spec hex⟩
  exact eq_false_of_ne_true (Nat.find_min hex hi)

end Lib
