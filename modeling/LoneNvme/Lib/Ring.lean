import Mathlib.Logic.Function.Basic
import Mathlib.Data.Nat.ModEq
import Mathlib.Algebra.Order.Group.Nat

/-!
# Circular positions

A ring of `n` slots is used through absolute counters: the `k`-th item ever
written goes to slot `k % n`. Two counters `lo ≤ hi < lo + n` span a window of the
ring, and everything an implementation computes from wrapped positions (is it
full, how many are in it, what comes next) is read off the window.

The content of a ring written in order is described by `Logged`: every slot holds
the last item written to it, so the last `n` items of the log can be read back.
-/

namespace Lib.Ring

variable {α : Type*}

/-- The position after `i` in a ring of `n` slots. -/
def next (n i : Nat) : Nat := if i + 1 = n then 0 else i + 1

theorem next_lt {n i : Nat} (h : i < n) : next n i < n := by
  unfold next; split <;> omega

/-- The wrapped successor is the wrapped position of the successor. -/
theorem next_mod {n : Nat} (hn : 0 < n) (k : Nat) : next n (k % n) = (k + 1) % n := by
  have hlt : k % n < n := Nat.mod_lt k hn
  unfold next
  rw [Nat.add_mod_eq_ite]
  rcases Nat.lt_or_ge 1 n with h1 | h1
  · rw [Nat.mod_eq_of_lt h1]
    split <;> split <;> omega
  · have : n = 1 := by omega
    subst this
    simp [Nat.mod_one]

/-- Two counters less than a lap apart: the upper one has wrapped once more, or not at all. -/
theorem mod_window {n lo hi : Nat} (hle : lo ≤ hi) (hlt : hi < lo + n) :
    hi % n = lo % n + (hi - lo) ∨ hi % n + n = lo % n + (hi - lo) := by
  have hn : 0 < n := by omega
  have hlo : lo % n < n := Nat.mod_lt lo hn
  have hsum : hi % n = (lo % n + (hi - lo)) % n := by
    rw [Nat.mod_add_mod]; congr 1; omega
  rcases Nat.lt_or_ge (lo % n + (hi - lo)) n with h | h
  · exact Or.inl (by rw [hsum, Nat.mod_eq_of_lt h])
  · refine Or.inr ?_
    rw [hsum, Nat.mod_eq_sub_mod h, Nat.mod_eq_of_lt (by omega)]
    omega

/-- The distance of two positions, taken modulo the ring, is that of the counters. -/
theorem sub_window {n lo hi : Nat} (hle : lo ≤ hi) (hlt : hi < lo + n) :
    (((hi % n : Nat) : Int) - ((lo % n : Nat) : Int)) % (n : Int) = ((hi - lo : Nat) : Int) := by
  have hsmall : ((hi - lo : Nat) : Int) % (n : Int) = ((hi - lo : Nat) : Int) :=
    Int.emod_eq_of_lt (by omega) (by omega)
  rcases mod_window hle hlt with h | h
  · rw [show ((hi % n : Nat) : Int) - ((lo % n : Nat) : Int) = ((hi - lo : Nat) : Int) by omega]
    exact hsmall
  · rw [show ((hi % n : Nat) : Int) - ((lo % n : Nat) : Int) = ((hi - lo : Nat) : Int) - n by omega,
      Int.sub_emod_right]
    exact hsmall

/-- Inside a window equal slots are equal counters. -/
theorem mod_inj_window {n lo hi : Nat} (hle : lo ≤ hi) (hlt : hi < lo + n) :
    hi % n = lo % n ↔ hi = lo := by
  have hlo : lo % n < n := Nat.mod_lt lo (by omega)
  have hhi : hi % n < n := Nat.mod_lt hi (by omega)
  have := mod_window hle hlt
  constructor
  · intro h; omega
  · rintro rfl; rfl

/-- The position after the upper counter is the lower one exactly when the window spans `n - 1`. -/
theorem next_eq_iff {n lo hi : Nat} (hle : lo ≤ hi) (hlt : hi < lo + n) :
    next n (hi % n) = lo % n ↔ hi + 1 = lo + n := by
  have hn : 0 < n := by omega
  have hlo : lo % n < n := Nat.mod_lt lo hn
  have hhi : hi % n < n := Nat.mod_lt hi hn
  have := mod_window hle hlt
  unfold next
  constructor
  · intro h; split at h <;> omega
  · intro h; split <;> omega

/-! ## Laps -/

/-- The lap counter moves exactly when the position returns to slot `0`. -/
theorem lap_succ {n : Nat} (hn : 0 < n) (k : Nat) :
    (k + 1) / n = if next n (k % n) = 0 then k / n + 1 else k / n := by
  rw [next_mod hn, Nat.succ_div]
  by_cases h : n ∣ k + 1
  · rw [if_pos h, if_pos (Nat.mod_eq_zero_of_dvd h)]
  · rw [if_neg h, if_neg (fun h0 => h (Nat.dvd_of_mod_eq_zero h0)), Nat.add_zero]

/-- Going back one lap. -/
theorem lap_sub {n k : Nat} (h : n ≤ k) (hn : 0 < n) : k / n = (k - n) / n + 1 := by
  conv_lhs => rw [← Nat.sub_add_cancel h]
  rw [Nat.add_div_right _ hn]

theorem mod_sub {n k : Nat} (h : n ≤ k) : (k - n) % n = k % n := (Nat.mod_eq_sub_mod h).symm

/-! ## What a ring written in order holds -/

/-- Every slot holds the last item written to it: the last `n` items of `xs` can be read back. -/
def Logged (n : Nat) (slots : Nat → α) (xs : List α) : Prop :=
  ∀ (k : Nat) (h : k < xs.length), xs.length ≤ k + n → slots (k % n) = xs[k]

theorem logged_nil (n : Nat) (slots : Nat → α) : Logged n slots [] :=
  fun _ h => absurd h (Nat.not_lt_zero _)

/-- Writing the next item at the wrapped length extends the log. -/
theorem Logged.push {n : Nat} {slots : Nat → α} {xs : List α}
    (h : Logged n slots xs) (x : α) :
    Logged n (Function.update slots (xs.length % n) x) (xs ++ [x]) := by
  intro k hk hlen
  rw [List.length_append, List.length_singleton] at hk hlen
  by_cases hlast : k = xs.length
  · subst hlast
    rw [Function.update_self, List.getElem_concat_length rfl]
  · have hlt : k < xs.length := by omega
    -- the slot just written belongs to this item only if a whole lap lies between
    have hne : k % n ≠ xs.length % n := fun he =>
      hlast ((mod_inj_window (Nat.le_of_lt hlt) (by omega)).mp he.symm).symm
    rw [Function.update_of_ne hne, List.getElem_append_left hlt]
    exact h k hlt (by omega)

end Lib.Ring
