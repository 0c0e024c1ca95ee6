import Mathlib.Algebra.BigOperators.Group.List.Lemmas
import Mathlib.Data.List.Perm.Subperm
import Mathlib.Data.List.Prime
import Mathlib.Data.Nat.Prime.Basic
import Mathlib.Dynamics.PeriodicPts.Defs

/-!
# Periods of a map

A point returns after `n` steps, and not before, if it returns after `n` steps and not after
`n / q` for any prime factor `q` of `n`. If it has as many points to visit as its period is
long, its cycle visits each of them once.

So a period is checked with a few powers of the map and not by running through it, which is what
makes it possible for maps with very many points.
-/

namespace Lib

open Function

/-- The primes of a number that divides a power of a product of primes are among these. -/
theorem mem_of_prime_dvd {primes : List ℕ} (hprimes : ∀ p ∈ primes, p.Prime) {n k q : ℕ}
    (hn : n ∣ primes.prod ^ k) (hq : q.Prime) (hqn : q ∣ n) : q ∈ primes := by
  obtain ⟨p, hp, hqp⟩ := hq.prime.dvd_prod_iff.mp (hq.dvd_of_dvd_pow (hqn.trans hn))
  rw [(Nat.prime_dvd_prime_iff_eq hq (hprimes p hp)).mp hqp]
  exact hp

section

variable {α : Type*} {f : α → α} {x : α} {n : ℕ}

/-- **A period test**: only the prime factors need to be tried. -/
theorem minimalPeriod_eq_of_primes {primes : List ℕ} (hprimes : ∀ p ∈ primes, p.Prime) {k : ℕ}
    (hn : n ∣ primes.prod ^ k) (hperiod : f^[n] x = x)
    (hne : ∀ q ∈ primes, f^[n / q] x ≠ x) : minimalPeriod f x = n := by
  have hperiodic : IsPeriodicPt f n x := hperiod
  obtain ⟨c, hc⟩ := hperiodic.minimalPeriod_dvd
  by_contra hlt
  have hc1 : c ≠ 1 := fun h1 => hlt (by rw [h1, Nat.mul_one] at hc; exact hc.symm)
  obtain ⟨q, hq, d, hd⟩ := Nat.exists_prime_and_dvd hc1
  have hqn : q ∣ n := ⟨minimalPeriod f x * d, by rw [hc, hd, Nat.mul_left_comm]⟩
  have hquot : n / q = minimalPeriod f x * d := by
    rw [hc, hd, Nat.mul_left_comm, Nat.mul_div_cancel_left _ hq.pos]
  -- a proper divisor of the period would be a multiple of the true one
  refine hne q (mem_of_prime_dvd hprimes hn hq hqn) ?_
  rw [hquot]
  exact (isPeriodicPt_minimalPeriod f x).mul_const d

/-- The points after `x`, until it is back. -/
def cycle (f : α → α) (x : α) (n : ℕ) : List α := (List.range n).map fun i => f^[i + 1] x

theorem nodup_cycle (h : minimalPeriod f x = n) : (cycle f x n).Nodup := by
  refine List.Nodup.map_on (fun i hi j hj hij => ?_) List.nodup_range
  have hpos : 0 < minimalPeriod f x := h ▸ Nat.zero_lt_of_lt (List.mem_range.mp hi)
  have hx : x ∈ periodicPts f := minimalPeriod_pos_iff_mem_periodicPts.mp hpos
  have hnext : minimalPeriod f (f x) = n := (minimalPeriod_apply hx).trans h
  rw [iterate_succ_apply, iterate_succ_apply] at hij
  exact (iterate_eq_iterate_iff_of_lt_minimalPeriod (hnext ▸ List.mem_range.mp hi)
    (hnext ▸ List.mem_range.mp hj)).mp hij

/-- **A full cycle**: as many points as the period, and the map stays among them. -/
theorem cycle_perm {points : List α} (h : minimalPeriod f x = n) (hlen : points.length = n)
    (hx : x ∈ points) (hf : ∀ y ∈ points, f y ∈ points) : (cycle f x n).Perm points := by
  have hmem : ∀ i, f^[i] x ∈ points := by
    intro i
    induction i with
    | zero => exact hx
    | succ i ih =>
        rw [iterate_succ_apply']
        exact hf _ ih
  have hsub : cycle f x n ⊆ points := by
    intro y hy
    obtain ⟨i, _, rfl⟩ := List.mem_map.mp hy
    exact hmem (i + 1)
  refine (List.subperm_of_subset (nodup_cycle h) hsub).perm_of_length_le ?_
  rw [hlen, cycle, List.length_map, List.length_range]

end

end Lib
