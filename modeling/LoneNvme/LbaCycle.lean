import LoneNvme.LbaGen
import LoneNvme.Lib.BinaryPoly
import LoneNvme.Lib.Periods
import Mathlib.NumberTheory.LucasLehmer
import Mathlib.NumberTheory.LucasPrimality
import Mathlib.Tactic.NormNum.Prime
import Mathlib.Tactic.ReduceModChar

/-!
# The cycle of a shift register

A register of `n` bits that shows every number but zero before it repeats has a period of
`2 ^ n - 1` steps. This is checked for each register of the table from one state: the power
of `X` that stands for a full period leads back to it, and none that leaves out a prime
factor of the period does.

Trying all states is out of reach for the longer registers. But a step is linear over the bits,
so many steps are a power of `X` acting on a state, and the few powers that matter are computed
by squaring. The prime factors of each period are listed and proved to be primes.
-/

namespace LoneNvme

open Lib Function

namespace LBARandGenLFSR

/-- The register on numbers, with exclusive or throughout. -/
def register (n p1 p2 p3 s : Nat) : Nat :=
  s >>> 1 ^^^ ((s ^^^ s >>> p1 ^^^ s >>> p2 ^^^ s >>> p3) &&& 1) <<< (n - 1)

/-- Its polynomial. -/
def polynomial (n p1 p2 p3 : Nat) : Nat := 2 ^ n ^^^ 2 ^ p3 ^^^ 2 ^ p2 ^^^ 2 ^ p1 ^^^ 1

/-- The primes of `2 ^ n - 1`, where all are small. -/
def smallMersennePrimes : List (Nat × List Nat) :=
  [(5, [31]), (6, [3, 7]), (7, [127]), (8, [3, 5, 17]), (9, [7, 73]), (10, [3, 11, 31]),
    (11, [23, 89]), (12, [3, 5, 7, 13]), (13, [8191]), (14, [3, 43, 127]), (15, [7, 31, 151]),
    (16, [3, 5, 17, 257]), (17, [131071]), (18, [3, 7, 19, 73]), (19, [524287]),
    (20, [3, 5, 11, 31, 41]), (21, [7, 127, 337]), (22, [3, 23, 89, 683]), (23, [47, 178481]),
    (24, [3, 5, 7, 13, 17, 241]), (25, [31, 601, 1801]), (26, [3, 2731, 8191]),
    (27, [7, 73, 262657]), (28, [3, 5, 29, 43, 113, 127]), (29, [233, 1103, 2089]),
    (30, [3, 7, 11, 31, 151, 331]), (32, [3, 5, 17, 257, 65537]), (33, [7, 23, 89, 599479]),
    (34, [3, 43691, 131071]), (35, [31, 71, 127, 122921]), (36, [3, 5, 7, 13, 19, 37, 73, 109]),
    (38, [3, 174763, 524287]), (39, [7, 79, 8191, 121369]), (40, [3, 5, 11, 17, 31, 41, 61681])]

/-- The primes of `2 ^ n - 1`. -/
def mersennePrimes : List (Nat × List Nat) :=
  [(31, [2147483647]), (37, [223, 616318177])] ++ smallMersennePrimes

theorem prime_of_smallMersennePrimes : ∀ e ∈ smallMersennePrimes, ∀ p ∈ e.2, p.Prime := by
  simp only [smallMersennePrimes, List.forall_mem_cons]
  norm_num

theorem prime_616318177 : Nat.Prime 616318177 := by
  have hprimes : ∀ p ∈ [2, 3, 37, 167, 1039], Nat.Prime p := by
    simp only [List.forall_mem_cons]
    norm_num
  refine lucas_primality _ 5 (by norm_num; reduce_mod_char) fun q hq hdvd hone => ?_
  have hmem := @mem_of_prime_dvd _ hprimes (616318177 - 1) 5 q (by decide) hq hdvd
  simp only [List.mem_cons, List.not_mem_nil, or_false] at hmem
  rcases hmem with rfl | rfl | rfl | rfl | rfl <;>
    · norm_num at hone
      reduce_mod_char at hone
      exact absurd hone (by decide)

theorem prime_of_mersennePrimes : ∀ e ∈ mersennePrimes, ∀ p ∈ e.2, p.Prime := by
  have hlarge : Nat.Prime 2147483647 := lucas_lehmer_sufficiency 31 (by norm_num) (by norm_num)
  intro e he p hp
  rcases List.mem_append.mp he with he | he
  · simp only [List.mem_cons, List.not_mem_nil, or_false] at he
    rcases he with rfl | rfl
    · rw [List.mem_singleton.mp hp]
      exact hlarge
    · simp only [List.mem_cons, List.not_mem_nil, or_false] at hp
      rcases hp with rfl | rfl
      · norm_num
      · exact prime_616318177
  · exact prime_of_smallMersennePrimes e he p hp

/--
What is checked of a register: the polynomial annihilates the state 1, a full period leads
back to it, and no period that lacks a prime factor does.
-/
def fullPeriod (n p1 p2 p3 : Nat) (primes : List Nat) : Bool :=
  let p := polynomial n p1 p2 p3
  let T := register n p1 p2 p3
  let power k := BinaryPoly.powX n p (Nat.log2 k + 1) k
  p / 2 ^ n == 1 && BinaryPoly.act T (n + 1) p 1 == 0 && primes.prod ^ 3 % (2 ^ n - 1) == 0
    && BinaryPoly.act T n (power (2 ^ n - 1)) 1 == 1
    && primes.all fun q => BinaryPoly.act T n (power ((2 ^ n - 1) / q)) 1 != 1

/-- Every register of the table. -/
theorem fullPeriod_polys : ∀ e ∈ polys, ∃ primes, (e.1, primes) ∈ mersennePrimes
    ∧ fullPeriod e.1 e.2.2.1 e.2.2.2.1 e.2.2.2.2 primes = true := by
  have hcheck : (polys.all fun e => mersennePrimes.any fun m =>
      m.1 == e.1 && fullPeriod e.1 e.2.2.1 e.2.2.2.1 e.2.2.2.2 m.2) = true := by
    decide +kernel
  intro e he
  obtain ⟨m, hm, hboth⟩ := List.any_eq_true.mp (List.all_eq_true.mp hcheck e he)
  rw [Bool.and_eq_true, beq_iff_eq] at hboth
  exact ⟨m.2, hboth.1 ▸ hm, hboth.2⟩

/-! ## One step of a register -/

section

variable {n p1 p2 p3 : Nat}

theorem register_linear (n p1 p2 p3 : Nat) : XorLinear (register n p1 p2 p3) := by
  intro a b
  unfold register
  simp only [Nat.shiftRight_xor_distrib, Nat.and_xor_distrib_right, Nat.shiftLeft_xor_distrib]
  ac_rfl

/-- The bit that comes in. -/
def parity (p1 p2 p3 s : Nat) : Nat := (s ^^^ s >>> p1 ^^^ s >>> p2 ^^^ s >>> p3) % 2

theorem half_lt {s : Nat} (hs : s < 2 ^ n) : s / 2 < 2 ^ (n - 1) := by
  cases n with
  | zero => omega
  | succ n =>
      rw [Nat.pow_succ] at hs
      rw [Nat.add_sub_cancel]
      omega

theorem xor_two_pow {a k : Nat} (h : a < 2 ^ k) : a ^^^ 2 ^ k = a + 2 ^ k := by
  have hdiv : (a ^^^ 2 ^ k) / 2 ^ k = 1 := by
    rw [Nat.xor_div_two_pow, Nat.div_eq_of_lt h, Nat.div_self (Nat.two_pow_pos k), Nat.zero_xor]
  have hmod : (a ^^^ 2 ^ k) % 2 ^ k = a := by
    rw [Nat.xor_mod_two_pow, Nat.mod_eq_of_lt h, Nat.mod_self, Nat.xor_zero]
  have hsum := Nat.div_add_mod (a ^^^ 2 ^ k) (2 ^ k)
  rw [hdiv, hmod] at hsum
  omega

/-- The upper bits move down and the new one comes in at the top. -/
theorem register_eq {s : Nat} (hs : s < 2 ^ n) :
    register n p1 p2 p3 s = s / 2 + parity p1 p2 p3 s * 2 ^ (n - 1) := by
  unfold register parity
  rw [Nat.and_one_is_mod, Nat.shiftRight_one]
  rcases Nat.mod_two_eq_zero_or_one (s ^^^ s >>> p1 ^^^ s >>> p2 ^^^ s >>> p3) with hp | hp
  · rw [hp, Nat.zero_shiftLeft, Nat.xor_zero, Nat.zero_mul, Nat.add_zero]
  · rw [hp, Nat.one_shiftLeft, Nat.one_mul, xor_two_pow (half_lt hs)]

theorem parity_lt (p1 p2 p3 s : Nat) : parity p1 p2 p3 s < 2 := Nat.mod_lt _ (by decide)

theorem register_lt {s : Nat} (hn : 0 < n) (hs : s < 2 ^ n) : register n p1 p2 p3 s < 2 ^ n := by
  have hhalf := half_lt hs
  have hpow : 2 ^ n = 2 ^ (n - 1) + 2 ^ (n - 1) := by
    rw [← Nat.two_mul, ← Nat.pow_succ', Nat.succ_eq_add_one, Nat.sub_add_cancel hn]
  rw [register_eq hs]
  rcases Nat.mod_two_eq_zero_or_one (s ^^^ s >>> p1 ^^^ s >>> p2 ^^^ s >>> p3) with hp | hp
  · rw [parity, hp]; omega
  · rw [parity, hp]; omega

/-- A register never gets stuck at zero. -/
theorem register_pos {s : Nat} (h1 : 0 < p1) (h2 : 0 < p2) (h3 : 0 < p3) (hs : s < 2 ^ n)
    (hpos : 0 < s) : 0 < register n p1 p2 p3 s := by
  rw [register_eq hs]
  obtain rfl | hlarge : s = 1 ∨ 2 ≤ s := by omega
  · have hshift : ∀ p, 0 < p → 1 >>> p = 0 := by
      intro p hp
      rw [Nat.shiftRight_eq_div_pow, Nat.div_eq_of_lt (Nat.one_lt_two_pow (by omega))]
    have hparity : parity p1 p2 p3 1 = 1 := by
      rw [parity, hshift p1 h1, hshift p2 h2, hshift p3 h3]
      rfl
    rw [hparity, Nat.one_mul]
    exact Nat.add_pos_right _ (Nat.two_pow_pos _)
  · exact Nat.add_pos_left (Nat.div_pos hlarge (by decide)) _

end

/-! ## The cycle -/

/-- A register of the table: what `get_lfsr_func` can return. -/
structure Register where
  n : Nat
  p1 : Nat
  p2 : Nat
  p3 : Nat
  large : 5 ≤ n
  inside : 0 < p1 ∧ p1 < n ∧ 0 < p2 ∧ p2 < n ∧ 0 < p3 ∧ p3 < n
  primes : List Nat
  prime : ∀ p ∈ primes, p.Prime
  full : fullPeriod n p1 p2 p3 primes = true

namespace Register

variable (r : Register)

def step (s : Nat) : Nat := register r.n r.p1 r.p2 r.p3 s

theorem step_lt {s : Nat} (hs : s < 2 ^ r.n) : r.step s < 2 ^ r.n :=
  register_lt (by have := r.large; omega) hs

theorem step_pos {s : Nat} (hs : s < 2 ^ r.n) (hpos : 0 < s) : 0 < r.step s :=
  register_pos r.inside.1 r.inside.2.2.1 r.inside.2.2.2.2.1 hs hpos

/-- **From 1 the period is full.** -/
theorem minimalPeriod_one : minimalPeriod r.step 1 = 2 ^ r.n - 1 := by
  have hfull := r.full
  unfold fullPeriod at hfull
  simp only [Bool.and_eq_true, beq_iff_eq, List.all_eq_true, bne_iff_ne] at hfull
  obtain ⟨⟨⟨⟨hlead, hnull⟩, hdvd⟩, hperiod⟩, hne⟩ := hfull
  have hann : BinaryPoly.Annihilates r.step r.n (polynomial r.n r.p1 r.p2 r.p3) 1 :=
    ⟨register_linear r.n r.p1 r.p2 r.p3, hlead, hnull⟩
  have hpower : ∀ k, BinaryPoly.act r.step r.n
      (BinaryPoly.powX r.n (polynomial r.n r.p1 r.p2 r.p3) (Nat.log2 k + 1) k) 1 = r.step^[k] 1 :=
    fun k => (hann.act_powX (by have := r.large; omega) Nat.lt_log2_self).2
  refine minimalPeriod_eq_of_primes r.prime (Nat.dvd_of_mod_eq_zero hdvd) ?_ fun q hq => ?_
  · rw [← hpower]
    exact hperiod
  · rw [← hpower]
    exact hne q hq

/-- The numbers a register shows. -/
def states : List Nat := List.range' 1 (2 ^ r.n - 1)

theorem mem_states {s : Nat} : s ∈ r.states ↔ 0 < s ∧ s < 2 ^ r.n := by
  have hpos := Nat.two_pow_pos r.n
  unfold states
  rw [List.mem_range'_1]
  omega

theorem step_mem_states {s : Nat} (hs : s ∈ r.states) : r.step s ∈ r.states := by
  rw [mem_states] at hs ⊢
  exact ⟨r.step_pos hs.2 hs.1, r.step_lt hs.2⟩

/-- **From every state the period is full.** -/
theorem minimalPeriod_step {s : Nat} (hs : s ∈ r.states) : minimalPeriod r.step s = 2 ^ r.n - 1 := by
  have hone : 1 ∈ r.states := by
    rw [mem_states]
    exact ⟨by decide, Nat.one_lt_two_pow (by have := r.large; omega)⟩
  have hcycle := cycle_perm r.minimalPeriod_one List.length_range' hone fun _ => r.step_mem_states
  obtain ⟨i, _, rfl⟩ := List.mem_map.mp (hcycle.mem_iff.mpr hs)
  have hperiodic : 1 ∈ periodicPts r.step := by
    rw [← minimalPeriod_pos_iff_mem_periodicPts, minimalPeriod_one]
    exact Nat.sub_pos_of_lt ((r.mem_states.mp hone).2)
  rw [minimalPeriod_apply_iterate hperiodic, minimalPeriod_one]

/-- **The cycle from any state** shows every number but zero once. -/
theorem cycle_perm_states {s : Nat} (hs : s ∈ r.states) :
    (cycle r.step s (2 ^ r.n - 1)).Perm r.states :=
  cycle_perm (r.minimalPeriod_step hs) List.length_range' hs fun _ => r.step_mem_states

end Register

end LBARandGenLFSR

end LoneNvme
