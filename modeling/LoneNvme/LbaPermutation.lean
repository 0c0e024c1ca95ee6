import LoneNvme.LbaCycle
import LoneNvme.Lib.Lists

/-!
# The generator is a permutation

An object runs through the cycle of its register from the initial state until it is back
there, and hands out what lies in range. The initial state does, so the cycle is closed
before the end is noticed, and what was handed out is every slot but the first, which
comes last.

`Ready` is the state after construction, with the cycle of the register found in the table.
The objects of one run are counted by their place in that cycle (`objAt`), and the loop of the
generator is followed along it: each value drawn is the next place that lies in range, so a run
draws every slot exactly once.
-/

namespace LoneNvme

open Lib Function

namespace LBARandGenLFSR

/-! ## What `__init__` accepts -/

/-- A tap set that is found is one of the table, and its period is full. -/
theorem exists_register {numBits p1 p2 p3 : Nat}
    (h : getLfsrFunc numBits = .ok (p1, p2, p3)) :
    ∃ r : Register, r.n = numBits ∧ (r.p1, r.p2, r.p3) = (p1, p2, p3) := by
  have hinside : ∀ e ∈ polys, 5 ≤ e.1 ∧ 0 < e.2.2.1 ∧ e.2.2.1 < e.1 ∧ 0 < e.2.2.2.1
      ∧ e.2.2.2.1 < e.1 ∧ 0 < e.2.2.2.2 ∧ e.2.2.2.2 < e.1 := by decide
  obtain ⟨_, _, h⟩ := bind_eq_ok h
  cases hlookup : polys.lookup numBits with
  | none => rw [hlookup] at h; exact absurd h (by simp)
  | some e =>
      obtain ⟨p0, q1, q2, q3⟩ := e
      rw [hlookup] at h
      have hmem : (numBits, p0, q1, q2, q3) ∈ polys := by
        obtain ⟨before, after, hpolys, _⟩ := List.lookup_eq_some_iff.mp hlookup
        rw [hpolys]
        exact List.mem_append_right _ List.mem_cons_self
      obtain ⟨primes, hprimes, hfull⟩ := fullPeriod_polys _ hmem
      obtain ⟨hlarge, hrest⟩ := hinside _ hmem
      exact ⟨⟨numBits, q1, q2, q3, hlarge, hrest, primes, prime_of_mersennePrimes _ hprimes, hfull⟩,
        rfl, Except.ok.inj h⟩

/-- What a new generator promises, when it starts above zero. -/
structure Ready (g : LBARandGenLFSR) where
  register : Register
  bits : register.n = g.numBits
  shifts : (register.p1, register.p2, register.p3) = g.shifts
  max : Nat
  maxValue : g.maxValue = max
  below : max < 2 ^ register.n
  above : 2 ^ (register.n - 1) ≤ max
  start : Nat
  initialState : g.initialState = start
  positive : 0 < start
  inRange : start ≤ max
  fresh : g.reset = g
  slots : g.maxValue = g.maxLba / g.numBlocksPerIo

theorem ready_of_init {maxLba n initialState : Int} {g : LBARandGenLFSR}
    (h : init maxLba n initialState = .ok g) (hn : 1 ≤ n) (hpos : 0 < initialState) :
    Nonempty g.Ready ∧ g.maxLba = maxLba - n ∧ g.numBlocksPerIo = n := by
  unfold init at h
  rw [if_neg (by omega)] at h
  obtain ⟨_, hless, h⟩ := bind_eq_ok h
  obtain ⟨_, _, h⟩ := bind_eq_ok h
  obtain ⟨⟨p1, p2, p3⟩, hshifts, h⟩ := bind_eq_ok h
  obtain ⟨r, hbits, hr⟩ := exists_register hshifts
  have hless := of_decide_eq_true (assertThat_eq_ok hless)
  obtain ⟨max, hmax⟩ := Int.eq_ofNat_of_zero_le (show 0 ≤ Int.fdiv (maxLba - n) n by omega)
  obtain ⟨start, rfl⟩ := Int.eq_ofNat_of_zero_le hpos.le
  have hlarge := r.large
  -- the register chosen has as many bits as the largest slot
  have hbin : ∀ k, 0 < k → (r.n ≤ k ↔ max < 2 ^ k) := by
    intro k hk
    rw [hbits, hmax]
    exact length_drop_bin hk
  have hbelow := (hbin r.n (by omega)).mp (Nat.le_refl _)
  have habove := (hbin (r.n - 1) (by omega)).not.mp (by omega)
  obtain rfl := Except.ok.inj h
  refine ⟨⟨⟨r, hbits, hr, max, hmax, hbelow, by omega, start, rfl, by omega, ?_, rfl, ?_⟩⟩, rfl, rfl⟩
  · rw [hmax] at hless
    omega
  · exact Int.fdiv_eq_ediv_of_nonneg _ (by omega)

/-! ## A low number comes soon -/

namespace Register

variable (r : Register)

/-- With every bit set the next bit is zero. -/
theorem step_ones : r.step (2 ^ r.n - 1) = 2 ^ (r.n - 1) - 1 := by
  have hlarge := r.large
  have hpos := Nat.two_pow_pos r.n
  have hodd : ∀ p, p < r.n → (2 ^ r.n - 1) >>> p % 2 = 1 := by
    intro p hp
    have hbit := @Nat.testBit_two_pow_sub_one r.n p
    rw [decide_eq_true hp, Nat.testBit_eq_decide_div_mod_eq, decide_eq_true_iff] at hbit
    rw [Nat.shiftRight_eq_div_pow]
    exact hbit
  have hparity : parity r.p1 r.p2 r.p3 (2 ^ r.n - 1) = 0 := by
    obtain ⟨_, h1, _, h2, _, h3⟩ := r.inside
    have hxor : ∀ a b : Nat, (a ^^^ b) % 2 = a % 2 ^^^ b % 2 := fun a b => @Nat.xor_mod_two_pow a b 1
    have h0 := hodd 0 (by omega)
    rw [Nat.shiftRight_zero] at h0
    rw [parity, hxor, hxor, hxor, h0, hodd _ h1, hodd _ h2, hodd _ h3]
    rfl
  have hpow : 2 ^ r.n = 2 * 2 ^ (r.n - 1) := by
    rw [← Nat.pow_succ', Nat.succ_eq_add_one, Nat.sub_add_cancel (by omega)]
  rw [step, register_eq (by omega), hparity]
  omega

/-- Numbers with the top bit set follow each other at most as often as there are bits. -/
theorem exists_low {s : Nat} (hs : s < 2 ^ r.n) : ∃ j ≤ r.n, r.step^[j + 1] s < 2 ^ (r.n - 1) := by
  by_contra hall
  push Not at hall
  have hlt : ∀ i, r.step^[i] s < 2 ^ r.n := by
    intro i
    induction i with
    | zero => exact hs
    | succ i ih =>
        rw [iterate_succ_apply']
        exact r.step_lt ih
  -- after `j` such numbers the upper `j` bits are set
  have hones : ∀ j ≤ r.n, 2 ^ r.n - 2 ^ (r.n - j) ≤ r.step^[j] s := by
    intro j
    induction j with
    | zero => intro _; simp
    | succ j ih =>
        intro hj
        have hprev := ih (by omega)
        have htop := hall j (by omega)
        have hpow : 2 ^ r.n = 2 * 2 ^ (r.n - 1) := by
          rw [← Nat.pow_succ', Nat.succ_eq_add_one, Nat.sub_add_cancel (by omega)]
        have hpow' : 2 ^ (r.n - j) = 2 * 2 ^ (r.n - (j + 1)) := by
          rw [← Nat.pow_succ']
          congr 1
          omega
        have hsplit := @register_eq r.n r.p1 r.p2 r.p3 _ (hlt j)
        have hbit := parity_lt r.p1 r.p2 r.p3 (r.step^[j] s)
        have hlow := half_lt (hlt j)
        rw [iterate_succ_apply'] at htop ⊢
        change r.step (r.step^[j] s) = _ at hsplit
        rw [hsplit] at htop ⊢
        rcases Nat.mod_two_eq_zero_or_one (parity r.p1 r.p2 r.p3 (r.step^[j] s)) with hp | hp
        · have hzero : parity r.p1 r.p2 r.p3 (r.step^[j] s) = 0 := by omega
          rw [hzero] at htop
          omega
        · have hone : parity r.p1 r.p2 r.p3 (r.step^[j] s) = 1 := by omega
          rw [hone]
          omega
  have hfull : r.step^[r.n] s = 2 ^ r.n - 1 := by
    have hge := hones r.n (Nat.le_refl _)
    have hle := hlt r.n
    rw [Nat.sub_self, Nat.pow_zero] at hge
    omega
  have hlast := hall r.n (Nat.le_refl _)
  have hpos := Nat.two_pow_pos (r.n - 1)
  rw [iterate_succ_apply', hfull, step_ones] at hlast
  omega

end Register

/-! ## The run -/

theorem nextN_cons {g g₁ g₂ : LBARandGenLFSR} {depth k : Nat} {v : Int} {vs : List Int}
    (hnext : next depth g = .ok (v, g₁)) (hrest : nextN depth k g₁ = .ok (vs, g₂)) :
    nextN depth (k + 1) g = .ok (v :: vs, g₂) := by
  unfold nextN
  rw [hnext]
  show Except.bind (nextN depth k g₁) _ = _
  rw [hrest]
  rfl

/-- One shift of the object is one step of the register. -/
theorem shift_eq {g : LBARandGenLFSR} {p1 p2 p3 s : Nat} (hstate : g.state = s)
    (hshifts : g.shifts = (p1, p2, p3)) (hs : s < 2 ^ g.numBits) :
    g.shift = register g.numBits p1 p2 p3 s := by
  have hor : s >>> 1 ||| ((s ^^^ s >>> p1 ^^^ s >>> p2 ^^^ s >>> p3) &&& 1) <<< (g.numBits - 1)
      = register g.numBits p1 p2 p3 s := by
    rw [register_eq hs, Nat.or_comm, Nat.shiftRight_one, ← Nat.shiftLeft_add_eq_or_of_lt (half_lt hs),
      Nat.shiftLeft_eq, Nat.and_one_is_mod, Nat.add_comm]
    rfl
  unfold shift
  rw [hshifts, hstate, ← hor]
  rfl

namespace Ready

variable {g : LBARandGenLFSR} (R : g.Ready)

/-- The state after `i` shifts. -/
def stateAt (i : Nat) : Nat := R.register.step^[i] R.start

/-- The object after `i` shifts. -/
def objAt (i : Nat) : LBARandGenLFSR := { g with state := R.stateAt i, period := i }

/-- How many shifts lead back. -/
def full : Nat := 2 ^ R.register.n - 1

/-- What is handed out between the shifts `i` and `i + k`. -/
def rest (i k : Nat) : List Nat :=
  ((List.range' (i + 1) k).map R.stateAt).filter fun s => s ≤ R.max

theorem start_mem : R.start ∈ R.register.states :=
  R.register.mem_states.mpr ⟨R.positive, Nat.lt_of_le_of_lt R.inRange R.below⟩

theorem stateAt_lt (i : Nat) : R.stateAt i < 2 ^ R.register.n := by
  induction i with
  | zero => exact (R.register.mem_states.mp R.start_mem).2
  | succ i ih =>
      rw [stateAt, iterate_succ_apply']
      exact R.register.step_lt ih

theorem stateAt_full : R.stateAt R.full = R.start := by
  have hperiod := isPeriodicPt_minimalPeriod R.register.step R.start
  rw [R.register.minimalPeriod_step R.start_mem] at hperiod
  exact hperiod

theorem stateAt_ne {i : Nat} (hi : 0 < i) (hlt : i < R.full) : R.stateAt i ≠ R.start := by
  rw [full, ← R.register.minimalPeriod_step R.start_mem] at hlt
  exact not_isPeriodicPt_of_pos_of_lt_minimalPeriod (Nat.ne_of_gt hi) hlt

theorem rest_succ (i k : Nat) : R.rest i (k + 1) =
    if R.stateAt (i + 1) ≤ R.max then R.stateAt (i + 1) :: R.rest (i + 1) k
    else R.rest (i + 1) k := by
  unfold rest
  rw [List.range'_succ, List.map_cons, List.filter_cons]
  simp only [decide_eq_true_eq]

theorem shift_objAt (i : Nat) : (R.objAt i).shift = R.stateAt (i + 1) := by
  have hlt : R.stateAt i < 2 ^ (R.objAt i).numBits := R.bits ▸ R.stateAt_lt i
  have hshift := @shift_eq (R.objAt i) _ _ _ _ rfl R.shifts.symm hlt
  have hstep : R.stateAt (i + 1) = R.register.step (R.stateAt i) := iterate_succ_apply' _ _ _
  rw [hshift, hstep]
  exact congrArg (fun n => ((LBARandGenLFSR.register n _ _ _ _ : Nat) : Int)) R.bits.symm

/-- **`next` of the register**: it goes on to the next state in range and hands that out. -/
theorem f_objAt {depth i k : Nat} (hsoon : ∃ j < depth, j < k ∧ R.stateAt (i + j + 1) ≤ R.max) :
    ∃ v i' k', R.rest i k = v :: R.rest i' k' ∧ i' + k' = i + k ∧ i < i'
      ∧ f depth (R.objAt i) = .ok (v * g.numBlocksPerIo, R.objAt i') := by
  induction depth generalizing i k with
  | zero => obtain ⟨j, hj, _⟩ := hsoon; omega
  | succ depth ih =>
      obtain ⟨j, hj, hjk, hlow⟩ := hsoon
      obtain ⟨k, rfl⟩ : ∃ k', k = k' + 1 := ⟨k - 1, by omega⟩
      have hf : f (depth + 1) (R.objAt i) = if ((R.stateAt (i + 1) : Nat) : Int) > g.maxValue
          then f depth (R.objAt (i + 1))
          else .ok (R.stateAt (i + 1) * g.numBlocksPerIo, R.objAt (i + 1)) := by
        have hnext : { R.objAt i with state := (R.objAt i).shift, period := (R.objAt i).period + 1 }
            = R.objAt (i + 1) := by
          rw [R.shift_objAt]
          rfl
        rw [f, hnext]
        rfl
      rw [hf, R.maxValue, R.rest_succ]
      by_cases hin : R.stateAt (i + 1) ≤ R.max
      · rw [if_pos hin, if_neg (by omega)]
        exact ⟨_, i + 1, k, rfl, by omega, by omega, rfl⟩
      · -- out of range: `f` calls itself
        have hj0 : j ≠ 0 := fun h0 => hin (by rw [h0] at hlow; exact hlow)
        obtain ⟨j, rfl⟩ : ∃ j', j = j' + 1 := ⟨j - 1, by omega⟩
        have hlow' : R.stateAt (i + 1 + j + 1) ≤ R.max := by
          rw [show i + 1 + j + 1 = i + (j + 1) + 1 by omega]
          exact hlow
        obtain ⟨v, i', k', hrest, hsum, hlt, hok⟩ :=
          @ih (i + 1) k ⟨j, by omega, by omega, hlow'⟩
        rw [if_neg hin, if_pos (by omega)]
        exact ⟨v, i', k', hrest, by omega, by omega, hok⟩

theorem complete_objAt (i : Nat) : (R.objAt i).complete = false := by
  have h := congrArg LBARandGenLFSR.complete R.fresh
  exact h.symm

theorem objAt_zero : g = R.objAt 0 := by
  have hstate : g.state = R.start := by
    rw [← R.initialState]
    exact (congrArg LBARandGenLFSR.state R.fresh).symm
  have hperiod : g.period = 0 := (congrArg LBARandGenLFSR.period R.fresh).symm
  exact congrArg₂ (fun s p => ({ g with state := s, period := p } : LBARandGenLFSR)) hstate hperiod

/-- **`__next__`** before the cycle is closed. -/
theorem next_objAt {depth i k : Nat} (hdepth : g.numBits < depth) (hik : i + k = R.full)
    (hk : 0 < k) : ∃ v i' k', R.rest i k = v :: R.rest i' k' ∧ i' + k' = R.full
      ∧ (R.objAt i).next depth = .ok (v * g.numBlocksPerIo, R.objAt i') := by
  have hsoon : ∃ j < depth, j < k ∧ R.stateAt (i + j + 1) ≤ R.max := by
    obtain ⟨j, hj, hlow⟩ := R.register.exists_low (R.stateAt_lt i)
    rw [R.bits] at hj
    have hstate : R.register.step^[j + 1] (R.stateAt i) = R.stateAt (i + j + 1) := by
      rw [stateAt, ← iterate_add_apply, Nat.add_comm, ← Nat.add_assoc]
      rfl
    rw [hstate] at hlow
    by_cases hjk : j < k
    · exact ⟨j, by omega, hjk, Nat.le_of_lt (Nat.lt_of_lt_of_le hlow R.above)⟩
    · -- the initial state closes the cycle before
      refine ⟨k - 1, by omega, by omega, ?_⟩
      rw [show i + (k - 1) + 1 = R.full by omega, stateAt_full]
      exact R.inRange
  obtain ⟨v, i', k', hrest, hsum, _, hf⟩ := R.f_objAt hsoon
  refine ⟨v, i', k', hrest, by omega, ?_⟩
  unfold next
  rw [R.complete_objAt, if_neg (by decide), if_neg, hf]
  rintro ⟨hstate, hperiod⟩
  have hne : R.stateAt i ≠ R.start := R.stateAt_ne hperiod (by omega)
  have hsame : ((R.stateAt i : Nat) : Int) = R.start := hstate.trans R.initialState
  exact hne (Int.ofNat.inj hsame)

/-- Back at the initial state: zero, and the end. -/
def objEnd : LBARandGenLFSR := { R.objAt R.full with complete := true }

theorem next_full (depth : Nat) : (R.objAt R.full).next depth = .ok (0, R.objEnd) := by
  have hfull : 0 < R.full := Nat.sub_pos_of_lt (Nat.one_lt_two_pow (by have := R.register.large; omega))
  unfold next
  rw [R.complete_objAt, if_neg (by decide), if_pos]
  · rfl
  · refine ⟨?_, hfull⟩
    show ((R.stateAt R.full : Nat) : Int) = g.initialState
    rw [R.stateAt_full, R.initialState]

/-- **A run** hands out the rest of the cycle that is in range, then zero. -/
theorem nextN_objAt {depth : Nat} (hdepth : g.numBits < depth) {l : List Nat} :
    ∀ {i k : Nat}, R.rest i k = l → i + k = R.full →
      nextN depth (l.length + 1) (R.objAt i)
        = .ok (l.map (fun v : Nat => (v : Int) * g.numBlocksPerIo) ++ [0], R.objEnd) := by
  induction l with
  | nil =>
      intro i k hl hik
      obtain rfl : k = 0 := by
        by_contra hk
        obtain ⟨v, i', k', hrest, _⟩ := R.next_objAt hdepth hik (by omega)
        rw [hl] at hrest
        exact absurd hrest (by simp)
      -- nothing is left to hand out exactly at the end of the cycle
      obtain rfl : i = R.full := by omega
      exact nextN_cons (R.next_full depth) rfl
  | cons v l ih =>
      intro i k hl hik
      have hk : 0 < k := by
        by_contra hk
        obtain rfl : k = 0 := by omega
        exact absurd hl (by simp [rest])
      obtain ⟨w, i', k', hrest, hik', hnext⟩ := R.next_objAt hdepth hik hk
      rw [hl] at hrest
      obtain ⟨rfl, hl'⟩ := List.cons.inj hrest
      exact nextN_cons hnext (ih hl'.symm hik')

/-- What is handed out is each number in range once. -/
theorem rest_perm : (R.rest 0 R.full).Perm (List.range' 1 R.max) := by
  have hcycle : (List.range' 1 R.full).map R.stateAt = cycle R.register.step R.start R.full := by
    rw [cycle, List.range'_eq_map_range, List.map_map]
    refine List.map_congr_left fun i _ => ?_
    show R.stateAt (1 + i) = _
    rw [Nat.add_comm]
    rfl
  have hfilter : ((List.range' 1 R.full).filter fun s => s ≤ R.max).Perm (List.range' 1 R.max) := by
    refine (List.perm_ext_iff_of_nodup (List.Nodup.filter _ List.nodup_range')
      List.nodup_range').mpr fun s => ?_
    have hbelow := R.below
    rw [List.mem_filter, List.mem_range'_1, List.mem_range'_1, decide_eq_true_iff, full]
    omega
  refine List.Perm.trans ?_ hfilter
  unfold rest
  rw [Nat.zero_add, hcycle]
  exact (R.register.cycle_perm_states R.start_mem).filter _

theorem length_rest : (R.rest 0 R.full).length = R.max := by
  rw [R.rest_perm.length_eq, List.length_range']

end Ready

/-! ## Starting over -/

/-- Handing out a value touches nothing that `reset` keeps. -/
theorem reset_f {depth : Nat} {g g' : LBARandGenLFSR} {v : Int} (h : f depth g = .ok (v, g')) :
    g'.reset = g.reset := by
  induction depth generalizing g with
  | zero => exact absurd h (by simp [f])
  | succ depth ih =>
      unfold f at h
      dsimp only at h
      split at h
      · rw [ih h]
        rfl
      · obtain ⟨_, rfl⟩ := Prod.mk.inj (Except.ok.inj h)
        rfl

theorem reset_next {depth : Nat} {g g' : LBARandGenLFSR} {v : Int}
    (h : g.next depth = .ok (v, g')) : g'.reset = g.reset := by
  unfold next at h
  split at h
  · exact absurd h (by simp)
  · split at h
    · obtain ⟨_, rfl⟩ := Prod.mk.inj (Except.ok.inj h)
      rfl
    · exact reset_f h

theorem reset_of_used {g g₁ : LBARandGenLFSR} (h : Used g g₁) : g₁.reset = g.reset := by
  induction h with
  | new => rfl
  | next _ hnext ih => rw [reset_next hnext, ih]
  | reset _ ih => exact ih

/-! ## The permutation -/

/-- Zero and the numbers up to `max` are the numbers below `max + 1`. -/
theorem slots_perm {l : List Nat} {max : Nat} (h : l.Perm (List.range' 1 max)) (n : Int) :
    (l.map (fun v : Nat => (v : Int) * n) ++ [0]).Perm
      ((List.range (max + 1)).map fun v : Nat => (v : Int) * n) := by
  have hrange : List.range (max + 1) = 0 :: List.range' 1 max := by
    rw [List.range_eq_range', List.range'_succ]
  rw [hrange, List.map_cons, Int.natCast_zero, Int.zero_mul]
  exact (List.perm_append_singleton 0 _).trans (List.Perm.cons 0 (h.map _))

/--
**The generator is a permutation of the slots.** From construction or after `reset`, with
enough frames for the calls of `f` to itself, it hands out every multiple of `n` up to the
largest slot once, zero last, and then stops; every one leaves room for `n` blocks.

The register runs through all states but zero, which is why zero is added by hand, and the
states that are no slots are passed over without changing the order of the others.
-/
theorem yields_permutation {maxLba n initialState : Int} {g start : LBARandGenLFSR}
    (hinit : init maxLba n initialState = .ok g) (hn : 1 ≤ n) (hpos : 0 < initialState)
    (hstart : start = g ∨ ∃ g₁, Used g g₁ ∧ start = g₁.reset) {depth : Nat}
    (hdepth : g.numBits < depth) :
    ∃ values last, nextN depth (g.maxValue + 1).toNat start = .ok (values, last)
      ∧ last.next depth = .error (.custom "StopIteration" "")
      ∧ values.Perm ((List.range (g.maxValue + 1).toNat).map fun k : Nat => (k : Int) * n)
      ∧ values.getLast? = some 0
      ∧ ∀ v ∈ values, v + n ≤ maxLba := by
  obtain ⟨⟨R⟩, hmax, hblocks⟩ := ready_of_init hinit hn hpos
  -- both starting points are the first state of one orbit
  have hnew : start = R.objAt 0 := by
    have hfirst := R.objAt_zero
    rcases hstart with rfl | ⟨g₁, hused, rfl⟩
    · exact hfirst
    · rw [reset_of_used hused, R.fresh]
      exact hfirst
  have hcount : (g.maxValue + 1).toNat = (R.rest 0 R.full).length + 1 := by
    rw [R.maxValue, R.length_rest]
    omega
  have hrun := R.nextN_objAt hdepth (i := 0) (k := R.full) rfl (by omega)
  have hperm := slots_perm R.rest_perm n
  rw [← hnew, hblocks, ← hcount] at hrun
  refine ⟨_, _, hrun, rfl, ?_, List.getLast?_concat, fun v hv => ?_⟩
  · rw [R.maxValue]
    exact hperm
  · rw [hperm.mem_iff] at hv
    obtain ⟨k, hk, rfl⟩ := List.mem_map.mp hv
    have hslot : (k : Int) ≤ (maxLba - n) / n := by
      rw [← hmax, ← hblocks, ← R.slots, R.maxValue]
      exact_mod_cast Nat.lt_succ_iff.mp (List.mem_range.mp hk)
    have hle : (k : Int) * n ≤ maxLba - n :=
      (Int.mul_le_mul_of_nonneg_right hslot (by omega)).trans (Int.ediv_mul_le _ (by omega))
    omega

/-- Seven blocks at a time, from the state 5. -/
theorem yields_permutation_seven : ∃ g, init 1000 7 5 = .ok g ∧ ∃ values last,
    nextN 1000 (g.maxValue + 1).toNat g = .ok (values, last)
      ∧ last.next 1000 = .error (.custom "StopIteration" "")
      ∧ values.Perm ((List.range (g.maxValue + 1).toNat).map fun k : Nat => (k : Int) * 7)
      ∧ values.getLast? = some 0
      ∧ ∀ v ∈ values, v + 7 ≤ 1000 := by
  refine ⟨⟨993, 7, 5, 141, 5, 8, (2, 3, 4), 0, false⟩, rfl, ?_⟩
  exact @yields_permutation 1000 7 5 _ _ rfl (by decide) (by decide) (Or.inl rfl) 1000 (by decide)

end LBARandGenLFSR

end LoneNvme
