import LoneNvme.LbaPermutation
import LoneNvme.Lib.Retry

/-!
# A register is soon in range

`f` calls itself while the register shows a number that is too large. Such a number has
the top bit set. As many of them in a row as there are bits fill the register with ones,
and then the four taps cancel out and the next number is low.

How deep the calls go decides whether Python's recursion limit is met. `f_shallow` bounds the
depth by the number of bits, for every state of the register; `Ready.next_of_used` carries it
to whatever state a used generator is in.
-/

namespace LoneNvme

open Lib Function

namespace LBARandGenLFSR

variable {g : LBARandGenLFSR}

/-- One turn of `f`: a shift, counted. -/
def turn (g : LBARandGenLFSR) : LBARandGenLFSR :=
  { g with state := g.shift, period := g.period + 1 }

/-- What `f` stops at. -/
def inRange (g : LBARandGenLFSR) : Bool := g.state ≤ g.maxValue

/-- **`f` tries again** until the state is in range. -/
theorem f_eq_retry (depth : Nat) (g : LBARandGenLFSR) :
    f depth g = match retry turn inRange depth g with
      | some g' => .ok (g'.state * g'.numBlocksPerIo, g')
      | none => .error (.custom "RecursionError" "maximum recursion depth exceeded") := by
  induction depth generalizing g with
  | zero => rfl
  | succ depth ih =>
      have hstep : f (depth + 1) g = if g.turn.state > g.turn.maxValue then f depth g.turn
          else .ok (g.turn.state * g.turn.numBlocksPerIo, g.turn) := rfl
      rw [hstep, retry]
      by_cases hin : g.turn.state ≤ g.turn.maxValue
      · have haccepts : g.turn.inRange = true := decide_eq_true hin
        rw [if_neg (by omega), if_pos haccepts]
      · have haccepts : ¬ g.turn.inRange = true := fun h => hin (of_decide_eq_true h)
        rw [if_pos (by omega), if_neg haccepts, ih]

/-! ## The object and its register -/

/-- The object runs the register `r`, which shows `s`. -/
structure Holds (r : Register) (g : LBARandGenLFSR) (s : Nat) : Prop where
  bits : g.numBits = r.n
  shifts : g.shifts = (r.p1, r.p2, r.p3)
  state : g.state = s
  mem : s ∈ r.states

variable {r : Register} {s : Nat}

/-- **One turn** is one step of the register, which does not get to zero. -/
theorem Holds.turn (h : Holds r g s) : Holds r g.turn (r.step s) where
  bits := h.bits
  shifts := h.shifts
  state := by
    have hlt : s < 2 ^ g.numBits := h.bits ▸ (r.mem_states.mp h.mem).2
    have hshift := shift_eq h.state h.shifts hlt
    rw [h.bits] at hshift
    exact hshift
  mem := r.step_mem_states h.mem

theorem Holds.iterate (h : Holds r g s) (i : Nat) :
    Holds r (LBARandGenLFSR.turn^[i] g) (r.step^[i] s) := by
  induction i with
  | zero => exact h
  | succ i ih =>
      rw [iterate_succ_apply', iterate_succ_apply']
      exact ih.turn

/-- The turns move the register and the count only. -/
theorem iterate_turn (g : LBARandGenLFSR) (i : Nat) : turn^[i] g
    = { g with state := (turn^[i] g).state, period := g.period + i } := by
  induction i with
  | zero => rfl
  | succ i ih =>
      rw [iterate_succ_apply', ih]
      rfl

/-! ## How deep a call goes -/

/-- A call of `f` that rejects `k` states before it returns. -/
structure Returns (g : LBARandGenLFSR) (k : Nat) : Prop where
  rejects : Rejects turn inRange g k
  nonzero : ∀ i ≤ k, (turn^[i + 1] g).state ≠ 0
  returns : ∀ depth, f depth g = if k < depth
    then .ok ((turn^[k + 1] g).state * g.numBlocksPerIo, turn^[k + 1] g)
    else .error (.custom "RecursionError" "maximum recursion depth exceeded")

/-- **A register whose limit has its top bit** rejects no more states in a row than it has bits. -/
theorem Holds.returns (h : Holds r g s) {max : Nat} (hmax : g.maxValue = max)
    (habove : 2 ^ (r.n - 1) ≤ max) : ∃ k ≤ r.n, g.Returns k := by
  obtain ⟨j, hj, hlow⟩ := r.exists_low (r.mem_states.mp h.mem).2
  have hin : (LBARandGenLFSR.turn^[j + 1] g).inRange = true := by
    refine decide_eq_true ?_
    rw [(h.iterate (j + 1)).state, iterate_turn, hmax]
    exact_mod_cast Nat.le_of_lt (Nat.lt_of_lt_of_le hlow habove)
  obtain ⟨k, hk, hrejects⟩ := exists_rejects hin
  refine ⟨k, Nat.le_trans hk hj, hrejects, fun i _ => ?_, fun depth => ?_⟩
  · have hpos := (r.mem_states.mp (h.iterate (i + 1)).mem).1
    rw [(h.iterate (i + 1)).state]
    omega
  · have hblocks : (LBARandGenLFSR.turn^[k + 1] g).numBlocksPerIo = g.numBlocksPerIo := by
      rw [iterate_turn]
    rw [f_eq_retry, hrejects.retry_eq, ← hblocks]
    by_cases hdeep : k < depth
    · rw [if_pos hdeep, if_pos hdeep]
    · rw [if_neg hdeep, if_neg hdeep]

/-- There is a tap set for each number of bits from 5 to 40. -/
theorem exists_getLfsrFunc {b : Nat} (hb : 5 ≤ b) (hb' : b ≤ 40) :
    ∃ shifts, getLfsrFunc b = .ok shifts := by
  have hall : ∀ b ≤ 40, 5 ≤ b → (getLfsrFunc b).toOption.isSome := by decide
  obtain ⟨shifts, hshifts⟩ := Option.isSome_iff_exists.mp (hall b hb' hb)
  exact ⟨shifts, toOption_eq_some hshifts⟩

/--
**The retry recursion is shallow.** With a limit of as many bits as the register, a call
of `f` rejects at most that many states in a row, needs one frame more, and shows no zero.

A state above the limit has its top bit set. If as many states in a row have it as there are
bits, the register is all ones; the taps are four, so they cancel out, and the next state is low.
-/
theorem f_shallow {b : Nat} (hb : 5 ≤ b) (hb' : b ≤ 40) :
    ∃ shifts, getLfsrFunc b = .ok shifts
      ∧ ∀ {max s : Nat} {g : LBARandGenLFSR}, ((bin max).drop 2).length = b → 0 < s → s < 2 ^ b →
        g.numBits = b → g.shifts = shifts → g.maxValue = max → g.state = s →
        (∃ k ≤ b, g.Returns k) ∧ ∃ value g', f (b + 1) g = .ok (value, g') := by
  obtain ⟨⟨p1, p2, p3⟩, hshifts⟩ := exists_getLfsrFunc hb hb'
  obtain ⟨r, hbits, hr⟩ := exists_register hshifts
  refine ⟨_, hshifts, ?_⟩
  intro max s g hlength hpos hlt hn hg hmax hs
  have habove : 2 ^ (b - 1) ≤ max := by
    have hfew : ¬ ((bin max).drop 2).length ≤ b - 1 := by omega
    rw [length_drop_bin (by omega)] at hfew
    omega
  have hholds : Holds r g s :=
    ⟨hn.trans hbits.symm, hg.trans hr.symm, hs, r.mem_states.mpr ⟨hpos, hbits ▸ hlt⟩⟩
  obtain ⟨k, hk, hreturns⟩ := hholds.returns hmax (hbits ▸ habove)
  rw [hbits] at hk
  have hok := hreturns.returns (b + 1)
  rw [if_pos (Nat.lt_succ_of_le hk)] at hok
  exact ⟨⟨k, hk, hreturns⟩, _, _, hok⟩

/-- Five bits and the limit 16, from 14. -/
theorem f_shallow_five : ∃ k ≤ 5, Returns
    { maxLba := 16, numBlocksPerIo := 1, initialState := 1, maxValue := 16, state := 14,
      numBits := 5, shifts := (1, 2, 3), period := 0, complete := false } k := by
  obtain ⟨shifts, hshifts, hshallow⟩ := @f_shallow 5 (by decide) (by decide)
  have hof : shifts = (1, 2, 3) := Except.ok.inj (hshifts.symm.trans rfl)
  exact (@hshallow 16 14 _ (by decide) (by decide) (by decide) rfl hof.symm rfl rfl).1

/-- All five are rejected there, so five frames are too few. -/
example : f 5
    { maxLba := 16, numBlocksPerIo := 1, initialState := 1, maxValue := 16, state := 14,
      numBits := 5, shifts := (1, 2, 3), period := 0, complete := false }
    = .error (.custom "RecursionError" "maximum recursion depth exceeded") := by decide

/-! ## Every run -/

/-- **No run gets to zero**, or out of the register. -/
theorem Ready.holds_of_used (R : g.Ready) {g₁ : LBARandGenLFSR} (h : Used g g₁) :
    g₁.maxValue = g.maxValue ∧ ∃ s, Holds R.register g₁ s := by
  have hnew : Holds R.register g R.start :=
    ⟨R.bits.symm, R.shifts.symm, (congrArg LBARandGenLFSR.state R.fresh).symm.trans R.initialState,
      R.start_mem⟩
  induction h with
  | new => exact ⟨rfl, _, hnew⟩
  | @next depth value g₁ g₂ _ hnext ih =>
      obtain ⟨hmax, s, hs⟩ := ih
      unfold next at hnext
      split at hnext
      · exact absurd hnext (by simp)
      · split at hnext
        · cases hnext
          exact ⟨hmax, s, hs.bits, hs.shifts, hs.state, hs.mem⟩
        · -- the generator turns until a value is in range; the depth may end it before that
          obtain ⟨k, _, hreturns⟩ := hs.returns (hmax.trans R.maxValue) R.above
          rw [hreturns.returns] at hnext
          by_cases hdeep : k < depth
          · rw [if_pos hdeep] at hnext
            obtain ⟨_, rfl⟩ := Prod.mk.inj (Except.ok.inj hnext)
            refine ⟨?_, _, hs.iterate (k + 1)⟩
            rw [iterate_turn]
            exact hmax
          · rw [if_neg hdeep] at hnext
            exact absurd hnext (by simp)
  | @reset g₁ hused _ =>
      have hsame := reset_of_used hused
      rw [hsame, R.fresh]
      exact ⟨rfl, _, hnew⟩

/-- **No run gets stuck**: with a frame more than the register has bits, the next value comes. -/
theorem Ready.next_of_used (R : g.Ready) {g₁ : LBARandGenLFSR} (h : Used g g₁)
    (hcomplete : g₁.complete = false) {depth : Nat} (hdepth : g.numBits < depth) :
    ∃ value g₂, g₁.next depth = .ok (value, g₂) := by
  obtain ⟨hmax, s, hs⟩ := R.holds_of_used h
  obtain ⟨k, hk, hreturns⟩ := hs.returns (hmax.trans R.maxValue) R.above
  rw [R.bits] at hk
  unfold next
  rw [hcomplete, if_neg Bool.false_ne_true]
  split
  · exact ⟨_, _, rfl⟩
  · rw [hreturns.returns, if_pos (by omega)]
    exact ⟨_, _, rfl⟩

end LBARandGenLFSR

end LoneNvme
