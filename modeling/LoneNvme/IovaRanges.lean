import LoneNvme.PageOwnership

/-!
# Windows of the IOVA ranges

Any request up to two megabytes is admitted at each IOVA, so the window behind an IOVA
must lie in a range, and no two windows may meet. `reset` checks an address against the
end of its range only after stepping to it: the first address of a range is taken as it
is. All is well exactly if every range it gets to is large enough for one window.

The proof goes along with `reset`, one address at a time. While there is room for two more
windows the next one takes nothing away (`windows_next`); where the loop turns to another range,
the address taken before needs room in the old one (`windows_turn`). `entered` has the ranges
that are reached for `n` addresses, so the condition names these and no others.
-/

namespace LoneNvme

open Lib

namespace HugePagesIovaMgr

/-- The ranges ascend and are disjoint, their ends being theirs. -/
structure Ascending (ranges : List (Nat × Nat)) : Prop where
  le : ∀ r ∈ ranges, r.1 ≤ r.2
  lt : ranges.Pairwise fun r s => r.2 < s.1

theorem Ascending.tail {r : Nat × Nat} {rest : List (Nat × Nat)} (h : Ascending (r :: rest)) :
    Ascending rest :=
  ⟨fun s hs => h.le s (List.mem_cons_of_mem _ hs), (List.pairwise_cons.mp h.lt).2⟩

/-- The window at `i` lies in the range. -/
def Within (r : Nat × Nat) (i : Nat) : Prop := r.1 ≤ i ∧ i + increment ≤ r.2 + 1

/-- Every window lies in one of the ranges, and no two meet. -/
structure Windows (ranges : List (Nat × Nat)) (iovas : List Nat) : Prop where
  within : ∀ i ∈ iovas, ∃ r ∈ ranges, Within r i
  apart : iovas.Pairwise fun i j => i + increment ≤ j ∨ j + increment ≤ i

/-- The ranges as `reset` takes them: the first one not from address zero. -/
def started : List (Nat × Nat) → List (Nat × Nat)
  | [] => []
  | (start, stop) :: rest => (if start = 0 then 0x1000 else start, stop) :: rest

/-- How many addresses a range gives before the next one is turned to. -/
def given (r : Nat × Nat) : Nat := max 1 ((r.2 - r.1) / increment)

/-- The ranges that `n` addresses are taken from. -/
def entered : Nat → List (Nat × Nat) → List (Nat × Nat)
  | _, [] => []
  | 0, _ :: _ => []
  | n + 1, r :: rest => r :: entered (n + 1 - given r) rest

/-- A range with room for the window at its start. -/
def Roomy (r : Nat × Nat) : Prop := r.1 + increment ≤ r.2 + 1

instance (r : Nat × Nat) : Decidable (Roomy r) :=
  inferInstanceAs (Decidable (r.1 + increment ≤ r.2 + 1))

theorem increment_pos : 0 < increment := by decide

/-- No address lies before the range it came from. -/
theorem start_le_of_mem_resetLoop :
    ∀ {n next stop : Nat} {rest : List (Nat × Nat)} {iovas : List Nat},
      resetLoop n next stop rest = .ok iovas →
      ∀ i ∈ iovas, ∃ r ∈ (next, stop) :: rest, r.1 ≤ i := by
  intro n
  induction n with
  | zero =>
      intro next stop rest iovas h i hi
      rw [← Except.ok.inj h] at hi
      exact absurd hi (by simp)
  | succ n ih =>
      intro next stop rest iovas h i hi
      obtain ⟨later, rfl, hlater⟩ := resetLoop_cons h
      rcases List.mem_cons.mp hi with rfl | hi
      · exact ⟨(i, stop), List.mem_cons_self, Nat.le_refl i⟩
      · rcases hlater with ⟨hl, _⟩ | ⟨r, rest', rfl, hl, _⟩
        · obtain ⟨r, hr, hle⟩ := ih hl i hi
          rcases List.mem_cons.mp hr with rfl | hr
          · exact ⟨(next, stop), List.mem_cons_self, (Nat.le_add_right _ _).trans hle⟩
          · exact ⟨r, List.mem_cons_of_mem _ hr, hle⟩
        · obtain ⟨r', hr', hle⟩ := ih hl i hi
          exact ⟨r', List.mem_cons_of_mem _ hr', hle⟩

section Step

variable {n next stop : Nat} {rest : List (Nat × Nat)} {later : List Nat}

/-- **In the same range**: the next window begins where this one ends. -/
theorem windows_next (hasc : Ascending ((next, stop) :: rest))
    (hle : next + increment + increment ≤ stop)
    (hlater : ∀ i ∈ later, ∃ r ∈ (next + increment, stop) :: rest, r.1 ≤ i) :
    Windows ((next, stop) :: rest) (next :: later)
      ↔ Windows ((next + increment, stop) :: rest) later := by
  have hpos := increment_pos
  have hrest : ∀ r ∈ rest, stop < r.1 := (List.pairwise_cons.mp hasc.lt).1
  -- all later addresses lie behind this window, in its range or in a later one
  have hbehind : ∀ i ∈ later, next + increment ≤ i := by
    intro i hi
    obtain ⟨r, hr, hri⟩ := hlater i hi
    rcases List.mem_cons.mp hr with rfl | hr
    · exact hri
    · have := hrest r hr
      omega
  constructor
  · intro h
    refine ⟨fun i hi => ?_, (List.pairwise_cons.mp h.apart).2⟩
    obtain ⟨r, hr, hin⟩ := h.within i (List.mem_cons_of_mem _ hi)
    rcases List.mem_cons.mp hr with rfl | hr
    · exact ⟨_, List.mem_cons_self, hbehind i hi, hin.2⟩
    · exact ⟨r, List.mem_cons_of_mem _ hr, hin⟩
  · intro h
    refine ⟨fun i hi => ?_,
      List.pairwise_cons.mpr ⟨fun i hi => Or.inl (hbehind i hi), h.apart⟩⟩
    rcases List.mem_cons.mp hi with rfl | hi
    · refine ⟨_, List.mem_cons_self, Nat.le_refl i, ?_⟩
      show i + increment ≤ stop + 1
      omega
    · obtain ⟨r, hr, hin⟩ := h.within i hi
      rcases List.mem_cons.mp hr with rfl | hr
      · exact ⟨_, List.mem_cons_self, (Nat.le_add_right _ _).trans hin.1, hin.2⟩
      · exact ⟨r, List.mem_cons_of_mem _ hr, hin⟩

/-- **On to the next range**: nobody checked that this one held its only window. -/
theorem windows_turn (hasc : Ascending ((next, stop) :: rest))
    (hlater : ∀ i ∈ later, ∃ r ∈ rest, r.1 ≤ i) :
    Windows ((next, stop) :: rest) (next :: later)
      ↔ Roomy (next, stop) ∧ Windows rest later := by
  have hpos := increment_pos
  have hle : next ≤ stop := hasc.le _ List.mem_cons_self
  have hrest : ∀ r ∈ rest, stop < r.1 := (List.pairwise_cons.mp hasc.lt).1
  -- what comes later lies behind this range
  have hbehind : ∀ i ∈ later, stop < i := by
    intro i hi
    obtain ⟨r, hr, hri⟩ := hlater i hi
    exact Nat.lt_of_lt_of_le (hrest r hr) hri
  constructor
  · intro h
    constructor
    · obtain ⟨r, hr, hin⟩ := h.within next List.mem_cons_self
      rcases List.mem_cons.mp hr with rfl | hr
      · exact hin.2
      · have := hrest r hr
        have := hin.1
        omega
    · refine ⟨fun i hi => ?_, (List.pairwise_cons.mp h.apart).2⟩
      obtain ⟨r, hr, hin⟩ := h.within i (List.mem_cons_of_mem _ hi)
      rcases List.mem_cons.mp hr with rfl | hr
      · have := hbehind i hi
        have hend : i + increment ≤ stop + 1 := hin.2
        omega
      · exact ⟨r, hr, hin⟩
  · rintro ⟨hroomy, h⟩
    have hend : next + increment ≤ stop + 1 := hroomy
    refine ⟨fun i hi => ?_, List.pairwise_cons.mpr ⟨fun i hi => ?_, h.apart⟩⟩
    · rcases List.mem_cons.mp hi with rfl | hi
      · exact ⟨_, List.mem_cons_self, Nat.le_refl i, hroomy⟩
      · obtain ⟨r, hr, hin⟩ := h.within i hi
        exact ⟨r, List.mem_cons_of_mem _ hr, hin⟩
    · have := hbehind i hi
      exact Or.inl (by omega)

theorem entered_succ (r : Nat × Nat) :
    entered (n + 1) (r :: rest) = r :: entered (n + 1 - given r) rest := rfl

theorem roomy_entered_next (hle : next + increment + increment ≤ stop) :
    (∀ r ∈ entered (n + 1) ((next, stop) :: rest), Roomy r)
      ↔ ∀ r ∈ entered n ((next + increment, stop) :: rest), Roomy r := by
  have hpos := increment_pos
  -- a range that has room for two windows gives one more than what is behind the first
  have hgiven : given (next, stop) = given (next + increment, stop) + 1 := by
    unfold given
    dsimp only
    have hstep := Nat.div_eq_sub_div hpos (show increment ≤ stop - next by omega)
    rw [Nat.sub_sub] at hstep
    have hone : 1 ≤ (stop - (next + increment)) / increment :=
      (Nat.le_div_iff_mul_le hpos).mpr (by omega)
    rw [hstep]
    omega
  have hhead : Roomy (next, stop) := by
    show next + increment ≤ stop + 1
    omega
  have hnext : Roomy (next + increment, stop) := by
    show next + increment + increment ≤ stop + 1
    omega
  have hfirst : 1 ≤ given (next + increment, stop) := Nat.le_max_left _ _
  cases n with
  | zero =>
      have hnone : entered 0 rest = [] := by cases rest <;> rfl
      rw [entered_succ, hgiven, show 0 + 1 - (given (next + increment, stop) + 1) = 0 by omega, hnone]
      refine iff_of_true (fun r hr => ?_) fun r hr => absurd hr (by simp [entered])
      rw [List.mem_singleton.mp hr]
      exact hhead
  | succ n =>
      rw [entered_succ, entered_succ, hgiven, List.forall_mem_cons, List.forall_mem_cons,
        show n + 1 + 1 - (given (next + increment, stop) + 1)
          = n + 1 - given (next + increment, stop) by omega]
      exact and_congr_left fun _ => iff_of_true hhead hnext

theorem entered_turn (hlt : stop < next + increment + increment) :
    entered (n + 1) ((next, stop) :: rest) = (next, stop) :: entered n rest := by
  have hgiven : given (next, stop) = 1 := by
    have hpos := increment_pos
    have hless : (stop - next) / increment < 2 :=
      (Nat.div_lt_iff_lt_mul hpos).mpr (by omega)
    show max 1 ((stop - next) / increment) = 1
    omega
  rw [entered_succ, hgiven, Nat.add_sub_cancel]

end Step

/-- **The loop of `reset`** is safe exactly if the ranges it enters have room. -/
theorem windows_resetLoop :
    ∀ {n next stop : Nat} {rest : List (Nat × Nat)} {iovas : List Nat},
      Ascending ((next, stop) :: rest) → resetLoop n next stop rest = .ok iovas →
      (Windows ((next, stop) :: rest) iovas
        ↔ ∀ r ∈ entered n ((next, stop) :: rest), Roomy r) := by
  intro n
  induction n with
  | zero =>
      intro next stop rest iovas _ h
      rw [← Except.ok.inj h]
      exact iff_of_true ⟨fun i hi => absurd hi (by simp), List.Pairwise.nil⟩
        fun r hr => absurd hr (by simp [entered])
  | succ n ih =>
      intro next stop rest iovas hasc h
      have hpos := increment_pos
      obtain ⟨later, rfl, hlater⟩ := resetLoop_cons h
      -- still in this range, or on to the next one
      rcases hlater with ⟨hl, hle⟩ | ⟨r, rest', rfl, hl, hlt⟩
      · have hasc' : Ascending ((next + increment, stop) :: rest) := by
          refine ⟨fun r hr => ?_, List.pairwise_cons.mpr (List.pairwise_cons.mp hasc.lt)⟩
          rcases List.mem_cons.mp hr with rfl | hr
          · show next + increment ≤ stop
            omega
          · exact hasc.le r (List.mem_cons_of_mem _ hr)
        rw [windows_next hasc hle (start_le_of_mem_resetLoop hl), ih hasc' hl,
          roomy_entered_next hle]
      · rw [windows_turn hasc (start_le_of_mem_resetLoop hl), ih hasc.tail hl, entered_turn hlt,
          List.forall_mem_cons]

/--
**`reset` keeps its windows inside the ranges and apart** exactly if every range it takes
an address from has room for a window.

Only the next address is compared with the end of the range. The first one of a range is taken
as it is, so a window that does not fit is always the first of its range.
-/
theorem windows_reset_iff {ranges : List (Nat × Nat)} {iovas : List Nat} (hasc : Ascending ranges)
    (h : reset ranges = .ok iovas) :
    Windows ranges iovas ↔ ∀ r ∈ entered maxIovas (started ranges), Roomy r := by
  cases ranges with
  | nil => exact absurd h (by simp [reset])
  | cons r rest =>
      obtain ⟨start, stop⟩ := r
      unfold reset at h
      dsimp only at h
      rw [show started ((start, stop) :: rest)
        = (if start = 0 then 0x1000 else start, stop) :: rest from rfl]
      by_cases h0 : start = 0
      · rw [if_pos h0] at h ⊢
        obtain ⟨_, hstop, hl⟩ := bind_eq_ok h
        have hle : 0x1000 + increment ≤ stop := of_decide_eq_true (assertThat_eq_ok hstop)
        have hrest : ∀ r ∈ rest, stop < r.1 := (List.pairwise_cons.mp hasc.lt).1
        have hasc' : Ascending ((0x1000, stop) :: rest) := by
          refine ⟨fun r hr => ?_, List.pairwise_cons.mpr (List.pairwise_cons.mp hasc.lt)⟩
          rcases List.mem_cons.mp hr with rfl | hr
          · show 0x1000 ≤ stop
            omega
          · exact hasc.le r (List.mem_cons_of_mem _ hr)
        rw [← windows_resetLoop hasc' hl, h0]
        -- no address is below the one it starts with
        have hfrom : ∀ i ∈ iovas, 0x1000 ≤ i := by
          intro i hi
          obtain ⟨r, hr, hri⟩ := start_le_of_mem_resetLoop hl i hi
          rcases List.mem_cons.mp hr with rfl | hr
          · exact hri
          · have := hrest r hr
            omega
        constructor
        · intro hw
          refine ⟨fun i hi => ?_, hw.apart⟩
          obtain ⟨r, hr, hin⟩ := hw.within i hi
          rcases List.mem_cons.mp hr with rfl | hr
          · exact ⟨_, List.mem_cons_self, hfrom i hi, hin.2⟩
          · exact ⟨r, List.mem_cons_of_mem _ hr, hin⟩
        · intro hw
          refine ⟨fun i hi => ?_, hw.apart⟩
          obtain ⟨r, hr, hin⟩ := hw.within i hi
          rcases List.mem_cons.mp hr with rfl | hr
          · exact ⟨_, List.mem_cons_self, Nat.zero_le i, hin.2⟩
          · exact ⟨r, List.mem_cons_of_mem _ hr, hin⟩
      · rw [if_neg h0] at h ⊢
        exact windows_resetLoop hasc h

instance (ranges : List (Nat × Nat)) : Decidable (Ascending ranges) :=
  decidable_of_iff ((∀ r ∈ ranges, r.1 ≤ r.2) ∧ ranges.Pairwise fun r s => r.2 < s.1)
    ⟨fun h => ⟨h.1, h.2⟩, fun h => ⟨h.le, h.lt⟩⟩

/-- A range of two windows, and all above. -/
theorem windows_reset_two_ranges :
    ∃ iovas, reset [(0, 0x7FFFFF), (0x1000000, 0xFFFFFFFF)] = .ok iovas
      ∧ Windows [(0, 0x7FFFFF), (0x1000000, 0xFFFFFFFF)] iovas := by
  have hsome : (reset [(0, 0x7FFFFF), (0x1000000, 0xFFFFFFFF)]).toOption.isSome = true := by
    decide +kernel
  obtain ⟨iovas, hok⟩ := Option.isSome_iff_exists.mp hsome
  exact ⟨iovas, toOption_eq_some hok,
    (windows_reset_iff (by decide) (toOption_eq_some hok)).mpr (by decide +kernel)⟩

/-- A first range of one page: the window at its start ends far behind it. -/
theorem not_windows_reset_small_range :
    ¬ ∀ (ranges : List (Nat × Nat)) (iovas : List Nat), Ascending ranges →
      reset ranges = .ok iovas → Windows ranges iovas := by
  intro hall
  have hsome : (reset [(0x1000, 0x2000), (0x3000, 0xFFFFFFFF)]).toOption.isSome = true := by
    decide +kernel
  obtain ⟨iovas, hok⟩ := Option.isSome_iff_exists.mp hsome
  have hreset := toOption_eq_some hok
  have hw := hall _ iovas (by decide) hreset
  rw [reset, if_neg (by decide)] at hreset
  have hroomy := (windows_resetLoop (by decide) hreset).mp hw
  rw [show maxIovas = 999 + 1 from rfl, entered_succ, List.forall_mem_cons] at hroomy
  exact absurd hroomy.1 (by decide)

end HugePagesIovaMgr

end LoneNvme
