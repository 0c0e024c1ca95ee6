import Mathlib.Algebra.BigOperators.Group.List.Basic
import Mathlib.Algebra.Order.BigOperators.Group.List
import Mathlib.Algebra.Order.Group.Nat
import Mathlib.Algebra.GroupWithZero.Nat

/-!
# Queues served in rounds

A round takes one item from each queue that has one. After `m` rounds a queue has lost
its first `m` items, so no queue is more than a round ahead of one that still has items.
A server that stops after the first round that used up its budget overruns it by less
than a round.
-/

namespace Lib.RoundRobin

variable {ι α : Type*}

/-- One round over the queues `is`: the first item of each that has one, with its queue. -/
def round (qs : ι → List α) (is : List ι) : List (ι × α) :=
  is.filterMap fun i => (qs i).head?.map fun x => (i, x)

/-- What `m` rounds take. -/
def rounds (qs : ι → List α) (is : List ι) : Nat → List (ι × α)
  | 0 => []
  | m + 1 => rounds qs is m ++ round (fun i => (qs i).drop m) is

variable {qs : ι → List α} {is : List ι} {m : Nat}

/-! ## How much is taken -/

theorem length_round : (round qs is).length = (is.map fun i => min 1 (qs i).length).sum := by
  induction is with
  | nil => rfl
  | cons i is ih =>
      rw [List.map_cons, List.sum_cons, ← ih]
      unfold round
      cases h : qs i with
      | nil =>
          rw [List.filterMap_cons_none (by rw [h]; rfl), List.length_nil, Nat.min_zero, Nat.zero_add]
      | cons x xs =>
          rw [List.filterMap_cons_some (b := (i, x)) (by rw [h]; rfl), List.length_cons,
            List.length_cons, Nat.min_eq_left (Nat.le_add_left _ _), Nat.add_comm]

/-- **After `m` rounds** each queue has lost its first `m` items. -/
theorem length_rounds : (rounds qs is m).length = (is.map fun i => min m (qs i).length).sum := by
  induction m with
  | zero =>
      refine (List.sum_eq_zero fun n hn => ?_).symm
      obtain ⟨i, _, rfl⟩ := List.mem_map.mp hn
      exact Nat.zero_min _
  | succ m ih =>
      have hsplit : ∀ i, min (m + 1) (qs i).length
          = min m (qs i).length + min 1 ((qs i).drop m).length := by
        intro i
        rw [List.length_drop]
        omega
      rw [rounds, List.length_append, ih, length_round, ← List.sum_map_add]
      exact congrArg List.sum (List.map_congr_left fun i _ => (hsplit i).symm)

/-- A round takes at most one item from each queue. -/
theorem length_rounds_succ_le : (rounds qs is (m + 1)).length ≤ (rounds qs is m).length + is.length := by
  rw [rounds, List.length_append]
  exact Nat.add_le_add_left (List.length_filterMap_le _ _) _

/-- As long as anything is left, a round takes something. -/
theorem min_le_length_rounds :
    min m (is.map fun i => (qs i).length).sum ≤ (rounds qs is m).length := by
  rw [length_rounds]
  rcases em (∃ i ∈ is, m ≤ (qs i).length) with ⟨i, hi, hle⟩ | hnone
  · have hone : min m (qs i).length ≤ (is.map fun i => min m (qs i).length).sum :=
      List.single_le_sum (fun _ _ => Nat.zero_le _) _ (List.mem_map_of_mem hi)
    omega
  · have hall : (is.map fun i => min m (qs i).length) = is.map fun i => (qs i).length :=
      List.map_congr_left fun i hi => Nat.min_eq_right
        (Nat.le_of_not_le fun hle => hnone ⟨i, hi, hle⟩)
    rw [hall]
    exact Nat.min_le_right _ _

/-- The budget is used up after `m` rounds, and was not before. -/
structure Stops (qs : ι → List α) (is : List ι) (budget m : Nat) : Prop where
  used : budget ≤ (rounds qs is m).length
  first : ∀ n, n < m → (rounds qs is n).length < budget

/-- **The overrun** is less than a round. -/
theorem Stops.lt {budget : Nat} (h : Stops qs is budget m) (hpos : 0 < budget) :
    (rounds qs is m).length < budget + is.length := by
  cases m with
  | zero => exact absurd h.used (Nat.not_le.mpr hpos)
  | succ m =>
      exact Nat.lt_of_le_of_lt length_rounds_succ_le (Nat.add_lt_add_right (h.first m m.lt_succ_self) _)

/-- **Termination**: a budget that does not exceed the items is used up after as many rounds. -/
theorem lt_of_length_rounds_lt {budget : Nat}
    (hle : budget ≤ (is.map fun i => (qs i).length).sum) (h : (rounds qs is m).length < budget) :
    m < budget := by
  have hmin := @min_le_length_rounds ι α qs is m
  omega

/-! ## What is taken -/

theorem mem_rounds {p : ι × α} (h : p ∈ rounds qs is m) : p.1 ∈ is := by
  induction m with
  | zero => exact absurd h List.not_mem_nil
  | succ m ih =>
      rcases List.mem_append.mp h with h | h
      · exact ih h
      · obtain ⟨i, hi, hp⟩ := List.mem_filterMap.mp h
        obtain ⟨x, _, rfl⟩ := Option.map_eq_some_iff.mp hp
        exact hi

variable [DecidableEq ι]

theorem filter_round_of_notMem {i : ι} (h : i ∉ is) :
    (round qs is).filter (fun p => p.1 = i) = [] := by
  refine List.filter_eq_nil_iff.mpr fun p hp => ?_
  obtain ⟨j, hj, hp⟩ := List.mem_filterMap.mp hp
  obtain ⟨x, _, rfl⟩ := Option.map_eq_some_iff.mp hp
  exact fun he => h (of_decide_eq_true he ▸ hj)

theorem filter_round (hnodup : is.Nodup) {i : ι} (h : i ∈ is) :
    (round qs is).filter (fun p => p.1 = i) = ((qs i).take 1).map fun x => (i, x) := by
  induction is with
  | nil => exact absurd h List.not_mem_nil
  | cons j is ih =>
      obtain ⟨hj, hnodup⟩ := List.nodup_cons.mp hnodup
      have hcons : round qs (j :: is)
          = ((qs j).take 1).map (fun x => (j, x)) ++ round qs is := by
        unfold round
        cases hq : qs j with
        | nil => exact List.filterMap_cons_none (by rw [hq]; rfl)
        | cons x xs => exact List.filterMap_cons_some (by rw [hq]; rfl)
      rw [hcons, List.filter_append]
      by_cases hij : i = j
      · rw [hij, filter_round_of_notMem hj, List.append_nil, List.filter_eq_self]
        intro p hp
        obtain ⟨x, _, rfl⟩ := List.mem_map.mp hp
        exact decide_eq_true rfl
      · have hother : (((qs j).take 1).map fun x => (j, x)).filter (fun p => p.1 = i) = [] := by
          refine List.filter_eq_nil_iff.mpr fun p hp => ?_
          obtain ⟨x, _, rfl⟩ := List.mem_map.mp hp
          exact fun he => hij (of_decide_eq_true he).symm
        rw [hother, List.nil_append]
        exact ih hnodup ((List.mem_cons.mp h).resolve_left hij)

/-- **Each queue in order**: what rounds take of a queue is its first items. -/
theorem filter_rounds (hnodup : is.Nodup) {i : ι} (h : i ∈ is) :
    (rounds qs is m).filter (fun p => p.1 = i) = ((qs i).take m).map fun x => (i, x) := by
  induction m with
  | zero => rfl
  | succ m ih =>
      rw [rounds, List.filter_append, ih, filter_round hnodup h, ← List.map_append, List.take_add]

end Lib.RoundRobin
