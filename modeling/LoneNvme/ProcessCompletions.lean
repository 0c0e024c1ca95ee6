import LoneNvme.SyncCmd
import Mathlib.Algebra.Order.BigOperators.Group.Finset

/-!
# Processing many completions

`poll_cq_completions` goes over its completion queues again and again, and looks at how many
completions it has found only after a whole pass. So it may find more than it was asked for,
though less than a pass more, and no queue waits for another: each pass takes one completion
of every queue that has one.

The number it returns is the number of commands that have left `outstanding_commands`, each
with its own completion, the oldest ones of their queue first.
-/

namespace LoneNvme

open Lib

namespace NVMeDeviceCommon

variable {cfg : RingsConfig} {d d' d'' : NVMeDeviceCommon} {c m n : Nat}

theorem mem_consumedSince {q : Nat} {cqe : CQE} : cqe ∈ consumedSince d d' q ↔
    ∃ j, d.rings.consumed q ≤ j ∧ j < d'.rings.consumed q ∧ (d'.rings.cposted q)[j]? = some cqe := by
  unfold consumedSince
  rw [List.mem_iff_getElem?]
  simp only [List.getElem?_drop, List.getElem?_take]
  constructor
  · rintro ⟨k, hk⟩
    split at hk
    · next hlt => exact ⟨_, Nat.le_add_right _ _, hlt, hk⟩
    · exact absurd hk (by simp)
  · rintro ⟨j, hle, hlt, hj⟩
    refine ⟨j - d.rings.consumed q, ?_⟩
    rw [Nat.add_sub_cancel' hle, if_pos hlt, hj]

/-- **What processing `n` completions does** to commands and queues. -/
structure Processed (cfg : RingsConfig) (d d' : NVMeDeviceCommon) (n : Nat) : Prop where
  /-- As many commands have left the map -/
  count : d'.outstandingCommands.entries.length + n = d.outstandingCommands.entries.length
  /-- as completions were taken from the queues. -/
  consumed : cfg.cqs.sum d'.rings.consumed = cfg.cqs.sum d.rings.consumed + n
  consumedLe : ∀ q, d.rings.consumed q ≤ d'.rings.consumed q
  /-- The device may have posted more. -/
  cposted : ∀ q, d.rings.cposted q <+: d'.rings.cposted q
  /-- Those still outstanding were so before, and are the youngest of each queue. -/
  remaining : ∀ e ∈ d'.outstandingCommands.entries, e ∈ d.outstandingCommands.entries
  oldest : ∀ i, d'.keysOf i <:+ d.keysOf i
  /-- Each command that left the map is complete, with the completion of its CID and queue. -/
  done : ∀ k c, (k, c) ∈ d.outstandingCommands.entries → k ∉ d'.outstandingCommands.keys →
    (d'.commands c).complete = true
      ∧ ((d'.commands c).cqe.CID, (d'.commands c).cqe.SQID.toNat) = k
      ∧ (d'.commands c).cqe ∈ consumedSince d d' (cfg.cqOf k.2)
  /-- No other command object is touched. -/
  others : ∀ c, (∀ k, (k, c) ∈ d.outstandingCommands.entries → k ∈ d'.outstandingCommands.keys) →
    d'.commands c = d.commands c

namespace Processed

/-- The device's visits process nothing. -/
theorem visits (cfg : RingsConfig) (d : NVMeDeviceCommon) (vs : List Visit) :
    Processed cfg d (d.visits cfg vs) 0 where
  count := rfl
  consumed := congrArg _ (Rings.served_visits cfg d.rings vs).consumed
  consumedLe q := Nat.le_of_eq (congrFun (Rings.served_visits cfg d.rings vs).consumed q).symm
  cposted := (Rings.served_visits cfg d.rings vs).cposted
  remaining _ he := he
  oldest _ := List.suffix_rfl
  done _ c hm hk := absurd (Dict.mem_keys.mpr ⟨c, hm⟩) hk
  others _ _ := rfl

theorem refl (cfg : RingsConfig) (d : NVMeDeviceCommon) : Processed cfg d d 0 :=
  visits cfg d []

theorem consumedSince_left (h' : Processed cfg d' d'' n) {q : Nat} {cqe : CQE}
    (hm : cqe ∈ consumedSince d d' q) : cqe ∈ consumedSince d d'' q := by
  obtain ⟨j, hle, hlt, hj⟩ := mem_consumedSince.mp hm
  refine mem_consumedSince.mpr ⟨j, hle, Nat.lt_of_lt_of_le hlt (h'.consumedLe q), ?_⟩
  obtain ⟨hlen, _⟩ := List.getElem?_eq_some_iff.mp hj
  obtain ⟨more, hmore⟩ := h'.cposted q
  rw [← hmore, List.getElem?_append_left hlen, hj]

theorem consumedSince_right (h : Processed cfg d d' m) {q : Nat} {cqe : CQE}
    (hm : cqe ∈ consumedSince d' d'' q) : cqe ∈ consumedSince d d'' q := by
  obtain ⟨j, hle, hlt, hj⟩ := mem_consumedSince.mp hm
  exact mem_consumedSince.mpr ⟨j, Nat.le_trans (h.consumedLe q) hle, hlt, hj⟩

/-- **One after the other.** A command that was processed is not outstanding any more. -/
theorem trans (hinv : Inv cfg d') (h : Processed cfg d d' m) (h' : Processed cfg d' d'' n) :
    Processed cfg d d'' (m + n) where
  count := by rw [← h.count, ← h'.count, Nat.add_comm m n, Nat.add_assoc]
  consumed := by rw [h'.consumed, h.consumed, Nat.add_assoc]
  consumedLe q := Nat.le_trans (h.consumedLe q) (h'.consumedLe q)
  cposted q := (h.cposted q).trans (h'.cposted q)
  remaining e he := h.remaining e (h'.remaining e he)
  oldest i := (h'.oldest i).trans (h.oldest i)
  done k c hm hk := by
    by_cases hmid : k ∈ d'.outstandingCommands.keys
    · obtain ⟨c', hm'⟩ := Dict.mem_keys.mp hmid
      obtain rfl := Dict.entries_inj hm (h.remaining _ hm')
      obtain ⟨hcomplete, hkey, hcqe⟩ := h'.done k c hm' hk
      exact ⟨hcomplete, hkey, h.consumedSince_right hcqe⟩
    · obtain ⟨hcomplete, hkey, hcqe⟩ := h.done k c hm hmid
      -- what the first part completed is not outstanding in the second
      have hsame : d''.commands c = d'.commands c := h'.others c fun k' hm' => by
        obtain ⟨cid, i⟩ := k'
        have hentry := hinv.entry cid i c hm'
        exact absurd hcomplete (by rw [hentry.2.2.2.2.2]; simp)
      rw [hsame]
      exact ⟨hcomplete, hkey, h'.consumedSince_left hcqe⟩
  others c hc := by
    have hsecond : d''.commands c = d'.commands c :=
      h'.others c fun k hm => hc k (h.remaining _ hm)
    rw [hsecond]
    refine h.others c fun k hm => ?_
    obtain ⟨c', hm'⟩ := Dict.mem_keys.mp (hc k hm)
    exact Dict.mem_keys.mpr ⟨c', h'.remaining _ hm'⟩

/-- **One completion**: the oldest pending one, for the oldest command of the queue it names. -/
theorem completed (h : Inv cfg d) {i q : Nat} (hi : i ∈ cfg.sqs) (hq : q = cfg.cqOf i)
    (hm : d.rings.phaseMatch q = true)
    (hentry : (((d.rings.nextCompletion q).CID, i), c) ∈ d.outstandingCommands.entries)
    (hid : (d.rings.nextCompletion q).SQID.toNat = i)
    (hkeys : ∃ rest, d.keysOf i = ((d.rings.nextCompletion q).CID, i) :: rest)
    (bytes : List (BitVec 8)) :
    Processed cfg d (d.completed c i q (d.rings.nextCompletion q) bytes) 1 := by
  obtain ⟨rest, hkeys⟩ := hkeys
  have hmem : q ∈ cfg.cqs := hq ▸ RingsConfig.cqOf_mem hi
  have hcons := h.rings.pending_eq_cons hmem hm
  generalize d.rings.nextCompletion q = cqe at hentry hid hkeys hcons ⊢
  have hconsumed : (d.completed c i q cqe bytes).rings.consumed
      = Function.update d.rings.consumed q (d.rings.consumed q + 1) := rfl
  have hself : (d.completed c i q cqe bytes).rings.consumed q = d.rings.consumed q + 1 := by
    rw [hconsumed, Function.update_self]
  have hother : ∀ q', q' ≠ q →
      (d.completed c i q cqe bytes).rings.consumed q' = d.rings.consumed q' := fun q' hne => by
    rw [hconsumed, Function.update_of_ne hne]
  -- the key that is erased is the one of the entry
  have hgone : (cqe.CID, i) ∉ (d.completed c i q cqe bytes).outstandingCommands.keys := fun hk => by
    obtain ⟨_, hk⟩ := Dict.mem_keys.mp hk
    exact (Dict.mem_entries_erase.mp hk).1 rfl
  refine ⟨Dict.length_erase (Dict.mem_keys.mpr ⟨c, hentry⟩), ?_, fun q' => ?_,
    fun _ => List.prefix_rfl, fun e he => (Dict.mem_entries_erase.mp he).2, fun j => ?_,
    fun k c' hk hk' => ?_, fun c' hc' => ?_⟩
  · -- the sum over the queues grows by this one
    rw [← Finset.add_sum_erase _ _ hmem, ← Finset.add_sum_erase _ d.rings.consumed hmem, hself,
      Finset.sum_congr rfl fun q' hq' => hother q' (Finset.ne_of_mem_erase hq')]
    exact Nat.add_right_comm ..
  · by_cases hqq : q' = q
    · rw [hqq, hself]
      exact Nat.le_succ _
    · rw [hother q' hqq]
  · rw [keysOf_completed bytes hkeys]
    split
    · next hj =>
        rw [hj, hkeys]
        exact List.suffix_cons _ _
    · exact List.suffix_rfl
  · -- the one that left is the one that was completed
    have hkey : k = (cqe.CID, i) := by
      by_contra hne
      exact hk' (Dict.mem_keys.mpr ⟨c', Dict.mem_entries_erase.mpr ⟨hne, hk⟩⟩)
    subst hkey
    obtain rfl := Dict.entries_inj hentry hk
    have hcommand : (d.completed c i q cqe bytes).commands c = { d.commands c with
        posted := false
        complete := true
        cqe
        dataIn := (d.commands c).dataIn.map fun _ => bytes } := Function.update_self ..
    have hcqe := congrArg Command.cqe hcommand
    refine ⟨(completed_self c i q cqe bytes).2, by rw [hcqe, hid], ?_⟩
    rw [hcqe]
    refine mem_consumedSince.mpr ⟨d.rings.consumed q, ?_⟩
    have hfirst : (d.rings.cposted q)[d.rings.consumed q]? = some cqe := by
      have hhead := congrArg List.head? hcons
      rwa [Rings.pending, List.head?_drop] at hhead
    rw [← hq]
    exact ⟨Nat.le_refl _, by rw [hself]; exact Nat.lt_succ_self _, hfirst⟩
  · refine completed_of_ne ?_ cqe bytes
    rintro rfl
    exact hgone (hc' _ hentry)

end Processed

/-! ## The loop -/

/-- What a pass or a whole loop that took `n` more completions leaves. -/
structure Took (cfg : RingsConfig) (d d' : NVMeDeviceCommon) (n : Nat) : Prop where
  reachable : (machine cfg).ReachableBy DistinctCidsKept d'
  processed : Processed cfg d d' n

section

variable (hfit : cfg.HeadsFit) (hadmin : 0 ∈ cfg.sqs ∧ cfg.cqOf 0 = 0)
include hfit hadmin

end

end NVMeDeviceCommon

end LoneNvme
