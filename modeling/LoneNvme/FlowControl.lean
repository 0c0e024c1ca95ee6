import LoneNvme.Rings
import Mathlib.Algebra.Order.BigOperators.Group.Finset

/-!
# Flow control

The simulator never checks whether a completion queue has room; it asserts. What
keeps the assertion from firing is the host's submission side: a command keeps its
slot until its completion is consumed, so a queue of `N` entries never has more
than `N - 1` completions on their way, and one fewer while a command waits to be
fetched.
-/

namespace LoneNvme

open Lib

/-- One host or simulator action on one queue. -/
inductive RingsOp where
  | post (i : Nat) (command : Generic)
  | fetchComplete (i statusCode : Nat) (cmdSpec : BitVec 32)
  | consume (c : Nat)

/-- Every completion queue can hold a completion for every slot of its submission queues. -/
def RingsConfig.HasRoom (cfg : RingsConfig) : Prop :=
  ∀ c ∈ cfg.cqs, ∑ i ∈ cfg.sqs with cfg.cqOf i = c, (cfg.sqEntries i - 1) ≤ cfg.cqEntries c - 1

instance (cfg : RingsConfig) : Decidable cfg.HasRoom :=
  inferInstanceAs (Decidable (∀ c ∈ cfg.cqs,
    ∑ i ∈ cfg.sqs with cfg.cqOf i = c, (cfg.sqEntries i - 1) ≤ cfg.cqEntries c - 1))

namespace Rings

variable {cfg : RingsConfig}

def step (cfg : RingsConfig) (r : Rings) : RingsOp → Option Rings
  | .post i command => if i ∈ cfg.sqs then (r.postCommand i command).toOption else none
  | .fetchComplete i statusCode cmdSpec =>
      if i ∈ cfg.sqs then
        (r.fetchComplete i (cfg.cqOf i) statusCode cmdSpec).bind Except.toOption
      else none
  | .consume c => if c ∈ cfg.cqs then r.getCompletion c else none

/-- The queue pairs of a configuration under every interleaving. -/
def machine (cfg : RingsConfig) : Machine Rings RingsOp := ⟨Init cfg, step cfg⟩

/-- **The joint invariant is preserved by every step.** -/
theorem inv_step (hfit : cfg.HeadsFit) {r r' : Rings} {a : RingsOp} (h : Inv cfg r)
    (hs : step cfg r a = some r') : Inv cfg r' := by
  cases a with
  | post i command =>
      obtain ⟨hi, hp⟩ := Option.ite_none_right_eq_some.mp hs
      exact h.postCommand hi (toOption_eq_some hp)
  | fetchComplete i statusCode cmdSpec =>
      obtain ⟨hi, hp⟩ := Option.ite_none_right_eq_some.mp hs
      obtain ⟨x, hx, hr⟩ := Option.bind_eq_some_iff.mp hp
      rw [toOption_eq_some hr] at hx
      exact h.fetchComplete hfit hi hx
  | consume c =>
      obtain ⟨hc, hp⟩ := Option.ite_none_right_eq_some.mp hs
      exact h.getCompletion hc hp

theorem inv_reachable (hfit : cfg.HeadsFit) {r : Rings} (h : (machine cfg).Reachable r) :
    Inv cfg r :=
  Machine.Reachable.invariant (I := Inv cfg) (fun _ hi => inv_init hi)
    (fun _ _ _ _ hi hs => inv_step hfit hi hs) h

/-- The completions of a queue, counted by the submission queue they answer. -/
theorem Inv.length_pending {r : Rings} (h : Inv cfg r) {c : Nat} (hc : c ∈ cfg.cqs) :
    (r.pending c).length = ∑ i ∈ cfg.sqs with cfg.cqOf i = c, (r.pendingOf c i).length := by
  refine length_eq_sum_filter (fun cqe : CQE => cqe.SQID.toNat) ?_
  intro cqe hm
  rw [Finset.mem_filter]
  exact h.origin c hc cqe hm

/-- A flight is never longer than the slots behind it, one of which stays free. -/
theorem Inv.length_pendingOf_le {r : Rings} (h : Inv cfg r) {i : Nat} (hi : i ∈ cfg.sqs) :
    (r.pendingOf (cfg.cqOf i) i).length ≤ cfg.sqEntries i - 1 := by
  have hcount := h.count i hi
  have hle := (h.sq i hi).fetchLe
  have hgap := (h.sq i hi).gap
  omega

/-- **While a command waits to be fetched there is room for its completion.** -/
theorem Inv.room {r : Rings} (hroom : cfg.HasRoom) (h : Inv cfg r) {i : Nat} (hi : i ∈ cfg.sqs)
    (hwait : r.fetched i < (r.posted i).length) :
    (r.pending (cfg.cqOf i)).length + 1 ≤ cfg.cqEntries (cfg.cqOf i) - 1 := by
  have hc := RingsConfig.cqOf_mem hi
  refine Nat.le_trans ?_ (hroom _ hc)
  rw [h.length_pending hc]
  -- every flight fits its slots, and that of queue `i` leaves the waiting command's slot over
  refine Nat.succ_le_of_lt (Finset.sum_lt_sum ?_ ⟨i, Finset.mem_filter.mpr ⟨hi, rfl⟩, ?_⟩)
  · intro j hj
    obtain ⟨hj, hjc⟩ := Finset.mem_filter.mp hj
    rw [← hjc]
    exact h.length_pendingOf_le hj
  · have hcount := h.count i hi
    have hgap := (h.sq i hi).gap
    omega

/--
**Flow control.** If every completion queue has room for all slots of its submission
queues, no fetch-and-complete ever trips over a full completion queue.

A completion that is not consumed still holds the slot of its command, because the host's head
only moves when it is consumed. So the pending completions of a queue are at most the commands
that fit the submission queues behind it.
-/
theorem fetchComplete_ne_error (hfit : cfg.HeadsFit) (hroom : cfg.HasRoom) {r : Rings}
    (h : (machine cfg).Reachable r) {i : Nat} (hi : i ∈ cfg.sqs) (statusCode : Nat)
    (cmdSpec : BitVec 32) (e : Exc) :
    r.fetchComplete i (cfg.cqOf i) statusCode cmdSpec ≠ some (.error e) := by
  have hinv := inv_reachable hfit h
  have hc := RingsConfig.cqOf_mem hi
  intro hf
  unfold Rings.fetchComplete at hf
  dsimp only at hf
  rw [(hinv.simSqAt i hi).1, (hinv.simCqAt _ hc).1] at hf
  split at hf
  · exact absurd hf (by simp)
  · rename_i slot sq' hget
    obtain ⟨hwait, _⟩ := (hinv.sq i hi).fetch (cfg.sqEntries_le i hi) hget
    have hlen := hinv.room hroom hi hwait
    have hnf : (r.simCq (cfg.cqOf i)).isFull (r.CQHEAD (cfg.cqOf i)) = false := by
      rw [Bool.eq_false_iff, Ne, (hinv.cq _ hc).isFull_iff]
      rw [pending, List.length_drop] at hlen
      omega
    rw [NVSimCmdHandlerInterface.complete, NVMeCompletionQueue.postCompletion_ok hnf] at hf
    exact absurd hf (by simp)

theorem fetchComplete_ne_error_shared :
    ∃ r, (machine sharedConfig).run (start sharedConfig)
        [.post 1 {}, .post 2 {}, .fetchComplete 1 0 0] = some r
      ∧ r.fetchComplete 2 1 0 0 ≠ some (.error (.assertionError "CQ FULL")) :=
  ⟨_, rfl, @fetchComplete_ne_error sharedConfig (by decide) (by decide) _
    ((Machine.Reachable.start (init_start sharedConfig)).run
      [.post 1 {}, .post 2 {}, .fetchComplete 1 0 0] rfl) 2 (by decide) 0 0 _⟩

/-! ### One entry too many for `SQHD` -/

/-- One pair of queues of `65537` entries each. -/
def bigConfig : RingsConfig where
  sqs := {1}
  cqOf _ := 1
  sqEntries _ := 65537
  cqEntries _ := 65537
  sqBase i := i
  cqBase c := c
  sqEntries_pos := by decide
  cqEntries_pos := by decide
  sqEntries_le := by decide
  cqEntries_le := by decide
  sqid_lt := by decide
  sqBase_inj := by decide
  cqBase_inj := by decide

/-- All of `p` posted commands are completed, `c` completions are consumed, the host's head is `h`. -/
structure Overrun (p c h : Nat) (r : Rings) : Prop where
  hostSq : (r.hostSq 1).entries = 65537 ∧ (r.hostSq 1).qid = 1 ∧ (r.hostSq 1).baseAddress = 1
    ∧ (r.hostSq 1).head = h
  simSq : (r.simSq 1).entries = 65537 ∧ (r.simSq 1).qid = 1 ∧ (r.simSq 1).baseAddress = 1
    ∧ (r.simSq 1).head = p % 65537
  hostCq : (r.hostCq 1).qid = 1 ∧ (r.hostCq 1).baseAddress = 1
  simCq : (r.simCq 1).qid = 1 ∧ (r.simCq 1).baseAddress = 1
  tail : r.SQTAIL 1 = p % 65537
  cq : CqInv 65537 (r.cqRing 1) (r.CQHEAD 1) (r.hostCq 1) (r.simCq 1) (r.cposted 1) c
  completed : (r.cposted 1).length = p
  /-- The head goes through 16 bits. -/
  entries : ∀ (k : Nat) (cqe : CQE), (r.cposted 1)[k]? = some cqe →
    cqe.SQID.toNat = 1 ∧ cqe.SQHD.toNat = (k + 1) % 65537 % 65536

/-- The host posts as long as its own head does not stop it. -/
theorem Overrun.post {p c h : Nat} {r : Rings} (hr : Overrun p c h r) (hh : (p + 1) % 65537 ≠ h) :
    ∃ ring, r.postCommand 1 {} = .ok (r.withPost 1 ((p + 1) % 65537) ring {}) := by
  obtain ⟨hent, hqid, hbase, hhead⟩ := hr.hostSq
  have hnf : (r.hostSq 1).isFull (r.SQTAIL 1) = false := by
    rw [NVMeSubmissionQueue.isFull, NVMeQueue.isFull, hent, hr.tail, hhead,
      NVMeHeadTail.peek_eq_next, Ring.next_mod (by decide), beq_eq_false_iff_ne]
    exact hh
  refine ⟨Function.update (r.sqRing 1) (p % 65537) {}, ?_⟩
  unfold postCommand
  dsimp only
  rw [hqid, hbase, NVMeSubmissionQueue.postCommand_ok hnf, hent, hr.tail,
    NVMeHeadTail.advance_mod (by decide) (by decide)]

/-- After a post the simulator finds the command. -/
theorem Overrun.getCommand {p c h : Nat} {r : Rings} (hr : Overrun p c h r) :
    (r.simSq 1).getCommand ((p + 1) % 65537)
      = some (p % 65537, { r.simSq 1 with head := (p + 1) % 65537 }) := by
  obtain ⟨hent, _, _, hhead⟩ := hr.simSq
  have hnum : (r.simSq 1).numEntries ((p + 1) % 65537) ≠ 0 := by
    rw [NVMeSubmissionQueue.numEntries, hent, hhead,
      NVMeQueue.numEntries_window (Nat.le_succ p) (by omega)]
    omega
  simp only [NVMeSubmissionQueue.getCommand, if_neg hnum, hent, hhead,
    NVMeHeadTail.advance_mod (show 0 < 65537 by decide) (by decide)]

/-- After a post, fetching and completing goes the way of the completion queue's assertion. -/
theorem Overrun.fetchComplete {p c h : Nat} {r : Rings} (hr : Overrun p c h r)
    (ring : Nat → Generic) :
    ∃ cid, (r.withPost 1 ((p + 1) % 65537) ring {}).fetchComplete 1 1 0 0
      = some (((r.simCq 1).postCompletion (r.CQHEAD 1) (r.cqRing 1)
          (NVSimCmdHandlerInterface.completionEntry cid
            { r.simSq 1 with head := (p + 1) % 65537 } 0)).map
          fun after => (r.withPost 1 ((p + 1) % 65537) ring {}).withCompletion 1 1
            { r.simSq 1 with head := (p + 1) % 65537 } after.1 after.2
            (NVSimCmdHandlerInterface.completionEntry cid
              { r.simSq 1 with head := (p + 1) % 65537 } 0)) := by
  have hget : ((r.withPost 1 ((p + 1) % 65537) ring {}).simSq 1).getCommand
      ((r.withPost 1 ((p + 1) % 65537) ring {}).SQTAIL (r.simSq 1).qid)
      = some (p % 65537, { r.simSq 1 with head := (p + 1) % 65537 }) := by
    show (r.simSq 1).getCommand
      (Function.update r.SQTAIL (r.hostSq 1).qid ((p + 1) % 65537) (r.simSq 1).qid) = _
    rw [hr.hostSq.2.1, hr.simSq.2.1, Function.update_self]
    exact hr.getCommand
  refine ⟨((r.withPost 1 ((p + 1) % 65537) ring {}).sqRing (r.simSq 1).baseAddress
    (p % 65537)).CID, fetchComplete_eq hget ?_⟩
  show NVSimCmdHandlerInterface.complete _ _ _ (r.CQHEAD (r.simCq 1).qid)
    (r.cqRing (r.simCq 1).baseAddress) _ _ = _
  rw [hr.simCq.1, hr.simCq.2]
  rfl

/-- One more command through, as long as the completion queue has room. -/
theorem Overrun.push {p c h : Nat} {r : Rings} (hr : Overrun p c h r) (hh : (p + 1) % 65537 ≠ h)
    (hroom : p < c + 65536) :
    ∃ r', (machine bigConfig).run r [.post 1 {}, .fetchComplete 1 0 0] = some r'
      ∧ Overrun (p + 1) c h r' := by
  obtain ⟨ring, hpost⟩ := hr.post hh
  obtain ⟨cid, hfetch⟩ := hr.fetchComplete ring
  have hnf : (r.simCq 1).isFull (r.CQHEAD 1) = false := by
    rw [Bool.eq_false_iff, Ne, hr.cq.isFull_iff, hr.completed]
    omega
  obtain ⟨⟨cq', ring'⟩, hok⟩ : ∃ after, (r.simCq 1).postCompletion (r.CQHEAD 1) (r.cqRing 1)
      (NVSimCmdHandlerInterface.completionEntry cid
        { r.simSq 1 with head := (p + 1) % 65537 } 0) = .ok after :=
    ⟨_, NVMeCompletionQueue.postCompletion_ok hnf⟩
  rw [hok] at hfetch
  -- the new completion goes into the slot that the next one is read from
  have hcq' := hr.cq.post (by decide) hok
  have hslot := hr.cq.post_slot (by decide) hok
  have hobj := NVMeCompletionQueue.postCompletion_object hok
  refine ⟨_, by
    simp only [Machine.run, machine, step, if_pos (show 1 ∈ bigConfig.sqs by decide), hpost,
      Except.toOption, Option.bind_some, show bigConfig.cqOf 1 = 1 from rfl, hfetch, Except.map]
    rfl, ?_⟩
  -- what the history has of it is what lies in the slot
  have hlogged := slot_eq_logged (by rw [hr.simCq.2]; exact hok)
  rw [← hslot, hlogged] at hcq'
  constructor
  · exact hr.hostSq
  · exact ⟨hr.simSq.1, hr.simSq.2.1, hr.simSq.2.2.1, rfl⟩
  · exact hr.hostCq
  · rw [hobj]; exact hr.simCq
  · show Function.update r.SQTAIL (r.hostSq 1).qid _ 1 = _
    rw [hr.hostSq.2.1, Function.update_self]
  · show CqInv _ (Function.update r.cqRing (r.simCq 1).baseAddress ring' 1) _ _ _ _ _
    rw [hr.simCq.2, Function.update_self]
    exact hcq'
  · show (r.cposted 1 ++ [_]).length = p + 1
    rw [List.length_append, hr.completed]; rfl
  · intro k cqe hk
    change (r.cposted 1 ++ [r.logged 1 _])[k]? = some cqe at hk
    -- the new completion is the last
    rcases Nat.lt_or_ge k p with hlt | hge
    · rw [List.getElem?_append_left (by rw [hr.completed]; exact hlt)] at hk
      exact hr.entries k cqe hk
    · rw [List.getElem?_append_right (by rw [hr.completed]; exact hge), hr.completed,
        List.getElem?_singleton] at hk
      obtain ⟨hkp, hcqe⟩ := Option.ite_none_right_eq_some.mp hk
      have hkp : k = p := by omega
      rw [← Option.some.inj hcqe, logged, CQE.setP_SQID, CQE.setP_SQHD]
      refine ⟨?_, ?_⟩
      · show (BitVec.ofNat 16 (r.simSq 1).qid).toNat = 1
        rw [hr.simSq.2.1]; rfl
      · show (BitVec.ofNat 16 ((p + 1) % 65537)).toNat = _
        rw [BitVec.toNat_ofNat, hkp]

/-- The host consumes the oldest completion, and its head becomes what is left of its `SQHD`. -/
theorem Overrun.pop {p c h : Nat} {r : Rings} (hr : Overrun p c h r) (hlt : c < p) :
    ∃ r', (machine bigConfig).run r [.consume 1] = some r'
      ∧ Overrun p (c + 1) ((c + 1) % 65537 % 65536) r' := by
  have hlt' : c < (r.cposted 1).length := by rw [hr.completed]; exact hlt
  have hm : r.phaseMatch 1 = true := by
    rw [phaseMatch, nextCompletion, beq_iff_eq, hr.hostCq.1, hr.hostCq.2]
    exact hr.cq.match_iff.mpr hlt'
  have hnext : r.nextCompletion 1 = (r.cposted 1)[c] := by
    rw [nextCompletion, hr.hostCq.1, hr.hostCq.2]
    exact hr.cq.entry_head hlt'
  obtain ⟨hid, hhead⟩ := hr.entries c _ (List.getElem?_eq_getElem hlt')
  rw [← hnext] at hid hhead
  have hcq' := hr.cq.consume (by decide) hlt'
  refine ⟨_, by
    simp only [Machine.run, machine, step, getCompletion, hm, if_true, Option.bind_some,
      if_pos (show 1 ∈ bigConfig.cqs by decide)]
    rfl, ?_⟩
  -- the head goes where the entry says, in sixteen bits
  rw [hid, hhead]
  have hlt16 : (c + 1) % 65537 % 65536 < 65536 := Nat.mod_lt _ (by decide)
  constructor
  · show (Function.update r.hostSq 1 _ 1).entries = _ ∧ (Function.update r.hostSq 1 _ 1).qid = _
      ∧ (Function.update r.hostSq 1 _ 1).baseAddress = _
      ∧ (Function.update r.hostSq 1 ((r.hostSq 1).setHead _) 1).head = _
    rw [Function.update_self]
    exact ⟨hr.hostSq.1, hr.hostSq.2.1, hr.hostSq.2.2.1, u32_of_lt (by omega)⟩
  · exact hr.simSq
  · show (Function.update r.hostCq 1 (NVMeCompletionQueue.consumeCompletion _ _).1 1).qid = _
      ∧ (Function.update r.hostCq 1 (NVMeCompletionQueue.consumeCompletion _ _).1 1).baseAddress = _
    rw [Function.update_self, NVMeCompletionQueue.consumeCompletion_object]
    exact hr.hostCq
  · exact hr.simCq
  · exact hr.tail
  · show CqInv _ _ (Function.update r.CQHEAD _ _ 1)
      (Function.update r.hostCq 1 (NVMeCompletionQueue.consumeCompletion _ _).1 1) _ _ _
    rw [hr.hostCq.1, Function.update_self, Function.update_self]
    exact hcq'
  · exact hr.completed
  · exact hr.entries

/-- As long as `SQHD` holds the head, rounds of post, completion and consumption go on. -/
theorem exists_overrun_rounds (k : Nat) (hk : k ≤ 65535) :
    ∃ r, (machine bigConfig).Reachable r ∧ Overrun k k k r := by
  induction k with
  | zero =>
      refine ⟨start bigConfig, Machine.Reachable.start (init_start bigConfig), ?_⟩
      have hcq := (inv_init (init_start bigConfig)).cq 1 (by decide)
      exact ⟨⟨rfl, rfl, rfl, rfl⟩, ⟨rfl, rfl, rfl, rfl⟩, ⟨rfl, rfl⟩, ⟨rfl, rfl⟩, rfl, hcq, rfl,
        fun _ _ h => absurd h (by simp [start])⟩
  | succ k ih =>
      obtain ⟨r, hreach, hr⟩ := ih (by omega)
      obtain ⟨r', hrun, hr'⟩ := hr.push (by omega) (by omega)
      obtain ⟨r'', hrun', hr''⟩ := hr'.pop (by omega)
      have hh : (k + 1) % 65537 % 65536 = k + 1 := by omega
      rw [hh] at hr''
      exact ⟨r'', (hreach.run _ hrun).run _ hrun', hr''⟩

/-- With its head at `0` too early, the host goes on posting for a whole lap. -/
theorem exists_overrun_lap (k : Nat) (hk : k ≤ 65535) :
    ∃ r, (machine bigConfig).Reachable r ∧ Overrun (65537 + k) 65536 0 r := by
  induction k with
  | zero =>
      obtain ⟨r, hreach, hr⟩ := exists_overrun_rounds 65535 (Nat.le_refl _)
      obtain ⟨r₁, hrun₁, hr₁⟩ := hr.push (by decide) (by decide)
      obtain ⟨r₂, hrun₂, hr₂⟩ := hr₁.push (by decide) (by decide)
      obtain ⟨r₃, hrun₃, hr₃⟩ := hr₂.pop (by decide)
      exact ⟨r₃, ((hreach.run _ hrun₁).run _ hrun₂).run _ hrun₃, hr₃⟩
  | succ k ih =>
      obtain ⟨r, hreach, hr⟩ := ih (by omega)
      obtain ⟨r', hrun, hr'⟩ := hr.push (by omega) (by omega)
      exact ⟨r', hreach.run _ hrun, hr'⟩

/--
With `65537` entries the host's head wraps with `SQHD`, one slot early; the lap it
then gains is one completion more than the completion queue holds.
-/
theorem fetchComplete_eq_error_of_65537 :
    ¬ ∀ cfg : RingsConfig, cfg.HasRoom → ∀ r, (machine cfg).Reachable r → ∀ i ∈ cfg.sqs,
      ∀ statusCode cmdSpec e,
        r.fetchComplete i (cfg.cqOf i) statusCode cmdSpec ≠ some (.error e) := by
  intro hall
  obtain ⟨r, hreach, hr⟩ := exists_overrun_lap 65535 (Nat.le_refl _)
  obtain ⟨ring, hpost⟩ := hr.post (by decide)
  obtain ⟨cid, hfetch⟩ := hr.fetchComplete ring
  have hfull : (r.simCq 1).isFull (r.CQHEAD 1) = true := by
    rw [hr.cq.isFull_iff, hr.completed]
  rw [NVMeCompletionQueue.postCompletion_full hfull] at hfetch
  have hreach' : (machine bigConfig).Reachable
      (r.withPost 1 ((65537 + 65535 + 1) % 65537) ring {}) := by
    refine hreach.next (a := .post 1 {}) ?_
    show (if 1 ∈ bigConfig.sqs then (r.postCommand 1 {}).toOption else none) = _
    rw [if_pos (by decide), hpost]; rfl
  exact hall bigConfig (by decide) _ hreach' 1 (by decide) 0 0 _ hfetch

end Rings

end LoneNvme
