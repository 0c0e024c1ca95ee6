import LoneNvme.SubmissionRing
import LoneNvme.CompletionRing
import LoneNvme.Lib.Lists
import Mathlib.Algebra.BigOperators.Group.Finset.Basic

/-!
# Queue pairs side by side

Any number of submission queues, each paired with a completion queue that it may
share with others. A completion names its submission queue in `SQID`, and the host
moves the head of that queue to the completion's `SQHD`.

`RingsInv` is `SqInv` for every submission queue and `CqInv` for every completion
queue, tied together by the completions the host has not consumed: those that name
queue `i` are the flight of queue `i`, in order, and answer its commands in order.
-/

namespace LoneNvme

open Lib

/-- Which queues there are, how they are paired, and where their memory is. -/
structure RingsConfig where
  sqs : Finset Nat
  cqOf : Nat → Nat
  sqEntries : Nat → Nat
  cqEntries : Nat → Nat
  sqBase : Nat → Nat
  cqBase : Nat → Nat
  sqEntries_pos : ∀ i ∈ sqs, 0 < sqEntries i
  cqEntries_pos : ∀ i ∈ sqs, 0 < cqEntries (cqOf i)
  /-- A position fits the 32-bit cells. -/
  sqEntries_le : ∀ i ∈ sqs, sqEntries i ≤ 2 ^ 32
  cqEntries_le : ∀ i ∈ sqs, cqEntries (cqOf i) ≤ 2 ^ 32
  /-- An id fits `SQID`. -/
  sqid_lt : ∀ i ∈ sqs, i < 2 ^ 16
  /-- No two queues share memory. -/
  sqBase_inj : ∀ i ∈ sqs, ∀ j ∈ sqs, sqBase i = sqBase j → i = j
  cqBase_inj : ∀ i ∈ sqs, ∀ j ∈ sqs, cqBase (cqOf i) = cqBase (cqOf j) → cqOf i = cqOf j

namespace RingsConfig

/-- The completion queues in use. -/
def cqs (cfg : RingsConfig) : Finset Nat := cfg.sqs.image cfg.cqOf

theorem cqBase_eq {cfg : RingsConfig} {c d : Nat} (hc : c ∈ cfg.cqs) (hd : d ∈ cfg.cqs)
    (h : cfg.cqBase c = cfg.cqBase d) : c = d := by
  obtain ⟨i, hi, rfl⟩ := Finset.mem_image.mp hc
  obtain ⟨j, hj, rfl⟩ := Finset.mem_image.mp hd
  exact cfg.cqBase_inj i hi j hj h

theorem cqEntries_le_of_mem {cfg : RingsConfig} {c : Nat} (hc : c ∈ cfg.cqs) :
    cfg.cqEntries c ≤ 2 ^ 32 := by
  obtain ⟨i, hi, rfl⟩ := Finset.mem_image.mp hc
  exact cfg.cqEntries_le i hi

theorem cqOf_mem {cfg : RingsConfig} {i : Nat} (h : i ∈ cfg.sqs) : cfg.cqOf i ∈ cfg.cqs :=
  Finset.mem_image_of_mem _ h

/-- The sizes for which `SQHD` holds every position. -/
def HeadsFit (cfg : RingsConfig) : Prop := ∀ i ∈ cfg.sqs, cfg.sqEntries i ≤ 2 ^ 16

instance (cfg : RingsConfig) : Decidable cfg.HeadsFit :=
  inferInstanceAs (Decidable (∀ i ∈ cfg.sqs, cfg.sqEntries i ≤ 2 ^ 16))

end RingsConfig

/--
The memory host and simulator share, the queue objects of both, and the history.
Memory is found by base address, a doorbell by queue id, an object by its handle.
-/
structure Rings where
  sqRing : Nat → Nat → Generic
  cqRing : Nat → Nat → CQE
  SQTAIL : Nat → Nat
  CQHEAD : Nat → Nat
  hostSq : Nat → NVMeSubmissionQueue
  hostCq : Nat → NVMeCompletionQueue
  simSq : Nat → NVMeSubmissionQueue
  simCq : Nat → NVMeCompletionQueue
  /-- Per submission queue: all commands posted. -/
  posted : Nat → List Generic
  /-- Per submission queue: how many were fetched, and how many completions were consumed. -/
  fetched : Nat → Nat
  acked : Nat → Nat
  /-- Per completion queue: all entries posted, and how many were consumed. -/
  cposted : Nat → List CQE
  consumed : Nat → Nat

namespace Rings

/-- The effect of a post: doorbell, ring memory, history. -/
def withPost (r : Rings) (i sqtail : Nat) (ring : Nat → Generic) (command : Generic) : Rings :=
  { r with
    SQTAIL := Function.update r.SQTAIL (r.hostSq i).qid sqtail
    sqRing := Function.update r.sqRing (r.hostSq i).baseAddress ring
    posted := Function.update r.posted i (r.posted i ++ [command]) }

/-- The host's `sq.post_command` on the object `i`. -/
def postCommand (r : Rings) (i : Nat) (command : Generic) : Except Exc Rings :=
  let sq := r.hostSq i
  match sq.postCommand (r.SQTAIL sq.qid) (r.sqRing sq.baseAddress) command with
  | .ok (sqtail, ring) => .ok (r.withPost i sqtail ring command)
  | .error e => .error e

/-- The entry `get_next_completion` shows the host on the object `c`. -/
def nextCompletion (r : Rings) (c : Nat) : CQE :=
  let cq := r.hostCq c
  r.cqRing cq.baseAddress (cq.getNextCompletion (r.CQHEAD cq.qid))

/-- Whether its phase bit says it is new. -/
def phaseMatch (r : Rings) (c : Nat) : Bool := (r.nextCompletion c).SF.P == (r.hostCq c).phase

/-- `cq.consume_completion` on the object `c`. -/
def consumeCompletion (r : Rings) (c : Nat) : Rings :=
  let cq := r.hostCq c
  let after := cq.consumeCompletion (r.CQHEAD cq.qid)
  { r with
    hostCq := Function.update r.hostCq c after.1
    CQHEAD := Function.update r.CQHEAD cq.qid after.2
    consumed := Function.update r.consumed c (r.consumed c + 1) }

/-- `sq.head.set` on the object `i`. -/
def setHead (r : Rings) (i value : Nat) : Rings :=
  { r with
    hostSq := Function.update r.hostSq i ((r.hostSq i).setHead value)
    acked := Function.update r.acked i (r.acked i + 1) }

/-- What the host does with a new entry: consume it, and move the head of the queue it names. -/
def getCompletion (r : Rings) (c : Nat) : Option Rings :=
  let cqe := r.nextCompletion c
  if r.phaseMatch c then
    some ((r.consumeCompletion c).setHead cqe.SQID.toNat cqe.SQHD.toNat)
  else
    none

/--
What the history has of an entry handed to `post_completion` of the object `c`: that entry,
with the next phase bit. It does not depend on what the post puts into the slot.
-/
def logged (r : Rings) (c : Nat) (cqe : CQE) : CQE :=
  cqe.setP (NVMeCompletionQueue.nextPhase (r.cqRing (r.simCq c).baseAddress) (r.simCq c).tail)

/-- And that is what the post puts there. -/
theorem slot_eq_logged {r : Rings} {c cqhead : Nat} {cqe : CQE} {cq' : NVMeCompletionQueue}
    {ring : Nat → CQE} (h : (r.simCq c).postCompletion cqhead (r.cqRing (r.simCq c).baseAddress) cqe
      = .ok (cq', ring)) : ring (r.simCq c).tail = r.logged c cqe := by
  rw [NVMeCompletionQueue.postCompletion_ok (NVMeCompletionQueue.postCompletion_room h)] at h
  rw [← (Prod.mk.inj (Except.ok.inj h)).2, Function.update_self]
  rfl

/-- The effect of a fetch and its completion: both objects, ring memory, history. -/
def withCompletion (r : Rings) (i c : Nat) (sq : NVMeSubmissionQueue) (cq : NVMeCompletionQueue)
    (ring : Nat → CQE) (cqe : CQE) : Rings :=
  { r with
    simSq := Function.update r.simSq i sq
    fetched := Function.update r.fetched i (r.fetched i + 1)
    simCq := Function.update r.simCq c cq
    cqRing := Function.update r.cqRing (r.simCq c).baseAddress ring
    cposted := Function.update r.cposted c (r.cposted c ++ [r.logged c cqe]) }

/-- The simulator fetches from its object `i` and completes to its object `c`, if there is work. -/
def fetchComplete (r : Rings) (i c statusCode : Nat) (cmdSpec : BitVec 32) :
    Option (Except Exc Rings) :=
  let sq := r.simSq i
  let cq := r.simCq c
  match sq.getCommand (r.SQTAIL sq.qid) with
  | none => none
  | some (slot, sq') =>
      let cid := (r.sqRing sq.baseAddress slot).CID
      match NVSimCmdHandlerInterface.complete cid sq' cq (r.CQHEAD cq.qid)
          (r.cqRing cq.baseAddress) statusCode cmdSpec with
      | .ok (cq', ring) => some (.ok (r.withCompletion i c sq' cq' ring
          (NVSimCmdHandlerInterface.completionEntry cid sq' statusCode cmdSpec)))
      | .error e => some (.error e)

/-- The completions of queue `c` the host has not consumed, oldest first. -/
def pending (r : Rings) (c : Nat) : List CQE := (r.cposted c).drop (r.consumed c)

/-- Those among them that answer queue `i`. -/
def pendingOf (r : Rings) (c i : Nat) : List CQE :=
  (r.pending c).filter fun cqe => cqe.SQID.toNat = i

/-- **The joint invariant of all queue pairs.** -/
structure Inv (cfg : RingsConfig) (r : Rings) : Prop where
  hostSqAt : ∀ i ∈ cfg.sqs, (r.hostSq i).qid = i ∧ (r.hostSq i).baseAddress = cfg.sqBase i
  simSqAt : ∀ i ∈ cfg.sqs, (r.simSq i).qid = i ∧ (r.simSq i).baseAddress = cfg.sqBase i
  hostCqAt : ∀ c ∈ cfg.cqs, (r.hostCq c).qid = c ∧ (r.hostCq c).baseAddress = cfg.cqBase c
  simCqAt : ∀ c ∈ cfg.cqs, (r.simCq c).qid = c ∧ (r.simCq c).baseAddress = cfg.cqBase c
  sq : ∀ i ∈ cfg.sqs, SqInv (cfg.sqEntries i) (r.sqRing (cfg.sqBase i)) (r.SQTAIL i)
    (r.hostSq i) (r.simSq i) (r.posted i) (r.fetched i) (r.acked i)
  cq : ∀ c ∈ cfg.cqs, CqInv (cfg.cqEntries c) (r.cqRing (cfg.cqBase c)) (r.CQHEAD c)
    (r.hostCq c) (r.simCq c) (r.cposted c) (r.consumed c)
  /-- Every pending completion names a queue that completes here. -/
  origin : ∀ c ∈ cfg.cqs, ∀ cqe ∈ r.pending c,
    cqe.SQID.toNat ∈ cfg.sqs ∧ cfg.cqOf cqe.SQID.toNat = c
  /-- What was fetched is acknowledged or on its way back. -/
  count : ∀ i ∈ cfg.sqs, r.fetched i = r.acked i + (r.pendingOf (cfg.cqOf i) i).length
  flight : ∀ i ∈ cfg.sqs, Flight (cfg.sqEntries i) (r.pendingOf (cfg.cqOf i) i) (r.acked i)
  /-- The completions on their way answer the oldest unacknowledged commands, in order. -/
  cids : ∀ i ∈ cfg.sqs, (r.pendingOf (cfg.cqOf i) i).map CQE.CID
    <+: ((r.posted i).drop (r.acked i)).map Generic.CID

/-! ### What each operation does -/

theorem postCommand_spec {r r' : Rings} {i : Nat} {command : Generic}
    (h : r.postCommand i command = .ok r') :
    ∃ sqtail ring, (r.hostSq i).postCommand (r.SQTAIL (r.hostSq i).qid)
        (r.sqRing (r.hostSq i).baseAddress) command = .ok (sqtail, ring)
      ∧ r' = r.withPost i sqtail ring command := by
  unfold postCommand at h
  dsimp only at h
  split at h
  · rename_i sqtail ring hok
    exact ⟨sqtail, ring, hok, (Except.ok.inj h).symm⟩
  · exact absurd h (by simp)

theorem postCommand_hostSq {r r' : Rings} {i : Nat} {command : Generic}
    (h : r.postCommand i command = .ok r') : r'.hostSq = r.hostSq := by
  obtain ⟨_, _, _, rfl⟩ := postCommand_spec h
  rfl

theorem fetchComplete_spec {r r' : Rings} {i c statusCode : Nat} {cmdSpec : BitVec 32}
    (h : r.fetchComplete i c statusCode cmdSpec = some (.ok r')) :
    ∃ slot sq' cq' ring, (r.simSq i).getCommand (r.SQTAIL (r.simSq i).qid) = some (slot, sq')
      ∧ NVSimCmdHandlerInterface.complete (r.sqRing (r.simSq i).baseAddress slot).CID sq' (r.simCq c)
          (r.CQHEAD (r.simCq c).qid) (r.cqRing (r.simCq c).baseAddress) statusCode cmdSpec
          = .ok (cq', ring)
      ∧ r' = r.withCompletion i c sq' cq' ring (NVSimCmdHandlerInterface.completionEntry
          (r.sqRing (r.simSq i).baseAddress slot).CID sq' statusCode cmdSpec) := by
  unfold fetchComplete at h
  dsimp only at h
  split at h
  · exact absurd h (by simp)
  · rename_i slot sq' hget
    split at h
    · rename_i cq' ring hok
      exact ⟨slot, sq', cq', ring, hget, hok, (Except.ok.inj (Option.some.inj h)).symm⟩
    · exact absurd h (by simp)

/-- The two parts of a fetch-and-complete, put together. -/
theorem fetchComplete_eq {r : Rings} {i c statusCode slot : Nat} {cmdSpec : BitVec 32}
    {sq' : NVMeSubmissionQueue} {x : Except Exc (NVMeCompletionQueue × (Nat → CQE))}
    (hget : (r.simSq i).getCommand (r.SQTAIL (r.simSq i).qid) = some (slot, sq'))
    (hx : NVSimCmdHandlerInterface.complete (r.sqRing (r.simSq i).baseAddress slot).CID sq'
      (r.simCq c) (r.CQHEAD (r.simCq c).qid) (r.cqRing (r.simCq c).baseAddress) statusCode cmdSpec
      = x) :
    r.fetchComplete i c statusCode cmdSpec
      = some (x.map fun after => r.withCompletion i c sq' after.1 after.2
          (NVSimCmdHandlerInterface.completionEntry (r.sqRing (r.simSq i).baseAddress slot).CID sq'
            statusCode cmdSpec)) := by
  unfold fetchComplete
  dsimp only
  rw [hget]
  dsimp only
  rw [hx]
  cases x <;> rfl

theorem getCompletion_spec {r r' : Rings} {c : Nat} (h : r.getCompletion c = some r') :
    r.phaseMatch c = true
      ∧ r' = (r.consumeCompletion c).setHead (r.nextCompletion c).SQID.toNat
          (r.nextCompletion c).SQHD.toNat := by
  obtain ⟨hm, he⟩ := Option.ite_none_right_eq_some.mp h
  exact ⟨hm, (Option.some.inj he).symm⟩

/-! ### The invariant, operation by operation -/

variable {cfg : RingsConfig}

/-- Fresh queues, host and simulator alike, over memory whose phase bits are all `0`. -/
structure Init (cfg : RingsConfig) (r : Rings) : Prop where
  hostSqAt : ∀ i ∈ cfg.sqs, (r.hostSq i).qid = i ∧ (r.hostSq i).baseAddress = cfg.sqBase i
  simSqAt : ∀ i ∈ cfg.sqs, (r.simSq i).qid = i ∧ (r.simSq i).baseAddress = cfg.sqBase i
  hostCqAt : ∀ c ∈ cfg.cqs, (r.hostCq c).qid = c ∧ (r.hostCq c).baseAddress = cfg.cqBase c
  simCqAt : ∀ c ∈ cfg.cqs, (r.simCq c).qid = c ∧ (r.simCq c).baseAddress = cfg.cqBase c
  sqEntries : ∀ i ∈ cfg.sqs, (r.hostSq i).entries = cfg.sqEntries i
    ∧ (r.simSq i).entries = cfg.sqEntries i
  cqEntries : ∀ c ∈ cfg.cqs, (r.hostCq c).entries = cfg.cqEntries c
    ∧ (r.simCq c).entries = cfg.cqEntries c
  sqHeads : ∀ i ∈ cfg.sqs, (r.hostSq i).head = 0 ∧ (r.simSq i).head = 0
  cqTails : ∀ c ∈ cfg.cqs, (r.simCq c).tail = 0 ∧ (r.hostCq c).phase = 1
  doorbells : ∀ q, r.SQTAIL q = 0 ∧ r.CQHEAD q = 0
  blank : ∀ c ∈ cfg.cqs, ∀ j, j < cfg.cqEntries c → (r.cqRing (cfg.cqBase c) j).SF.P = 0
  posted : ∀ i, r.posted i = [] ∧ r.fetched i = 0 ∧ r.acked i = 0
  cposted : ∀ c, r.cposted c = [] ∧ r.consumed c = 0

theorem inv_init {r : Rings} (h : Init cfg r) : Inv cfg r := by
  -- nothing was completed yet
  have hpend : ∀ c, r.pending c = [] := fun c => by rw [pending, (h.cposted c).1, List.drop_nil]
  have hpendOf : ∀ c i, r.pendingOf c i = [] := fun c i => by
    rw [pendingOf, hpend, List.filter_nil]
  refine ⟨h.hostSqAt, h.simSqAt, h.hostCqAt, h.simCqAt, ?_, ?_, ?_, ?_, ?_, ?_⟩
  · intro i hi
    obtain ⟨hp, hf, ha⟩ := h.posted i
    rw [(h.doorbells i).1, hp, hf, ha]
    exact SqInv.init (cfg.sqEntries_pos i hi) (h.sqEntries i hi).1 (h.sqEntries i hi).2
      (h.sqHeads i hi).1 (h.sqHeads i hi).2 _
  · intro c hc
    obtain ⟨hp, hd⟩ := h.cposted c
    have hpos : 0 < cfg.cqEntries c := by
      obtain ⟨i, hi, rfl⟩ := Finset.mem_image.mp hc
      exact cfg.cqEntries_pos i hi
    rw [(h.doorbells c).2, hp, hd]
    exact CqInv.init hpos (h.cqEntries c hc).1 (h.cqEntries c hc).2 (h.cqTails c hc).1
      (h.cqTails c hc).2 (h.blank c hc)
  · intro c _ cqe hm
    rw [hpend] at hm; exact absurd hm (by simp)
  · intro i _
    rw [hpendOf, (h.posted i).2.1, (h.posted i).2.2]; rfl
  · intro i _
    rw [hpendOf]; exact Flight.nil _ _
  · intro i _
    rw [hpendOf]; exact List.nil_prefix

/-- **Posting a command** touches the memory, doorbell and history of its own queue only. -/
theorem Inv.postCommand {r r' : Rings} (h : Inv cfg r) {i : Nat} (hi : i ∈ cfg.sqs)
    {command : Generic} (hok : r.postCommand i command = .ok r') : Inv cfg r' := by
  obtain ⟨sqtail, ring, hpost, rfl⟩ := postCommand_spec hok
  rw [(h.hostSqAt i hi).1, (h.hostSqAt i hi).2] at hpost
  refine ⟨h.hostSqAt, h.simSqAt, h.hostCqAt, h.simCqAt, ?_, h.cq, h.origin, h.count, h.flight, ?_⟩
  · intro j hj
    dsimp only [withPost]
    rw [(h.hostSqAt i hi).1, (h.hostSqAt i hi).2]
    by_cases hji : j = i
    · subst hji
      rw [Function.update_self, Function.update_self, Function.update_self]
      exact (h.sq j hj).post (cfg.sqEntries_le j hj) hpost
    · -- another queue has another ring
      have hbase : cfg.sqBase j ≠ cfg.sqBase i := fun he => hji (cfg.sqBase_inj j hj i hi he)
      rw [Function.update_of_ne hbase, Function.update_of_ne hji, Function.update_of_ne hji]
      exact h.sq j hj
  · intro j hj
    refine (h.cids j hj).trans ?_
    dsimp only [withPost]
    by_cases hji : j = i
    · subst hji
      have hle := Nat.le_trans (h.sq j hj).ackLe (h.sq j hj).fetchLe
      rw [Function.update_self, List.drop_append_of_le_length hle, List.map_append]
      exact List.prefix_append _ _
    · rw [Function.update_of_ne hji]

/-- The completions still pending after one more is posted to queue `c`. -/
theorem pending_push {r : Rings} {c : Nat} {cqe : CQE} (hle : r.consumed c ≤ (r.cposted c).length)
    (r' : Rings) (hp : r'.cposted = Function.update r.cposted c (r.cposted c ++ [cqe]))
    (hc : r'.consumed = r.consumed) (d : Nat) :
    r'.pending d = if d = c then r.pending c ++ [cqe] else r.pending d := by
  unfold pending
  rw [hp, hc]
  by_cases hd : d = c
  · subst hd
    rw [if_pos rfl, Function.update_self, List.drop_append_of_le_length hle]
  · rw [if_neg hd, Function.update_of_ne hd]

/-- The same, by the queue the completion names. -/
theorem pendingOf_push {r : Rings} {c : Nat} {cqe : CQE}
    (hle : r.consumed c ≤ (r.cposted c).length) (r' : Rings)
    (hp : r'.cposted = Function.update r.cposted c (r.cposted c ++ [cqe]))
    (hc : r'.consumed = r.consumed) (d j : Nat) :
    r'.pendingOf d j =
      if d = c ∧ cqe.SQID.toNat = j then r.pendingOf d j ++ [cqe] else r.pendingOf d j := by
  unfold pendingOf
  rw [pending_push hle r' hp hc]
  by_cases hd : d = c
  · subst hd
    rw [if_pos rfl, List.filter_append]
    by_cases hj : cqe.SQID.toNat = j
    · rw [if_pos ⟨rfl, hj⟩, List.filter_cons_of_pos (by simpa using hj), List.filter_nil]
    · rw [if_neg (fun h => hj h.2), List.filter_cons_of_neg (by simpa using hj), List.filter_nil,
        List.append_nil]
  · rw [if_neg hd, if_neg (fun h => hd h.1)]

/--
What a fetch-and-complete with the entry `given` leaves of one queue pair, and how the
entry lies in its ring.
-/
structure Completed (cfg : RingsConfig) (r : Rings) (i : Nat) (sq' : NVMeSubmissionQueue)
    (cq' : NVMeCompletionQueue) (ring : Nat → CQE) (given cqe : CQE) : Prop where
  entry : ring (r.simCq (cfg.cqOf i)).tail = cqe
  logged : r.logged (cfg.cqOf i) given = cqe
  sqAt : sq'.qid = i ∧ sq'.baseAddress = cfg.sqBase i
  cqAt : cq'.qid = cfg.cqOf i ∧ cq'.baseAddress = cfg.cqBase (cfg.cqOf i)
  sq : SqInv (cfg.sqEntries i) (r.sqRing (cfg.sqBase i)) (r.SQTAIL i) (r.hostSq i) sq' (r.posted i)
    (r.fetched i + 1) (r.acked i)
  cq : CqInv (cfg.cqEntries (cfg.cqOf i)) ring (r.CQHEAD (cfg.cqOf i)) (r.hostCq (cfg.cqOf i)) cq'
    (r.cposted (cfg.cqOf i) ++ [cqe]) (r.consumed (cfg.cqOf i))
  names : cqe.SQID.toNat = i
  head : cqe.SQHD.toNat = (r.fetched i + 1) % cfg.sqEntries i
  answers : ((r.posted i)[r.fetched i]?).map Generic.CID = some cqe.CID

theorem Inv.completed (hfit : cfg.HeadsFit) {r : Rings} (h : Inv cfg r) {i : Nat} (hi : i ∈ cfg.sqs)
    {statusCode slot : Nat} {cmdSpec : BitVec 32} {sq' : NVMeSubmissionQueue}
    {cq' : NVMeCompletionQueue} {ring : Nat → CQE}
    (hget : (r.simSq i).getCommand (r.SQTAIL (r.simSq i).qid) = some (slot, sq'))
    (hpost : NVSimCmdHandlerInterface.complete (r.sqRing (r.simSq i).baseAddress slot).CID sq'
      (r.simCq (cfg.cqOf i)) (r.CQHEAD (r.simCq (cfg.cqOf i)).qid)
      (r.cqRing (r.simCq (cfg.cqOf i)).baseAddress) statusCode cmdSpec = .ok (cq', ring)) :
    ∃ cqe, Completed cfg r i sq' cq' ring (NVSimCmdHandlerInterface.completionEntry
      (r.sqRing (r.simSq i).baseAddress slot).CID sq' statusCode cmdSpec) cqe := by
  have hc := RingsConfig.cqOf_mem hi
  have h32 := RingsConfig.cqEntries_le_of_mem hc
  have hsq := h.sq i hi
  have hcq := h.cq _ hc
  have hlogged := slot_eq_logged hpost
  rw [(h.simSqAt i hi).1] at hget
  rw [(h.simSqAt i hi).2, (h.simCqAt _ hc).1, (h.simCqAt _ hc).2] at hpost
  obtain ⟨hlt, hslot, hqid, hbase, hsq'⟩ := hsq.fetch (cfg.sqEntries_le i hi) hget
  rw [(h.simSqAt i hi).1] at hqid
  rw [(h.simSqAt i hi).2] at hbase
  rw [hslot, hsq.slot hlt hsq.ackLe] at hpost
  -- the entry as it lies in the completion ring
  have hentry := hcq.post_slot h32 hpost
  have hcq' := hcq.post h32 hpost
  rw [← hentry] at hcq'
  have hobj := NVMeCompletionQueue.postCompletion_object hpost
  refine ⟨_, rfl, hlogged.symm, ⟨hqid, hbase⟩, ?_, hsq', hcq', ?_, ?_, ?_⟩
  · rw [hobj]
    exact h.simCqAt _ hc
  · rw [hentry, CQE.setP_SQID]
    show (BitVec.ofNat 16 sq'.qid).toNat = i
    rw [BitVec.toNat_ofNat, hqid, Nat.mod_eq_of_lt (cfg.sqid_lt i hi)]
  · have hlt' : (r.fetched i + 1) % cfg.sqEntries i < cfg.sqEntries i := Nat.mod_lt _ hsq.pos
    have hfits := hfit i hi
    rw [hentry, CQE.setP_SQHD, NVSimCmdHandlerInterface.completionEntry_SQHD
      (by rw [hsq'.simHead]; omega), hsq'.simHead]
  · rw [hentry, List.getElem?_eq_getElem hlt]
    rfl

/-- **Fetching and completing** moves one command of its queue into that queue's flight. -/
theorem Inv.fetchComplete (hfit : cfg.HeadsFit) {r r' : Rings} (h : Inv cfg r) {i : Nat}
    (hi : i ∈ cfg.sqs) {statusCode : Nat} {cmdSpec : BitVec 32}
    (hok : r.fetchComplete i (cfg.cqOf i) statusCode cmdSpec = some (.ok r')) : Inv cfg r' := by
  obtain ⟨slot, sq', cq', ring, hget, hpost, hr'⟩ := fetchComplete_spec hok
  obtain ⟨cqe, hdone⟩ := h.completed hfit hi hget hpost
  have hc := RingsConfig.cqOf_mem hi
  have hid := hdone.names
  -- what is pending afterwards, queue by queue
  have hcposted : r'.cposted = Function.update r.cposted (cfg.cqOf i)
      (r.cposted (cfg.cqOf i) ++ [cqe]) := by rw [hr', ← hdone.logged]; rfl
  have hpend := pending_push (h.cq _ hc).le r' hcposted (by rw [hr']; rfl)
  have hpendOf := pendingOf_push (h.cq _ hc).le r' hcposted (by rw [hr']; rfl)
  subst hr'
  refine ⟨h.hostSqAt, ?_, h.hostCqAt, ?_, ?_, ?_, ?_, ?_, ?_, ?_⟩
  · intro j hj
    dsimp only [withCompletion]
    by_cases hji : j = i
    · subst hji; rw [Function.update_self]; exact hdone.sqAt
    · rw [Function.update_of_ne hji]; exact h.simSqAt j hj
  · intro d hd
    dsimp only [withCompletion]
    by_cases hdc : d = cfg.cqOf i
    · subst hdc; rw [Function.update_self]; exact hdone.cqAt
    · rw [Function.update_of_ne hdc]; exact h.simCqAt d hd
  · intro j hj
    dsimp only [withCompletion]
    by_cases hji : j = i
    · subst hji; rw [Function.update_self, Function.update_self]; exact hdone.sq
    · rw [Function.update_of_ne hji, Function.update_of_ne hji]; exact h.sq j hj
  · intro d hd
    dsimp only [withCompletion]
    rw [(h.simCqAt _ hc).2]
    by_cases hdc : d = cfg.cqOf i
    · subst hdc
      rw [Function.update_self, Function.update_self, Function.update_self, hdone.logged]
      exact hdone.cq
    · have hb : cfg.cqBase d ≠ cfg.cqBase (cfg.cqOf i) := fun hb =>
        hdc (RingsConfig.cqBase_eq hd hc hb)
      rw [Function.update_of_ne hb, Function.update_of_ne hdc, Function.update_of_ne hdc]
      exact h.cq d hd
  · intro d hd e hm
    rw [hpend] at hm
    by_cases hdc : d = cfg.cqOf i
    · subst hdc
      rw [if_pos rfl] at hm
      rcases List.mem_append.mp hm with hm | hm
      · exact h.origin _ hd e hm
      · rw [List.mem_singleton.mp hm, hid]; exact ⟨hi, rfl⟩
    · rw [if_neg hdc] at hm; exact h.origin d hd e hm
  · intro j hj
    rw [hpendOf]
    dsimp only [withCompletion]
    by_cases hji : j = i
    · subst hji
      rw [if_pos ⟨rfl, hid⟩, Function.update_self, List.length_append, h.count j hj]; rfl
    · rw [if_neg (fun hc => hji (hc.2.symm.trans hid)), Function.update_of_ne hji]
      exact h.count j hj
  · intro j hj
    rw [hpendOf]
    by_cases hji : j = i
    · subst hji
      rw [if_pos ⟨rfl, hid⟩]
      exact (h.flight j hj).push (by rw [hdone.head, h.count j hj])
    · rw [if_neg (fun hc => hji (hc.2.symm.trans hid))]
      exact h.flight j hj
  · intro j hj
    rw [hpendOf]
    by_cases hji : j = i
    · subst hji
      rw [if_pos ⟨rfl, hid⟩, List.map_append]
      -- the command just fetched is the next unanswered one
      refine prefix_snoc (h.cids j hj) ?_
      rw [List.length_map, List.getElem?_map, List.getElem?_drop, ← h.count j hj]
      exact hdone.answers
    · rw [if_neg (fun hc => hji (hc.2.symm.trans hid))]
      exact h.cids j hj

/-- The host sees a new entry exactly when one is pending. -/
theorem Inv.phaseMatch_iff {r : Rings} (h : Inv cfg r) {c : Nat} (hc : c ∈ cfg.cqs) :
    r.phaseMatch c = true ↔ r.pending c ≠ [] := by
  have hm := (h.cq c hc).match_iff
  have hle := (h.cq c hc).le
  rw [phaseMatch, nextCompletion, beq_iff_eq, (h.hostCqAt c hc).1, (h.hostCqAt c hc).2, hm, pending,
    Ne, List.drop_eq_nil_iff]
  omega

/-- On a match the entry shown is the oldest pending one. -/
theorem Inv.pending_eq_cons {r : Rings} (h : Inv cfg r) {c : Nat} (hc : c ∈ cfg.cqs)
    (hm : r.phaseMatch c = true) :
    r.pending c = r.nextCompletion c :: (r.cposted c).drop (r.consumed c + 1) := by
  have hlt : r.consumed c < (r.cposted c).length := by
    have hne := (h.phaseMatch_iff hc).mp hm
    rw [pending, Ne, List.drop_eq_nil_iff] at hne
    omega
  have hentry := (h.cq c hc).entry_head hlt
  rw [nextCompletion, (h.hostCqAt c hc).1, (h.hostCqAt c hc).2, hentry]
  exact List.drop_eq_getElem_cons hlt

/-- The queue a consumed completion names has one less pending. -/
theorem pendingOf_consume_self {r : Rings} {c : Nat} {cqe : CQE}
    (hcons : r.pending c = cqe :: (r.cposted c).drop (r.consumed c + 1)) (i value : Nat) :
    r.pendingOf c cqe.SQID.toNat
      = cqe :: ((r.consumeCompletion c).setHead i value).pendingOf c cqe.SQID.toNat := by
  have hdrop : ((r.consumeCompletion c).setHead i value).pending c
      = (r.cposted c).drop (r.consumed c + 1) := by
    show (r.cposted c).drop (Function.update r.consumed c (r.consumed c + 1) c) = _
    rw [Function.update_self]
  rw [pendingOf, pendingOf, hdrop, hcons, List.filter_cons_of_pos (by simp)]

/-- The others have what they had, on whichever completion queue. -/
theorem pendingOf_consume_other {r : Rings} {c : Nat} {cqe : CQE}
    (hcons : r.pending c = cqe :: (r.cposted c).drop (r.consumed c + 1)) (i value d : Nat)
    {j : Nat} (hj : j ≠ cqe.SQID.toNat) :
    ((r.consumeCompletion c).setHead i value).pendingOf d j = r.pendingOf d j := by
  show ((r.cposted d).drop (Function.update r.consumed c (r.consumed c + 1) d)).filter _ = _
  by_cases hd : d = c
  · subst hd
    rw [Function.update_self, pendingOf, hcons,
      List.filter_cons_of_neg (by simpa using fun he => hj he.symm)]
  · rw [Function.update_of_ne hd]
    rfl

/-- **Consuming a new entry** acknowledges the oldest unacknowledged command of the queue it names. -/
theorem Inv.getCompletion {r r' : Rings} (h : Inv cfg r) {c : Nat} (hc : c ∈ cfg.cqs)
    (hok : r.getCompletion c = some r') : Inv cfg r' := by
  obtain ⟨hm, rfl⟩ := getCompletion_spec hok
  have hcons := h.pending_eq_cons hc hm
  obtain ⟨hi, hic⟩ := h.origin c hc (r.nextCompletion c) (by rw [hcons]; exact List.mem_cons_self)
  generalize r.nextCompletion c = cqe at hcons hi hic ⊢
  have hself := pendingOf_consume_self hcons cqe.SQID.toNat cqe.SQHD.toNat
  have hrest := pendingOf_consume_other hcons cqe.SQID.toNat cqe.SQHD.toNat
  have hlt : r.consumed c < (r.cposted c).length := by
    have hne := (h.phaseMatch_iff hc).mp hm
    rw [pending, Ne, List.drop_eq_nil_iff] at hne
    omega
  have hcq' := (h.cq _ hc).consume (RingsConfig.cqEntries_le_of_mem hc) hlt
  generalize cqe.SQID.toNat = i at hi hic hself hrest ⊢
  subst hic
  -- the flight of queue `i` loses its first completion, the others stay as they are
  have hfl := h.flight i hi
  have hcount := h.count i hi
  have hcids := h.cids i hi
  rw [hself] at hfl hcount hcids
  rw [List.length_cons] at hcount
  have hsq' : SqInv (cfg.sqEntries i) (r.sqRing (cfg.sqBase i)) (r.SQTAIL i)
      ((r.hostSq i).setHead cqe.SQHD.toNat) (r.simSq i) (r.posted i) (r.fetched i)
      (r.acked i + 1) := (h.sq i hi).ack (cfg.sqEntries_le i hi) hfl.head (by omega) (by omega)
  refine ⟨?_, h.simSqAt, ?_, h.simCqAt, ?_, ?_, ?_, ?_, ?_, ?_⟩
  · intro j hj
    show (Function.update r.hostSq i _ j).qid = j ∧ (Function.update r.hostSq i _ j).baseAddress = _
    by_cases hji : j = i
    · subst hji; rw [Function.update_self]; exact h.hostSqAt j hj
    · rw [Function.update_of_ne hji]; exact h.hostSqAt j hj
  · intro d hd
    show (Function.update r.hostCq _ (NVMeCompletionQueue.consumeCompletion _ _).1 d).qid = d
      ∧ (Function.update r.hostCq _ (NVMeCompletionQueue.consumeCompletion _ _).1 d).baseAddress = _
    by_cases hdc : d = cfg.cqOf i
    · subst hdc
      rw [Function.update_self, NVMeCompletionQueue.consumeCompletion_object]
      exact h.hostCqAt _ hd
    · rw [Function.update_of_ne hdc]; exact h.hostCqAt d hd
  · intro j hj
    show SqInv _ _ _ (Function.update r.hostSq i _ j) _ _ _ (Function.update r.acked i _ j)
    by_cases hji : j = i
    · subst hji; rw [Function.update_self, Function.update_self]; exact hsq'
    · rw [Function.update_of_ne hji, Function.update_of_ne hji]; exact h.sq j hj
  · intro d hd
    show CqInv _ _ (Function.update r.CQHEAD _ _ d) (Function.update r.hostCq _ _ d) _ _
      (Function.update r.consumed _ _ d)
    rw [(h.hostCqAt _ hc).1]
    by_cases hdc : d = cfg.cqOf i
    · subst hdc
      rw [Function.update_self, Function.update_self, Function.update_self]
      exact hcq'
    · rw [Function.update_of_ne hdc, Function.update_of_ne hdc, Function.update_of_ne hdc]
      exact h.cq d hd
  · intro d hd e hm
    refine h.origin d hd e ?_
    change e ∈ (r.cposted d).drop (Function.update r.consumed _ _ d) at hm
    by_cases hdc : d = cfg.cqOf i
    · subst hdc
      rw [Function.update_self] at hm
      rw [hcons]
      exact List.mem_cons_of_mem _ hm
    · rw [Function.update_of_ne hdc] at hm; exact hm
  · intro j hj
    show r.fetched j = Function.update r.acked i (r.acked i + 1) j + _
    by_cases hji : j = i
    · subst hji
      rw [Function.update_self]
      omega
    · rw [Function.update_of_ne hji, hrest _ hji]; exact h.count j hj
  · intro j hj
    show Flight _ _ (Function.update r.acked i _ j)
    by_cases hji : j = i
    · subst hji; rw [Function.update_self]; exact hfl.pop
    · rw [Function.update_of_ne hji, hrest _ hji]; exact h.flight j hj
  · intro j hj
    show _ <+: ((r.posted j).drop (Function.update r.acked i _ j)).map Generic.CID
    by_cases hji : j = i
    · subst hji
      rw [Function.update_self]
      have htail := hcids.drop 1
      rw [List.map_cons, List.drop_succ_cons, List.drop_zero, ← List.map_drop,
        List.drop_drop] at htail
      exact htail
    · rw [Function.update_of_ne hji, hrest _ hji]; exact h.cids j hj

/-- The queues of a configuration as both sides create them, over zeroed memory. -/
def start (cfg : RingsConfig) : Rings where
  sqRing _ _ := {}
  cqRing _ _ := {}
  SQTAIL _ := 0
  CQHEAD _ := 0
  hostSq i := { baseAddress := cfg.sqBase i, entries := cfg.sqEntries i, entrySize := 64, qid := i }
  hostCq c := { baseAddress := cfg.cqBase c, entries := cfg.cqEntries c, entrySize := 16, qid := c }
  simSq i := { baseAddress := cfg.sqBase i, entries := cfg.sqEntries i, entrySize := 64, qid := i }
  simCq c := { baseAddress := cfg.cqBase c, entries := cfg.cqEntries c, entrySize := 16, qid := c }
  posted _ := []
  fetched _ := 0
  acked _ := 0
  cposted _ := []
  consumed _ := 0

theorem init_start (cfg : RingsConfig) : Init cfg (start cfg) :=
  ⟨fun _ _ => ⟨rfl, rfl⟩, fun _ _ => ⟨rfl, rfl⟩, fun _ _ => ⟨rfl, rfl⟩, fun _ _ => ⟨rfl, rfl⟩,
    fun _ _ => ⟨rfl, rfl⟩, fun _ _ => ⟨rfl, rfl⟩, fun _ _ => ⟨rfl, rfl⟩, fun _ _ => ⟨rfl, rfl⟩,
    fun _ => ⟨rfl, rfl⟩, fun _ _ _ _ => rfl, fun _ => ⟨rfl, rfl, rfl⟩, fun _ => ⟨rfl, rfl⟩⟩

/-- Two submission queues of two entries that share a completion queue of three. -/
def sharedConfig : RingsConfig where
  sqs := {1, 2}
  cqOf _ := 1
  sqEntries _ := 2
  cqEntries _ := 3
  sqBase i := i
  cqBase c := c
  sqEntries_pos := by decide
  cqEntries_pos := by decide
  sqEntries_le := by decide
  cqEntries_le := by decide
  sqid_lt := by decide
  sqBase_inj := by decide
  cqBase_inj := by decide

end Rings

end LoneNvme
