import LoneNvme.Structures
import LoneNvme.Lib.Ring

/-!
# Queues

A head or tail is a 32-bit cell. One of the two cells of a queue is a doorbell
register that host and controller share; the other is private to the queue object.
An object therefore carries its private cell, and its methods take the current
value of the doorbell (and the ring memory at `base_address`, by slot) as
arguments and return what they write.
-/

namespace LoneNvme

open Lib

namespace NVMeHeadTail

/-- `advance`: the value stored in the cell after one step. -/
def advance (entries value : Nat) : Nat :=
  let newValue := value + 1
  u32 (if newValue = entries then 0 else newValue)

/-- `peek`: the next position. Nothing is stored, so nothing is truncated. -/
def peek (entries value : Nat) : Nat :=
  let value := value + 1
  if value = entries then 0 else value

/-- `set`: the value stored in the cell. -/
def set (value : Nat) : Nat := u32 value

theorem peek_eq_next (entries value : Nat) : peek entries value = Ring.next entries value := rfl

/-- On positions of a ring that a 32-bit cell can count, `advance` is the ring successor. -/
theorem advance_eq_next {entries value : Nat} (h : value < entries) (h32 : entries ≤ 2 ^ 32) :
    advance entries value = Ring.next entries value :=
  u32_of_lt (Nat.lt_of_lt_of_le (Ring.next_lt h) h32)

theorem advance_mod {entries : Nat} (hn : 0 < entries) (h32 : entries ≤ 2 ^ 32) (k : Nat) :
    advance entries (k % entries) = (k + 1) % entries := by
  rw [advance_eq_next (Nat.mod_lt k hn) h32, Ring.next_mod hn]

end NVMeHeadTail

namespace NVMeQueue

/-- `is_full`. -/
def isFull (entries head tail : Nat) : Bool := NVMeHeadTail.peek entries tail == head

/-- `num_entries`. A Python integer: it is negative for cells that fit no ring of `entries`. -/
def numEntries (entries head tail : Nat) : Int :=
  if NVMeHeadTail.peek entries tail = head then
    (entries : Int) - 1
  else if tail = head then
    0
  else if tail > head then
    (tail : Int) - head
  else
    ((entries : Int) - head) + tail

/-- On a window of the ring, full means one slot short of a lap. -/
theorem isFull_window {n lo hi : Nat} (hle : lo ≤ hi) (hlt : hi < lo + n) :
    isFull n (lo % n) (hi % n) = true ↔ hi + 1 = lo + n := by
  rw [isFull, beq_iff_eq, NVMeHeadTail.peek_eq_next, Ring.next_eq_iff hle hlt]

/-- On a window of the ring, `num_entries` is the distance of the counters. -/
theorem numEntries_window {n lo hi : Nat} (hle : lo ≤ hi) (hlt : hi < lo + n) :
    numEntries n (lo % n) (hi % n) = ((hi - lo : Nat) : Int) := by
  have hlo : lo % n < n := Nat.mod_lt lo (by omega)
  have hhi : hi % n < n := Nat.mod_lt hi (by omega)
  have hw := Ring.mod_window hle hlt
  have hf := Ring.next_eq_iff hle hlt
  rw [← NVMeHeadTail.peek_eq_next] at hf
  unfold numEntries
  split
  · rename_i h; have := hf.mp h; omega
  · split
    · omega
    · split <;> omega

/-- Cells at the same place are those of an empty queue. -/
theorem numEntries_self {n pos : Nat} (h : pos < n) : numEntries n pos pos = 0 := by
  have hwin := @numEntries_window n pos pos (Nat.le_refl _) (by omega)
  rw [Nat.mod_eq_of_lt h, Nat.sub_self] at hwin
  exact hwin

/-- From head 0, a queue is empty exactly if the tail is there too, wherever it may be. -/
theorem numEntries_zero_iff {n tail : Nat} : numEntries n 0 tail = 0 ↔ tail = 0 := by
  unfold numEntries NVMeHeadTail.peek
  dsimp only
  by_cases hwrap : tail + 1 = n
  · rw [if_pos hwrap, if_pos rfl]
    omega
  · rw [if_neg hwrap, if_neg (Nat.succ_ne_zero _)]
    by_cases htail : tail = 0
    · rw [if_pos htail]
      exact ⟨fun _ => htail, fun _ => rfl⟩
    · rw [if_neg htail, if_pos (Nat.pos_of_ne_zero htail)]
      omega

end NVMeQueue

/-! ## Submission queues -/

/-- A submission queue object. Its head cell is private, its tail is the `SQTAIL` doorbell. -/
structure NVMeSubmissionQueue where
  baseAddress : Nat
  entries : Nat
  entrySize : Nat
  qid : Nat
  head : Nat := 0
  deriving DecidableEq, Repr, Inhabited

namespace NVMeSubmissionQueue

def isFull (sq : NVMeSubmissionQueue) (sqtail : Nat) : Bool :=
  NVMeQueue.isFull sq.entries sq.head sqtail

def numEntries (sq : NVMeSubmissionQueue) (sqtail : Nat) : Int :=
  NVMeQueue.numEntries sq.entries sq.head sqtail

/-- The message of the full-queue assertion. -/
def fullMsg (sq : NVMeSubmissionQueue) (sqtail : Nat) : String :=
  "SQ FULL!! " ++ toString sqtail ++ " " ++ toString sq.head ++ " " ++ toString sq.entries

/-- `post_command`: the new doorbell value and ring. -/
def postCommand (sq : NVMeSubmissionQueue) (sqtail : Nat) (ring : Nat → Generic)
    (command : Generic) : Except Exc (Nat × (Nat → Generic)) := do
  assertThat (sq.isFull sqtail == false) (sq.fullMsg sqtail)
  .ok (NVMeHeadTail.advance sq.entries sqtail, Function.update ring sqtail command)

/-- `get_command`: the slot of the returned view, and the queue after the fetch. -/
def getCommand (sq : NVMeSubmissionQueue) (sqtail : Nat) :
    Option (Nat × NVMeSubmissionQueue) :=
  if sq.numEntries sqtail = 0 then
    none
  else
    some (sq.head, { sq with head := NVMeHeadTail.advance sq.entries sq.head })

/-- `head.set`. -/
def setHead (sq : NVMeSubmissionQueue) (value : Nat) : NVMeSubmissionQueue :=
  { sq with head := NVMeHeadTail.set value }

theorem postCommand_full {sq : NVMeSubmissionQueue} {sqtail : Nat} {ring : Nat → Generic}
    {command : Generic} (h : sq.isFull sqtail = true) :
    sq.postCommand sqtail ring command = .error (.assertionError (sq.fullMsg sqtail)) := by
  rw [postCommand, h]; rfl

theorem postCommand_ok {sq : NVMeSubmissionQueue} {sqtail : Nat} {ring : Nat → Generic}
    {command : Generic} (h : sq.isFull sqtail = false) :
    sq.postCommand sqtail ring command =
      .ok (NVMeHeadTail.advance sq.entries sqtail, Function.update ring sqtail command) := by
  rw [postCommand, h]; rfl

/-- A post that does not raise found room. -/
theorem postCommand_room {sq : NVMeSubmissionQueue} {sqtail : Nat} {ring : Nat → Generic}
    {command : Generic} {after : Nat × (Nat → Generic)}
    (h : sq.postCommand sqtail ring command = .ok after) : sq.isFull sqtail = false := by
  cases hf : sq.isFull sqtail with
  | false => rfl
  | true => rw [postCommand_full hf] at h; exact absurd h (by simp)

end NVMeSubmissionQueue

/-! ## Completion queues -/

/-- A completion queue object. Its tail cell is private, its head is the `CQHEAD` doorbell. -/
structure NVMeCompletionQueue where
  baseAddress : Nat
  entries : Nat
  entrySize : Nat
  qid : Nat
  intVector : Option Int := none
  tail : Nat := 0
  phase : BitVec 1 := 1
  deriving DecidableEq, Repr, Inhabited

namespace NVMeCompletionQueue

def isFull (cq : NVMeCompletionQueue) (cqhead : Nat) : Bool :=
  NVMeQueue.isFull cq.entries cqhead cq.tail

def numEntries (cq : NVMeCompletionQueue) (cqhead : Nat) : Int :=
  NVMeQueue.numEntries cq.entries cqhead cq.tail

/-- `get_next_completion`: the slot of the returned view. -/
def getNextCompletion (_cq : NVMeCompletionQueue) (cqhead : Nat) : Nat := cqhead

/-- `consume_completion`: the queue and the new doorbell value. -/
def consumeCompletion (cq : NVMeCompletionQueue) (cqhead : Nat) : NVMeCompletionQueue × Nat :=
  let head := NVMeHeadTail.advance cq.entries cqhead
  (if head = 0 then { cq with phase := if cq.phase = 1 then 0 else 1 } else cq, head)

/-- Consuming toggles at most the phase. -/
theorem consumeCompletion_object (cq : NVMeCompletionQueue) (cqhead : Nat) :
    (cq.consumeCompletion cqhead).1 =
      { cq with phase := (cq.consumeCompletion cqhead).1.phase } := by
  unfold consumeCompletion
  dsimp only
  split <;> rfl

/-- The phase bit a new entry gets: the inverse of the bit stored in its slot. -/
def nextPhase (ring : Nat → CQE) (slot : Nat) : BitVec 1 :=
  if (ring slot).SF.P = 1 then 0 else 1

/-- `post_completion`: the queue after the post, and the ring. -/
def postCompletion (cq : NVMeCompletionQueue) (cqhead : Nat) (ring : Nat → CQE) (cqe : CQE) :
    Except Exc (NVMeCompletionQueue × (Nat → CQE)) := do
  assertThat (cq.isFull cqhead == false) "CQ FULL"
  .ok ({ cq with tail := NVMeHeadTail.advance cq.entries cq.tail },
    Function.update ring cq.tail (cqe.setP (nextPhase ring cq.tail)))

theorem postCompletion_full {cq : NVMeCompletionQueue} {cqhead : Nat} {ring : Nat → CQE}
    {cqe : CQE} (h : cq.isFull cqhead = true) :
    cq.postCompletion cqhead ring cqe = .error (.assertionError "CQ FULL") := by
  rw [postCompletion, h]; rfl

theorem postCompletion_ok {cq : NVMeCompletionQueue} {cqhead : Nat} {ring : Nat → CQE}
    {cqe : CQE} (h : cq.isFull cqhead = false) :
    cq.postCompletion cqhead ring cqe =
      .ok ({ cq with tail := NVMeHeadTail.advance cq.entries cq.tail },
        Function.update ring cq.tail (cqe.setP (nextPhase ring cq.tail))) := by
  rw [postCompletion, h]; rfl

/-- A post that does not raise found room. -/
theorem postCompletion_room {cq : NVMeCompletionQueue} {cqhead : Nat} {ring : Nat → CQE}
    {cqe : CQE} {after : NVMeCompletionQueue × (Nat → CQE)}
    (h : cq.postCompletion cqhead ring cqe = .ok after) : cq.isFull cqhead = false := by
  cases hf : cq.isFull cqhead with
  | false => rfl
  | true => rw [postCompletion_full hf] at h; exact absurd h (by simp)

/-- A post moves the tail of the object and nothing else. -/
theorem postCompletion_object {cq cq' : NVMeCompletionQueue} {cqhead : Nat}
    {ring ring' : Nat → CQE} {cqe : CQE}
    (h : cq.postCompletion cqhead ring cqe = .ok (cq', ring')) :
    cq' = { cq with tail := NVMeHeadTail.advance cq.entries cq.tail } := by
  rw [postCompletion_ok (postCompletion_room h)] at h
  injection h with h
  injection h with h _
  exact h.symm

end NVMeCompletionQueue

end LoneNvme
