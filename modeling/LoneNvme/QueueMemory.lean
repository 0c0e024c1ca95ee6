import LoneNvme.FlowControl
import LoneNvme.WireFormat

/-!
# Queues as bytes

What the queue methods do to memory. A slot is an address, posting copies the bytes of an
entry there, fetching and looking for a completion hand out an address. A doorbell is a
32-bit register at `addressof(SQNDBS[0])` and on, the two of a queue id side by side.

The operations here are those of the two parties on shared memory, with every read and write
made at an address. What they *mean* is not said in this module: `QueueBytes` shows that they
are the operations on rings of `Rings`, as long as no two areas overlap.
-/

namespace LoneNvme

open Lib

namespace NVMeHeadTail

/-- `value`, of a cell at an address. -/
def cellValue (m : Mem) (address : Nat) : Nat := ((Codec.word 4).read m address).toNat

/-- `set`. -/
def cellSet (m : Mem) (address value : Nat) : Mem :=
  (Codec.word 4).write m address (BitVec.ofNat _ value)

/-- `advance`. -/
def cellAdvance (m : Mem) (address entries : Nat) : Mem :=
  let newValue := cellValue m address + 1
  cellSet m address (if newValue = entries then 0 else newValue)

/-- A cell that holds the bytes of a number reads it. -/
theorem cellValue_eq {m : Mem} {address v : Nat} (h : m.load address 4 = Mem.toLE 4 v)
    (hv : v < 2 ^ 32) : cellValue m address = v := by
  show (BitVec.ofNat (8 * 4) (Mem.ofLE (m.load address 4))).toNat = v
  rw [h, BitVec.toNat_ofNat, Mem.ofLE_toLE, Nat.mod_mod_of_dvd v (by decide), Nat.mod_eq_of_lt hv]

/-- An advance stores the bytes of the next position. -/
theorem cellAdvance_eq {m : Mem} {address v : Nat} (h : cellValue m address = v) (entries : Nat) :
    cellAdvance m address entries = m.store address (Mem.toLE 4 (advance entries v)) := by
  unfold cellAdvance
  rw [h]
  show m.store address (Mem.toLE 4 (BitVec.ofNat (8 * 4) _).toNat) = _
  rw [BitVec.toNat_ofNat]
  rfl

theorem cellValue_cellAdvance {m : Mem} {address v : Nat} (h : cellValue m address = v)
    (entries : Nat) : cellValue (cellAdvance m address entries) address = advance entries v := by
  unfold cellAdvance cellSet
  rw [h]
  unfold cellValue
  rw [Codec.read_write_self, BitVec.toNat_ofNat]
  rfl

end NVMeHeadTail

/-- `SQNDBS[qid].SQTAIL` and `SQNDBS[qid].CQHEAD`, from the address of the array. -/
def sqtailAddr (sqndbs qid : Nat) : Nat := sqndbs + qid * 8
def cqheadAddr (sqndbs qid : Nat) : Nat := sqndbs + (qid * 8 + 4)

/-- A submission queue object with the address its tail is at. -/
structure MappedSubmissionQueue extends NVMeSubmissionQueue where
  dbtAddr : Nat
  deriving DecidableEq, Repr

namespace MappedSubmissionQueue

/-- The address of a slot. -/
def slotAddr (sq : MappedSubmissionQueue) (slot : Nat) : Nat := sq.baseAddress + slot * sq.entrySize

/-- `post_command`, of the bytes of a command. -/
def postCommand (sq : MappedSubmissionQueue) (m : Mem) (command : List (BitVec 8)) :
    Except Exc Mem := do
  let tail := NVMeHeadTail.cellValue m sq.dbtAddr
  assertThat (sq.isFull tail == false) (sq.fullMsg tail)
  let m := m.store (sq.slotAddr tail) (command.take sq.entrySize)
  .ok (NVMeHeadTail.cellAdvance m sq.dbtAddr sq.entries)

/-- `get_command`: the address of the returned view, and the queue after the fetch. -/
def getCommand (sq : MappedSubmissionQueue) (m : Mem) : Option (Nat × MappedSubmissionQueue) :=
  if sq.numEntries (NVMeHeadTail.cellValue m sq.dbtAddr) = 0 then
    none
  else
    some (sq.slotAddr sq.head, { sq with head := NVMeHeadTail.advance sq.entries sq.head })

/-- `head.set`. -/
def setHead (sq : MappedSubmissionQueue) (value : Nat) : MappedSubmissionQueue :=
  { sq with head := NVMeHeadTail.set value }

variable {sq : MappedSubmissionQueue} {m : Mem} {sqtail : Nat}

theorem postCommand_full (ht : NVMeHeadTail.cellValue m sq.dbtAddr = sqtail)
    (hf : sq.isFull sqtail = true) (command : List (BitVec 8)) :
    sq.postCommand m command = .error (.assertionError (sq.fullMsg sqtail)) := by
  unfold postCommand
  dsimp only
  rw [ht, hf]
  rfl

theorem postCommand_ok (ht : NVMeHeadTail.cellValue m sq.dbtAddr = sqtail)
    (hf : sq.isFull sqtail = false) (command : List (BitVec 8)) :
    sq.postCommand m command = .ok (NVMeHeadTail.cellAdvance
      (m.store (sq.slotAddr sqtail) (command.take sq.entrySize)) sq.dbtAddr sq.entries) := by
  unfold postCommand
  dsimp only
  rw [ht, hf]
  rfl

/-- A fetch finds what the fetch on the object finds, at its address. -/
theorem getCommand_eq (ht : NVMeHeadTail.cellValue m sq.dbtAddr = sqtail) :
    sq.getCommand m = (sq.toNVMeSubmissionQueue.getCommand sqtail).map fun found =>
      (sq.slotAddr found.1, ⟨found.2, sq.dbtAddr⟩) := by
  unfold getCommand NVMeSubmissionQueue.getCommand
  rw [ht]
  by_cases h0 : sq.numEntries sqtail = 0
  · rw [if_pos h0, if_pos h0]
    rfl
  · rw [if_neg h0, if_neg h0]
    rfl

end MappedSubmissionQueue

/-- A completion queue object with the address its head is at. -/
structure MappedCompletionQueue extends NVMeCompletionQueue where
  dbhAddr : Nat
  deriving DecidableEq, Repr

namespace MappedCompletionQueue

/-- The address of a slot. -/
def slotAddr (cq : MappedCompletionQueue) (slot : Nat) : Nat := cq.baseAddress + slot * cq.entrySize

/-- `get_next_completion`: the address of the returned view. -/
def getNextCompletion (cq : MappedCompletionQueue) (m : Mem) : Nat :=
  cq.slotAddr (NVMeHeadTail.cellValue m cq.dbhAddr)

/-- `consume_completion`. -/
def consumeCompletion (cq : MappedCompletionQueue) (m : Mem) : MappedCompletionQueue × Mem :=
  let m := NVMeHeadTail.cellAdvance m cq.dbhAddr cq.entries
  (if NVMeHeadTail.cellValue m cq.dbhAddr = 0 then { cq with phase := if cq.phase = 1 then 0 else 1 }
    else cq, m)

/-- `post_completion`: the queue after the post, and the memory. -/
def postCompletion (cq : MappedCompletionQueue) (m : Mem) (cqe : CQE) :
    Except Exc (MappedCompletionQueue × Mem) := do
  assertThat (cq.isFull (NVMeHeadTail.cellValue m cq.dbhAddr) == false) "CQ FULL"
  let slot := cq.slotAddr cq.tail
  let phaseBit := (CQE.codec.read m slot).SF.P
  let cqe := cqe.setP (if phaseBit = 1 then 0 else 1)
  .ok ({ cq with tail := NVMeHeadTail.advance cq.entries cq.tail },
    m.store slot ((CQE.codec.encode cqe).take cq.entrySize))

variable {cq : MappedCompletionQueue} {m : Mem} {cqhead : Nat} {ring : Nat → CQE}

/-- Consuming moves the head at its address, and turns the phase as on the object. -/
theorem consumeCompletion_eq (hh : NVMeHeadTail.cellValue m cq.dbhAddr = cqhead) :
    cq.consumeCompletion m = (⟨(cq.toNVMeCompletionQueue.consumeCompletion cqhead).1, cq.dbhAddr⟩,
      m.store cq.dbhAddr (Mem.toLE 4 (cq.toNVMeCompletionQueue.consumeCompletion cqhead).2)) := by
  have hmoved := NVMeHeadTail.cellValue_cellAdvance hh cq.entries
  unfold consumeCompletion NVMeCompletionQueue.consumeCompletion
  dsimp only
  rw [hmoved, NVMeHeadTail.cellAdvance_eq hh]
  by_cases h0 : NVMeHeadTail.advance cq.entries cqhead = 0
  · rw [if_pos h0, if_pos h0]
  · rw [if_neg h0, if_neg h0]

/-- A post stores what the post on the object puts into its ring, at its address. -/
theorem postCompletion_eq (hh : NVMeHeadTail.cellValue m cq.dbhAddr = cqhead)
    (hslot : CQE.codec.read m (cq.slotAddr cq.tail) = ring cq.tail) (cqe : CQE) :
    cq.postCompletion m cqe = (cq.toNVMeCompletionQueue.postCompletion cqhead ring cqe).map
      fun after => (⟨after.1, cq.dbhAddr⟩, m.store (cq.slotAddr cq.tail)
        ((CQE.codec.encode (after.2 cq.tail)).take cq.entrySize)) := by
  unfold postCompletion NVMeCompletionQueue.postCompletion
  dsimp only
  rw [hh, hslot]
  cases cq.isFull cqhead with
  | true => rfl
  | false =>
      show _ = Except.ok (_, m.store _ ((CQE.codec.encode (Function.update ring cq.tail _ cq.tail)).take _))
      rw [Function.update_self]
      rfl

end MappedCompletionQueue

/--
Shared memory, the queue objects of both sides, and the history in bytes: per submission
queue what was posted, what the simulator found, and how many heads were set; per
completion queue what was posted, and what the host found.
-/
structure QueueMemory where
  mem : Mem
  hostSq : Nat → MappedSubmissionQueue
  hostCq : Nat → MappedCompletionQueue
  simSq : Nat → MappedSubmissionQueue
  simCq : Nat → MappedCompletionQueue
  sent : Nat → List (List (BitVec 8))
  received : Nat → List (List (BitVec 8))
  acked : Nat → Nat
  answered : Nat → List (List (BitVec 8))
  seen : Nat → List (List (BitVec 8))

namespace QueueMemory

/-- The host's `sq.post_command` on the object `i`. -/
def postCommand (x : QueueMemory) (i : Nat) (command : Generic) : Except Exc QueueMemory := do
  let bytes := Generic.codec.encode command
  let mem ← (x.hostSq i).postCommand x.mem bytes
  .ok { x with mem, sent := Function.update x.sent i (x.sent i ++ [bytes]) }

/--
What the history has of an entry handed to `post_completion` of the object `c`: that entry,
with the inverse of the phase bit that lay in its slot before.
-/
def logged (x : QueueMemory) (c : Nat) (cqe : CQE) : CQE :=
  let old := CQE.codec.read x.mem ((x.simCq c).slotAddr (x.simCq c).tail)
  cqe.setP (if old.SF.P = 1 then 0 else 1)

/-- The simulator fetches from its object `i` and completes to its object `c`, if there is work. -/
def fetchComplete (x : QueueMemory) (i c statusCode : Nat) (cmdSpec : BitVec 32) :
    Option (Except Exc QueueMemory) :=
  match (x.simSq i).getCommand x.mem with
  | none => none
  | some (address, sq) =>
      let command := Generic.codec.read x.mem address
      let cqe := NVSimCmdHandlerInterface.completionEntry command.CID sq.toNVMeSubmissionQueue
        statusCode cmdSpec
      some (((x.simCq c).postCompletion x.mem cqe).map fun after =>
        { x with
          mem := after.2
          simSq := Function.update x.simSq i sq
          simCq := Function.update x.simCq c after.1
          received := Function.update x.received i
            (x.received i ++ [x.mem.load address Generic.codec.size])
          answered := Function.update x.answered c
            (x.answered c ++ [CQE.codec.encode (x.logged c cqe)]) })

/--
What the host does with a new entry: consume it, and move the head of the queue it names.
`SQHD` is read through the view, when the doorbell has moved.
-/
def getCompletion (x : QueueMemory) (c : Nat) : Option QueueMemory :=
  let cq := x.hostCq c
  let view := cq.getNextCompletion x.mem
  let cqe := CQE.codec.read x.mem view
  if cqe.SF.P == cq.phase then
    let after := cq.consumeCompletion x.mem
    let sqid := cqe.SQID.toNat
    some { x with
      mem := after.2
      hostCq := Function.update x.hostCq c after.1
      hostSq := Function.update x.hostSq sqid
        ((x.hostSq sqid).setHead (CQE.codec.read after.2 view).SQHD.toNat)
      acked := Function.update x.acked sqid (x.acked sqid + 1)
      seen := Function.update x.seen c (x.seen c ++ [x.mem.load view CQE.codec.size]) }
  else
    none

def step (cfg : RingsConfig) (x : QueueMemory) : RingsOp → Option QueueMemory
  | .post i command => if i ∈ cfg.sqs then (x.postCommand i command).toOption else none
  | .fetchComplete i statusCode cmdSpec =>
      if i ∈ cfg.sqs then
        (x.fetchComplete i (cfg.cqOf i) statusCode cmdSpec).bind Except.toOption
      else none
  | .consume c => if c ∈ cfg.cqs then x.getCompletion c else none

/-- `check_mem_access`, of a queue area. -/
def checkMemAccess (m : Mem) (vaddr size : Nat) : Mem :=
  (m.set vaddr 0xFF).set (vaddr + size - 1) 0xFF

end QueueMemory

end LoneNvme
