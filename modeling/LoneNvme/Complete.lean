import LoneNvme.Queues

/-!
# How the simulator answers a command

`NVSimCmdHandlerInterface.complete`: the entry it builds and the post. The entry's
`SQHD` is a 16-bit field, the head it is filled from a 32-bit cell.
-/

namespace LoneNvme

open Lib

namespace NVSimCmdHandlerInterface

/-- The completion entry `complete` fills in. -/
def completionEntry (cid : BitVec 16) (sq : NVMeSubmissionQueue) (statusCode : Nat)
    (cmdSpecValue : BitVec 32 := 0) : CQE where
  CID := cid
  SF := { SC := BitVec.ofNat 8 statusCode }
  SQID := BitVec.ofNat 16 sq.qid
  SQHD := BitVec.ofNat 16 sq.head
  CMD_SPEC := cmdSpecValue

/-- `complete`: post the entry. -/
def complete (cid : BitVec 16) (sq : NVMeSubmissionQueue) (cq : NVMeCompletionQueue)
    (cqhead : Nat) (ring : Nat → CQE) (statusCode : Nat) (cmdSpecValue : BitVec 32 := 0) :
    Except Exc (NVMeCompletionQueue × (Nat → CQE)) :=
  cq.postCompletion cqhead ring (completionEntry cid sq statusCode cmdSpecValue)

/-- `SQHD` carries the head as long as it fits 16 bits. -/
theorem completionEntry_SQHD {cid : BitVec 16} {sq : NVMeSubmissionQueue} {statusCode : Nat}
    {cmdSpecValue : BitVec 32} (h : sq.head < 2 ^ 16) :
    (completionEntry cid sq statusCode cmdSpecValue).SQHD.toNat = sq.head := by
  show (BitVec.ofNat 16 sq.head).toNat = sq.head
  rw [BitVec.toNat_ofNat, Nat.mod_eq_of_lt h]

end NVSimCmdHandlerInterface

end LoneNvme
