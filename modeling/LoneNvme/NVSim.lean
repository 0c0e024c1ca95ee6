import LoneNvme.Commands
import LoneNvme.Prp
import LoneNvme.QueueMgr
import LoneNvme.Rings

/-!
# The simulated controller

`GenericNVMeNVSim` with its config: namespaces, queue manager, and a handler for each
opcode of the admin and the NVM command set. A handler returns the state it leaves, or
the exception that ends the simulator thread.

Queue memory, doorbells and queue objects are those of `Rings`, objects by handle; all
other memory is bytes. A handler's `command` is a view of its slot, which nothing it
does changes: data buffers and queues are separate allocations of the host.
-/

namespace LoneNvme

open Lib

namespace Rings

/-- `sq.get_command` on the simulator's object `i`: the command in the slot, and the head moved on. -/
def getCommand (r : Rings) (i : Nat) : Option (Generic × Rings) :=
  let sq := r.simSq i
  match sq.getCommand (r.SQTAIL sq.qid) with
  | none => none
  | some (slot, sq') =>
      some (r.sqRing sq.baseAddress slot, { r with
        simSq := Function.update r.simSq i sq'
        fetched := Function.update r.fetched i (r.fetched i + 1) })

/-- The effect of a completion: queue object, ring memory, history. -/
def withEntry (r : Rings) (c : Nat) (cq : NVMeCompletionQueue) (ring : Nat → CQE) (cqe : CQE) :
    Rings :=
  { r with
    simCq := Function.update r.simCq c cq
    cqRing := Function.update r.cqRing (r.simCq c).baseAddress ring
    cposted := Function.update r.cposted c (r.cposted c ++ [r.logged c cqe]) }

/-- `NVSimCmdHandlerInterface.complete` with the simulator's objects `i` and `c`. -/
def complete (r : Rings) (cid : BitVec 16) (i c statusCode : Nat) (cmdSpec : BitVec 32 := 0) :
    Except Exc Rings :=
  let cq := r.simCq c
  match NVSimCmdHandlerInterface.complete cid (r.simSq i) cq (r.CQHEAD cq.qid)
      (r.cqRing cq.baseAddress) statusCode cmdSpec with
  | .ok (cq', ring) => .ok (r.withEntry c cq' ring
      (NVSimCmdHandlerInterface.completionEntry cid (r.simSq i) statusCode cmdSpec))
  | .error e => .error e

/-- `check_mem_access` on submission queue memory: the first and last byte become `0xFF`. -/
def checkSqAccess (r : Rings) (base entries : Nat) : Rings :=
  let ring := r.sqRing base
  let ring := Function.update ring 0 { ring 0 with OPC := 0xFF }
  let last := ring (entries - 1)
  { r with
    sqRing := Function.update r.sqRing base
      (Function.update ring (entries - 1) { last with DW15 := last.DW15 ||| 0xFF000000 }) }

/-- `check_mem_access` on completion queue memory. -/
def checkCqAccess (r : Rings) (base entries : Nat) : Rings :=
  let ring := r.cqRing base
  let ring := Function.update ring 0 { ring 0 with CMD_SPEC := (ring 0).CMD_SPEC ||| 0xFF }
  let last := ring (entries - 1)
  let sf := { last.SF with SC := last.SF.SC ||| 0x80, SCT := 7, CRD := 3, M := 1, DNR := 1 }
  { r with
    cqRing := Function.update r.cqRing base
      (Function.update ring (entries - 1) { last with SF := sf }) }

end Rings

/-! ## Namespaces -/

/-- `GenericNVMeNVSimNamespace`: its mapped file, of `num_lbas * block_size` bytes, and identify data. -/
structure NVSimNamespace where
  blockSize : Nat
  numLbas : Nat
  mm : Mem
  idNsData : List (BitVec 8) := []
  /-- The constructor asserts it. -/
  supported : blockSize = 512 ∨ blockSize = 4096

namespace NVSimNamespace

/-- The constructor, over a fresh file. -/
def new (numGbs blockSize : Nat) : Except Exc NVSimNamespace :=
  if h : blockSize = 512 then
    .ok { blockSize, numLbas := (97696368 + 1953504 * ((numGbs : Int) - 50)).toNat,
          mm := fun _ => 0, supported := Or.inl h }
  else if h : blockSize = 4096 then
    .ok { blockSize, numLbas := (12212046 + 244188 * ((numGbs : Int) - 50)).toNat,
          mm := fun _ => 0, supported := Or.inr h }
  else
    .error (.assertionError (toString blockSize ++ " block size not supported"))

/-- The size of the mapped file. -/
def size (ns : NVSimNamespace) : Nat := ns.numLbas * ns.blockSize

/-- `mm[start:stop]`. -/
def slice (ns : NVSimNamespace) (start stop : Nat) : List (BitVec 8) :=
  ns.mm.load (min start ns.size) (min stop ns.size - min start ns.size)

/-- `mm[start:stop] = data`. -/
def setSlice (ns : NVSimNamespace) (start stop : Nat) (data : List (BitVec 8)) :
    Except Exc NVSimNamespace :=
  if data.length = min stop ns.size - min start ns.size then
    .ok { ns with mm := ns.mm.store (min start ns.size) data }
  else
    .error (.indexError "mmap slice assignment is wrong size")

/-- `read`: fill the buffer of `prp`. -/
def read (ns : NVSimNamespace) (mem : Mem) (lba numBlocks : Nat) (prp : PRP) : Except Exc Mem :=
  let startByte := lba * ns.blockSize
  let endByte := startByte + numBlocks * ns.blockSize
  prp.setDataBuffer mem (ns.slice startByte endByte)

/-- `write`: take the data out of the buffer of `prp`. -/
def write (ns : NVSimNamespace) (mem : Mem) (lba numBlocks : Nat) (prp : PRP) :
    Except Exc NVSimNamespace := do
  let startByte := lba * ns.blockSize
  let endByte := startByte + numBlocks * ns.blockSize
  let data ← prp.getDataBuffer mem
  ns.setSlice startByte endByte (data.take (ns.blockSize * numBlocks))

end NVSimNamespace

/-! ## The controller -/

/-- The simulator and its config. `nextSq` and `nextCq` are the handles of the next queue objects. -/
structure NVSim where
  rings : Rings
  mem : Mem
  /-- `namespaces[1:]`; entry 0 of the source's list is never a namespace. -/
  namespaces : List NVSimNamespace
  idCtrlData : List (BitVec 8) := []
  idNsListData : List (BitVec 8) := []
  idUuidListData : List (BitVec 8) := []
  powerState : BitVec 4 := 0
  queueMgr : QueueMgr Nat Nat := {}
  completionQueues : List Nat := []
  nextSq : Nat := 0
  nextCq : Nat := 0

namespace NVSim

/-- `config.mps`. -/
def mps : Nat := 4096

/-- `config.namespaces[nsid]`. -/
def namespaceAt (nvsim : NVSim) (nsid : Nat) : Except Exc (Option NVSimNamespace) :=
  if nsid = 0 then
    .ok none
  else
    match nvsim.namespaces[nsid - 1]? with
    | some ns => .ok (some ns)
    | none => .error (.indexError "list index out of range")

/-- `NVSimCmdHandlerInterface.complete`. -/
def complete (nvsim : NVSim) (cid : BitVec 16) (i c statusCode : Nat) (cmdSpec : BitVec 32 := 0) :
    Except Exc NVSim :=
  match nvsim.rings.complete cid i c statusCode cmdSpec with
  | .ok rings => .ok { nvsim with rings }
  | .error e => .error e

/-! ### Admin commands -/

def NVSimCommandNotSupported (nvsim : NVSim) (command : Generic) (i c : Nat) : Except Exc NVSim :=
  nvsim.complete command.CID i c StatusCodes.invalidFieldInCommand

/-- The answer to `Identify`: what to copy out, and the status. -/
def identifyAnswer (nvsim : NVSim) (command : Generic) : Option (List (BitVec 8)) × Nat :=
  let cns := Identify.CNS command
  if cns = 0x01 then
    (some nvsim.idCtrlData, StatusCodes.successfulCompletion)
  else if cns = 0x00 then
    -- `NSID == 0 or NSID > len(namespaces) - 1`: no such entry
    match nvsim.namespaceAt command.NSID.toNat with
    | .ok (some ns) => (some ns.idNsData, StatusCodes.successfulCompletion)
    | _ => (none, StatusCodes.invalidNamespaceOrFormat)
  else if cns = 0x02 then
    (some nvsim.idNsListData, StatusCodes.successfulCompletion)
  else if cns = 0x17 then
    (some nvsim.idUuidListData, StatusCodes.successfulCompletion)
  else
    (none, StatusCodes.invalidFieldInCommand)

def NVSimIdentify (nvsim : NVSim) (command : Generic) (i c : Nat) : Except Exc NVSim := do
  let prp ← PRP.attach 4096 mps nvsim.mem command.PRP1.toNat
  match nvsim.identifyAnswer command with
  | (some data, statusCode) =>
      let mem ← prp.setDataBuffer nvsim.mem data
      { nvsim with mem }.complete command.CID i c statusCode
  | (none, statusCode) => nvsim.complete command.CID i c statusCode

/-- A new completion queue object over accessible memory, kept until a submission queue uses it. -/
def newCq (nvsim : NVSim) (base entries qid : Nat) : NVSim :=
  let rings := nvsim.rings.checkCqAccess base entries
  { nvsim with
    rings := { rings with
      simCq := Function.update rings.simCq nvsim.nextCq
        { baseAddress := base, entries, entrySize := 16, qid } }
    nextCq := nvsim.nextCq + 1
    completionQueues := nvsim.completionQueues ++ [nvsim.nextCq] }

/-- A new submission queue object over accessible memory. -/
def newSq (nvsim : NVSim) (base entries qid : Nat) : NVSim :=
  let rings := nvsim.rings.checkSqAccess base entries
  { nvsim with
    rings := { rings with
      simSq := Function.update rings.simSq nvsim.nextSq
        { baseAddress := base, entries, entrySize := 64, qid } }
    nextSq := nvsim.nextSq + 1 }

def NVSimCreateIOCompletionQueue (nvsim : NVSim) (command : Generic) (i c : Nat) :
    Except Exc NVSim :=
  if CreateIOCompletionQueue.PC command ≠ 1 then
    nvsim.complete command.CID i c StatusCodes.invalidFieldInCommand
  else
    (nvsim.newCq command.PRP1.toNat ((CreateIOCompletionQueue.QSIZE command).toNat + 1)
      (CreateIOCompletionQueue.QID command).toNat).complete command.CID i c
        StatusCodes.successfulCompletion

/-- The completion queues with the given id, oldest first. -/
def cqsWithId (nvsim : NVSim) (cqid : Nat) : List Nat :=
  nvsim.completionQueues.filter fun h => (nvsim.rings.simCq h).qid = cqid

def NVSimCreateIOSubmissionQueue (nvsim : NVSim) (command : Generic) (i c : Nat) :
    Except Exc NVSim :=
  let qid := (CreateIOSubmissionQueue.QID command).toNat
  let handle := nvsim.nextSq
  let nvsim := nvsim.newSq command.PRP1.toNat ((CreateIOSubmissionQueue.QSIZE command).toNat + 1) qid
  match nvsim.cqsWithId (CreateIOSubmissionQueue.CQID command).toNat with
  | [] => nvsim.complete command.CID i c StatusCodes.invalidFieldInCommand
  | h :: _ =>
      { nvsim with
        queueMgr := nvsim.queueMgr.add qid handle (nvsim.rings.simCq h).qid h }.complete
          command.CID i c StatusCodes.successfulCompletion

def NVSimDeleteIOCompletionQueue (nvsim : NVSim) (command : Generic) (i c : Nat) :
    Except Exc NVSim := do
  let delCqid := (DeleteIOCompletionQueue.QID command).toNat
  assertThat (decide (delCqid ≠ 0)) "DeleteIOCompletionQueue command for qid = 0!"
  let queueMgr ← nvsim.queueMgr.removeCq delCqid
  { nvsim with queueMgr }.complete command.CID i c StatusCodes.successfulCompletion

def NVSimDeleteIOSubmissionQueue (nvsim : NVSim) (command : Generic) (i c : Nat) :
    Except Exc NVSim := do
  let delSqid := (DeleteIOSubmissionQueue.QID command).toNat
  assertThat (decide (delSqid ≠ 0)) "DeleteIOSubmissionQueue command for qid = 0!"
  let queueMgr ← nvsim.queueMgr.removeSq delSqid
  { nvsim with queueMgr }.complete command.CID i c StatusCodes.successfulCompletion

/-- The supported log pages are assembled, but never copied out: `nvsim.mps` is no attribute. -/
def NVSimGetLogPage (nvsim : NVSim) (command : Generic) (i c : Nat) : Except Exc NVSim :=
  if GetLogPage.LID command = 0 then
    if GetLogPage.OT command = 0 then
      .error (.attributeError "'GenericNVMeNVSim' object has no attribute 'mps'")
    else
      nvsim.complete command.CID i c StatusCodes.invalidFieldInCommand
  else
    nvsim.complete command.CID i c StatusCodes.invalidLogPage

/-- The namespaces are those of the config, `nvsim.namespaces` is no attribute. -/
def NVSimFormat (_nvsim : NVSim) (_command : Generic) (_i _c : Nat) : Except Exc NVSim :=
  .error (.attributeError "'GenericNVMeNVSim' object has no attribute 'namespaces'")

/-- For another feature nothing sets `status_code`: the `assert` is one of a string. -/
def NVSimGetFeature (nvsim : NVSim) (command : Generic) (i c : Nat) : Except Exc NVSim :=
  if GetFeature.FID command = FeaturePowerManagement.fid then
    nvsim.complete command.CID i c StatusCodes.successfulCompletion (nvsim.powerState.setWidth 32)
  else
    .error (.unboundLocalError "status_code")

def NVSimSetFeature (nvsim : NVSim) (command : Generic) (i c : Nat) : Except Exc NVSim :=
  if SetFeature.FID command = FeaturePowerManagement.fid then do
    let nvsim := { nvsim with powerState := FeaturePowerManagement.PS command }
    assertThat (decide (SetFeature.SV command = 0)) "SV set not yet supported"
    nvsim.complete command.CID i c StatusCodes.successfulCompletion
  else
    .error (.unboundLocalError "status_code")

/-! ### NVM commands -/

/-- The namespace of a transfer, or the exception of using `None` as one. -/
def transferNamespace (nvsim : NVSim) (command : Generic) : Except Exc NVSimNamespace := do
  match ← nvsim.namespaceAt command.NSID.toNat with
  | some ns => .ok ns
  | none => .error (.attributeError "'NoneType' object has no attribute 'num_lbas'")

def NVSimWrite (nvsim : NVSim) (command : Generic) (i c : Nat) : Except Exc NVSim := do
  let ns ← nvsim.transferNamespace command
  let slba := (Write.SLBA command).toNat
  let nlb := (Write.NLB command).toNat
  if slba + nlb + 1 > ns.numLbas then
    nvsim.complete command.CID i c StatusCodes.lbaOutOfRange
  else
    let prp ← PRP.attach ((nlb + 1) * ns.blockSize) mps nvsim.mem command.PRP1.toNat
      command.PRP2.toNat
    let ns ← ns.write nvsim.mem slba (nlb + 1) prp
    { nvsim with namespaces := nvsim.namespaces.set (command.NSID.toNat - 1) ns }.complete
      command.CID i c StatusCodes.successfulCompletion

def NVSimRead (nvsim : NVSim) (command : Generic) (i c : Nat) : Except Exc NVSim := do
  let ns ← nvsim.transferNamespace command
  let slba := (Read.SLBA command).toNat
  let nlb := (Read.NLB command).toNat
  if slba + nlb + 1 > ns.numLbas then
    nvsim.complete command.CID i c StatusCodes.lbaOutOfRange
  else
    let prp ← PRP.attach ((nlb + 1) * ns.blockSize) mps nvsim.mem command.PRP1.toNat
      command.PRP2.toNat
    let mem ← ns.read nvsim.mem slba (nlb + 1) prp
    { nvsim with mem }.complete command.CID i c StatusCodes.successfulCompletion

def NVSimFlush (nvsim : NVSim) (command : Generic) (i c : Nat) : Except Exc NVSim :=
  let validNsids := (List.range nvsim.namespaces.length).map (· + 1) ++ [0xFFFFFFFF]
  if command.NSID.toNat ∉ validNsids then
    nvsim.complete command.CID i c StatusCodes.invalidNamespaceOrFormat
  else
    nvsim.complete command.CID i c StatusCodes.successfulCompletion

/-! ### Dispatch -/

/-- `admin_cmd_handlers[opc]`. -/
def adminCmdHandler (opc : BitVec 8) : NVSim → Generic → Nat → Nat → Except Exc NVSim :=
  if opc = Identify.OPC then NVSimIdentify
  else if opc = CreateIOCompletionQueue.OPC then NVSimCreateIOCompletionQueue
  else if opc = CreateIOSubmissionQueue.OPC then NVSimCreateIOSubmissionQueue
  else if opc = DeleteIOCompletionQueue.OPC then NVSimDeleteIOCompletionQueue
  else if opc = DeleteIOSubmissionQueue.OPC then NVSimDeleteIOSubmissionQueue
  else if opc = GetLogPage.OPC then NVSimGetLogPage
  else if opc = FormatNVM.OPC then NVSimFormat
  else if opc = GetFeature.OPC then NVSimGetFeature
  else if opc = SetFeature.OPC then NVSimSetFeature
  else NVSimCommandNotSupported

/-- `nvm_cmd_handlers[opc]`. -/
def nvmCmdHandler (opc : BitVec 8) : NVSim → Generic → Nat → Nat → Except Exc NVSim :=
  if opc = Write.OPC then NVSimWrite
  else if opc = Read.OPC then NVSimRead
  else if opc = Flush.OPC then NVSimFlush
  else NVSimCommandNotSupported

/-- One command off the queue `i`, if there is one, given to its handler. -/
def serve (handlers : BitVec 8 → NVSim → Generic → Nat → Nat → Except Exc NVSim) (nvsim : NVSim)
    (i c : Nat) : Option (Except Exc NVSim) :=
  match nvsim.rings.getCommand i with
  | none => none
  | some (command, rings) => some (handlers command.OPC { nvsim with rings } command i c)

end NVSim

end LoneNvme
