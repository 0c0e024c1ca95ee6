import LoneNvme.Device
import LoneNvme.IoDispatch

/-!
# Host and simulated device

`GenericNVMeNVSimDevice` is a common device whose controller is the simulator of the same
process. Both see one memory, one set of registers and doorbells, but each has a queue
manager and queue objects of its own: the host fills its manager where it creates queues,
the simulator where it handles `CC.EN` and the admin commands.

Posting a command has the simulator look at its queues (`posted_command`).
-/

namespace LoneNvme

open Lib

namespace NVSim

/-- The admin commands, and the commands handled so far; `none` if the fuel does not suffice. -/
def adminCommands (i c : Nat) : Nat → NVSim → List (Nat × Generic) →
    ExceptT Exc Option (NVSim × List (Nat × Generic))
  | fuel, nvsim, handled =>
      match nvsim.rings.getCommand i with
      | none => pure (nvsim, handled)
      | some (command, rings) =>
          match fuel with
          | 0 => none
          | fuel + 1 => do
              let nvsim ← ExceptT.mk (some (adminCmdHandler command.OPC { nvsim with rings } command i c))
              adminCommands i c fuel nvsim (handled ++ [(i, command)])

/-- `check_commands`: the simulator afterwards, and as history the commands it handled. -/
def checkCommands (nvsim : NVSim) (fuel : Nat) :
    ExceptT Exc Option (NVSim × List (Nat × Generic)) := do
  let queues ← ExceptT.mk (some (nvsim.queueMgr.get (some 0) (some 0)))
  let (nvsim, handled) ←
    match queues with
    | (.queue i, .queue c) => adminCommands i c fuel nvsim []
    | _ => pure (nvsim, [])
  let loop ← ExceptT.mk (nvsim.ioCommands fuel)
  return (loop.nvsim, handled ++ loop.handled)

end NVSim

/-- The registers that a reset goes through. -/
structure NvmeRegs where
  EN : BitVec 1 := 0
  RDY : BitVec 1 := 0
  ASQS : BitVec 12 := 0
  ACQS : BitVec 12 := 0
  ASQB : BitVec 52 := 0
  ACQB : BitVec 52 := 0

namespace NvmeRegs

/-- The admin submission queue that the registers describe. -/
def asq (regs : NvmeRegs) : NVMeSubmissionQueue where
  baseAddress := regs.ASQB.toNat
  entries := regs.ASQS.toNat + 1
  entrySize := 64
  qid := 0

/-- The admin completion queue. -/
def acq (regs : NvmeRegs) : NVMeCompletionQueue where
  baseAddress := regs.ACQB.toNat
  entries := regs.ACQS.toNat + 1
  entrySize := 16
  qid := 0

end NvmeRegs

structure GenericNVMeNVSimDevice where
  host : NVMeDeviceCommon
  nvsim : NVSim
  nvmeRegs : NvmeRegs := {}
  /-- `old_nvme_regs.CC.EN`. -/
  oldEN : BitVec 1 := 0
  /-- The addresses the memory manager gave out. -/
  allocated : List Nat := []
  /-- Handles of the host's next queue objects, number of its next command. -/
  nextSq : Nat := 0
  nextCq : Nat := 0
  nextCommand : Nat := 0
  shared : nvsim.rings = host.rings

namespace GenericNVMeNVSimDevice

/-- The host moved on. -/
def withHost (d : GenericNVMeNVSimDevice) (host : NVMeDeviceCommon) : GenericNVMeNVSimDevice :=
  { d with host, nvsim := { d.nvsim with rings := host.rings }, shared := rfl }

/-- The simulator moved on. -/
def withSim (d : GenericNVMeNVSimDevice) (nvsim : NVSim) : GenericNVMeNVSimDevice :=
  { d with nvsim, host := { d.host with rings := nvsim.rings }, shared := rfl }

/-- `mem_mgr.malloc`: memory for a queue at `addr`, all zero. -/
def malloc (d : GenericNVMeNVSimDevice) (addr : Nat) : GenericNVMeNVSimDevice :=
  let rings := d.host.rings
  { d.withHost { d.host with
      rings := { rings with
        sqRing := Function.update rings.sqRing addr fun _ => {}
        cqRing := Function.update rings.cqRing addr fun _ => {} } } with
    allocated := addr :: d.allocated }

/-- `queue_mgr.add` with new queue objects of the host. -/
def addPair (d : GenericNVMeNVSimDevice) (sq : NVMeSubmissionQueue) (cq : NVMeCompletionQueue) :
    GenericNVMeNVSimDevice :=
  let rings := d.host.rings
  { d.withHost { d.host with
      queueMgr := d.host.queueMgr.add sq.qid d.nextSq cq.qid d.nextCq
      rings := { rings with
        hostSq := Function.update rings.hostSq d.nextSq sq
        hostCq := Function.update rings.hostCq d.nextCq cq } } with
    nextSq := d.nextSq + 1
    nextCq := d.nextCq + 1 }

/-- `check_commands` of the simulator. -/
def checkCommands (d : GenericNVMeNVSimDevice) (fuel : Nat) :
    ExceptT Exc Option GenericNVMeNVSimDevice := do
  let (nvsim, _) ← d.nvsim.checkCommands fuel
  return d.withSim nvsim

/-! ## `CC.EN` -/

/-- `enable`: queue objects over the memory in the registers, and ready. -/
def enable (d : GenericNVMeNVSimDevice) : GenericNVMeNVSimDevice :=
  let asq := d.nvmeRegs.asq
  let acq := d.nvmeRegs.acq
  let nvsim := d.nvsim
  let rings := (nvsim.rings.checkSqAccess asq.baseAddress asq.entries).checkCqAccess
    acq.baseAddress acq.entries
  { d.withSim { nvsim with
      rings := { rings with
        simSq := Function.update rings.simSq nvsim.nextSq asq
        simCq := Function.update rings.simCq nvsim.nextCq acq }
      queueMgr := nvsim.queueMgr.add 0 nvsim.nextSq 0 nvsim.nextCq
      nextSq := nvsim.nextSq + 1
      nextCq := nvsim.nextCq + 1 } with
    nvmeRegs := { d.nvmeRegs with RDY := 1 } }

/-- `disable`. -/
def disable (d : GenericNVMeNVSimDevice) : GenericNVMeNVSimDevice :=
  { d with nvmeRegs := { d.nvmeRegs with RDY := 0 } }

/-- `nvsim_nvme_regs_changed` but for `check_commands`: the two comparisons and the new snapshot. -/
def regsChanged (d : GenericNVMeNVSimDevice) : GenericNVMeNVSimDevice :=
  let d' :=
    if d.oldEN = 0 ∧ d.nvmeRegs.EN = 1 then d.enable
    else if d.oldEN = 1 ∧ d.nvmeRegs.EN = 0 then d.disable
    else d
  { d' with oldEN := d.nvmeRegs.EN }

/-- The host writes `CC.EN`, and the simulator handles the change while the host waits. -/
def writeEN (d : GenericNVMeNVSimDevice) (value : BitVec 1) : GenericNVMeNVSimDevice :=
  { d with nvmeRegs := { d.nvmeRegs with EN := value } }.regsChanged

end GenericNVMeNVSimDevice

/-- No memory, no queues, doorbells at zero. -/
def Rings.blank : Rings where
  sqRing := fun _ _ => {}
  cqRing := fun _ _ => {}
  SQTAIL := fun _ => 0
  CQHEAD := fun _ => 0
  hostSq := fun _ => default
  hostCq := fun _ => default
  simSq := fun _ => default
  simCq := fun _ => default
  posted := fun _ => []
  fetched := fun _ => 0
  acked := fun _ => 0
  cposted := fun _ => []
  consumed := fun _ => 0

/-- Clear all doorbells: there are 1024 pairs of registers. -/
def Rings.clearDoorbells (r : Rings) : Rings :=
  { r with
    SQTAIL := fun q => if q < 1024 then 0 else r.SQTAIL q
    CQHEAD := fun q => if q < 1024 then 0 else r.CQHEAD q }

/-- What `init_admin_queues` is asked for, and where the memory manager puts the queues. -/
structure AdminQueues where
  asqEntries : Nat
  acqEntries : Nat
  asqMem : Nat
  acqMem : Nat

namespace GenericNVMeNVSimDevice

/-- `cc_disable`. -/
def ccDisable (d : GenericNVMeNVSimDevice) : Except Exc GenericNVMeNVSimDevice := do
  let d := d.writeEN 0
  assertThat (d.nvmeRegs.RDY == 0) "Device did not disable in 10s"
  return d.withHost { d.host with
    rings := d.host.rings.clearDoorbells
    queueMgr := {}
    outstandingCommands := Dict.empty }

/-- `init_admin_queues`. -/
def initAdminQueues (d : GenericNVMeNVSimDevice) (q : AdminQueues) :
    Except Exc GenericNVMeNVSimDevice := do
  let d ← d.ccDisable
  let d := (d.malloc q.asqMem).malloc q.acqMem
  let d := { d with
    nvmeRegs := { d.nvmeRegs with
      ASQS := BitVec.ofInt 12 ((q.asqEntries : Int) - 1)
      ASQB := BitVec.ofNat 52 q.asqMem
      ACQS := BitVec.ofInt 12 ((q.acqEntries : Int) - 1)
      ACQB := BitVec.ofNat 52 q.acqMem } }
  return d.addPair { baseAddress := q.asqMem, entries := q.asqEntries, entrySize := 64, qid := 0 }
    { baseAddress := q.acqMem, entries := q.acqEntries, entrySize := 16, qid := 0,
      intVector := some 0 }

/-- `cc_enable`. -/
def ccEnable (d : GenericNVMeNVSimDevice) : Except Exc GenericNVMeNVSimDevice := do
  let d := d.writeEN 1
  assertThat (d.nvmeRegs.RDY == 1) "Device did not enable in 10s"
  return d

/-- `cc_disable`, `init_admin_queues` and `cc_enable`, up to the simulator being ready again. -/
def reset (d : GenericNVMeNVSimDevice) (q : AdminQueues) : Except Exc GenericNVMeNVSimDevice := do
  let d ← d.ccDisable
  let d ← d.initAdminQueues q
  d.ccEnable

end GenericNVMeNVSimDevice

/-! ## IO queues -/

/-- The arguments of `create_io_queue_pair`, and where the memory manager puts the queues. -/
structure QueuePair where
  cqEntries : Nat
  cqId : Nat
  cqIv : Int := 0
  cqIen : Nat := 1
  cqPc : Nat := 1
  sqEntries : Nat
  sqId : Nat
  sqPrio : Nat := 0
  sqPc : Nat := 1
  sqSetid : Nat := 0
  cqMem : Nat
  sqMem : Nat

namespace QueuePair

/-- `QID` and `QSIZE` of a create command. -/
def dw10 (id entries : Nat) : BitVec 32 :=
  BitVec.ofInt 16 ((entries : Int) - 1) ++ BitVec.ofNat 16 id

/-- `CreateIOCompletionQueue`. The simulated device polls, so the vector is 0. -/
def createIocqCmd (q : QueuePair) : Generic where
  OPC := CreateIOCompletionQueue.OPC
  PRP1 := BitVec.ofNat 64 q.cqMem
  DW10 := dw10 q.cqId q.cqEntries
  DW11 := (0 : BitVec 30) ++ BitVec.ofNat 1 q.cqIen ++ BitVec.ofNat 1 q.cqPc

/-- `CreateIOSubmissionQueue`. -/
def createIosqCmd (q : QueuePair) : Generic where
  OPC := CreateIOSubmissionQueue.OPC
  PRP1 := BitVec.ofNat 64 q.sqMem
  DW10 := dw10 q.sqId q.sqEntries
  DW11 := BitVec.ofNat 16 q.cqId ++ (0 : BitVec 13) ++ BitVec.ofNat 2 q.sqPrio
    ++ BitVec.ofNat 1 q.sqPc
  DW12 := (0 : BitVec 16) ++ BitVec.ofNat 16 q.sqSetid

def sq (q : QueuePair) : NVMeSubmissionQueue where
  baseAddress := q.sqMem
  entries := q.sqEntries
  entrySize := 64
  qid := q.sqId

def cq (q : QueuePair) : NVMeCompletionQueue where
  baseAddress := q.cqMem
  entries := q.cqEntries
  entrySize := 16
  qid := q.cqId
  intVector := some q.cqIv

end QueuePair

/-- `DeleteIOSubmissionQueue(QID=qid)` or `DeleteIOCompletionQueue(QID=qid)`. -/
def deleteCmd (opc : BitVec 8) (qid : Nat) : Generic where
  OPC := opc
  DW10 := (0 : BitVec 16) ++ BitVec.ofNat 16 qid

theorem toNat_qid_deleteCmd {opc : BitVec 8} {qid : Nat} (h : qid < 2 ^ 16) :
    ((deleteCmd opc qid).DW10.extractLsb' 0 16).toNat = qid := by
  unfold deleteCmd
  rw [BitVec.extractLsb'_append_eq_right, BitVec.toNat_ofNat, Nat.mod_eq_of_lt h]

namespace GenericNVMeNVSimDevice

/-- A new command object. -/
def newCommand (d : GenericNVMeNVSimDevice) (command : Command) : GenericNVMeNVSimDevice :=
  { d.withHost (d.host.setCommand d.nextCommand command) with nextCommand := d.nextCommand + 1 }

/-- `sync_cmd` of an admin command. Nothing is left to poll for where the first poll finds nothing. -/
def syncCmd (d : GenericNVMeNVSimDevice) (sqe : Generic) (fuel : Nat) :
    ExceptT Exc Option GenericNVMeNVSimDevice := do
  let c := d.nextCommand
  let d := d.newCommand { sqe, cmdsetAdmin := true }
  let (host, started) := d.host.startCmd c none none
  let _ ← ExceptT.mk (some started)
  let d ← (d.withHost host).checkCommands fuel
  let (host, polled) := d.host.getCompletion 0 (.ok [])
  let _ ← ExceptT.mk (some polled)
  let command := host.commands c
  let _ ← ExceptT.mk (some (assertThat command.complete
    "Command not complete at the end of sync_cmd"))
  if command.cqe.SF.SCT = 0 ∧ command.cqe.SF.SC = 0 then
    return d.withHost host
  else
    throw (.custom "NVMeStatusCodeException" "")

/-- `create_io_queue_pair`. -/
def createIoQueuePair (d : GenericNVMeNVSimDevice) (q : QueuePair) (fuel : Nat) :
    ExceptT Exc Option GenericNVMeNVSimDevice := do
  let d ← (d.malloc q.cqMem).syncCmd q.createIocqCmd fuel
  let d ← (d.malloc q.sqMem).syncCmd q.createIosqCmd fuel
  return d.addPair q.sq q.cq

/-- `queue_mgr.remove_sq` or `queue_mgr.remove_cq` of the host. -/
def removeQueue (d : GenericNVMeNVSimDevice)
    (remove : QueueMgr Nat Nat → Except Exc (QueueMgr Nat Nat)) :
    Except Exc GenericNVMeNVSimDevice := do
  let queueMgr ← remove d.host.queueMgr
  return d.withHost { d.host with queueMgr }

/-- The loop over the submission queues, for the keys still to come. -/
def deleteSqs (fuel : Nat) : List (Nat × Nat) → GenericNVMeNVSimDevice →
    ExceptT Exc Option GenericNVMeNVSimDevice
  | [], d => pure d
  | k :: keys, d => do
      if k = (0, 0) then
        deleteSqs fuel keys d
      else
        let d ← d.syncCmd (deleteCmd DeleteIOSubmissionQueue.OPC k.1) fuel
        let d ← ExceptT.mk (some (d.removeQueue fun qm => qm.removeSq k.1))
        deleteSqs fuel keys d

/-- The loop over the completion queues. -/
def deleteCqs (fuel : Nat) : List (Nat × Nat) → GenericNVMeNVSimDevice →
    ExceptT Exc Option GenericNVMeNVSimDevice
  | [], d => pure d
  | k :: keys, d => do
      if k = (0, 0) then
        deleteCqs fuel keys d
      else
        let d ← d.syncCmd (deleteCmd DeleteIOCompletionQueue.OPC k.2) fuel
        let d ← ExceptT.mk (some (d.removeQueue fun qm => qm.removeCq k.2))
        deleteCqs fuel keys d

/-- `delete_io_queues`. `remove_sq` keeps the keys, so the first loop sees those at its start. -/
def deleteIoQueues (d : GenericNVMeNVSimDevice) (fuel : Nat) :
    ExceptT Exc Option GenericNVMeNVSimDevice := do
  let d ← deleteSqs fuel d.host.queueMgr.nvmeQueues.keys d
  deleteCqs fuel d.host.queueMgr.nvmeQueues.keys d

/-- The commands that make or delete queues. -/
def IsQueueCommand (sqe : Generic) : Prop :=
  sqe.OPC ∈ [CreateIOCompletionQueue.OPC, CreateIOSubmissionQueue.OPC,
    DeleteIOCompletionQueue.OPC, DeleteIOSubmissionQueue.OPC]

instance (sqe : Generic) : Decidable (IsQueueCommand sqe) :=
  inferInstanceAs (Decidable (sqe.OPC ∈ [CreateIOCompletionQueue.OPC, CreateIOSubmissionQueue.OPC,
    DeleteIOCompletionQueue.OPC, DeleteIOSubmissionQueue.OPC]))

/-- What the user of a device calls, and the rounds of the simulator. -/
inductive DeviceOp where
  /-- `start_cmd` of a new IO command. -/
  | start (command : Command) (sqid cqid : Option Nat)
  /-- `get_completion`. -/
  | poll (cqid : Nat) (dataIn : Except Exc (List (BitVec 8)))
  | check (fuel : Nat)
  /-- `sync_cmd` of an admin command that is not about queues. -/
  | sync (sqe : Generic) (fuel : Nat)
  | create (q : QueuePair) (fuel : Nat)
  | delete (fuel : Nat)
  | reset (q : AdminQueues)

/-- What a call that returns leaves. -/
def returned (x : ExceptT Exc Option GenericNVMeNVSimDevice) : Option GenericNVMeNVSimDevice :=
  match x.run with
  | some (.ok d) => some d
  | _ => none

/-- The memory manager gives out addresses of 64 bits that are not in use. -/
def Fresh (d : GenericNVMeNVSimDevice) (addrs : List Nat) : Prop :=
  addrs.Nodup ∧ ∀ addr ∈ addrs, addr < 2 ^ 64 ∧ addr ∉ d.allocated

instance (d : GenericNVMeNVSimDevice) (addrs : List Nat) : Decidable (d.Fresh addrs) :=
  inferInstanceAs (Decidable (addrs.Nodup ∧ ∀ addr ∈ addrs, addr < 2 ^ 64 ∧ addr ∉ d.allocated))

/--
One call. `start` and `poll` may raise, the other calls return. Not every call of the source is
here: admin commands go through `sync_cmd` only, so `start_cmd` is for IO commands on IO queues,
and it is never given a `cqid` without a `sqid`.
-/
def step (d : GenericNVMeNVSimDevice) : DeviceOp → Option GenericNVMeNVSimDevice
  | .start command sqid cqid =>
      if command.cmdsetAdmin = false ∧ sqid ≠ some 0 ∧ (sqid = none → cqid = none) then
        let d' := d.newCommand command
        some (d'.withHost (d'.host.startCmd d.nextCommand sqid cqid).1)
      else none
  | .poll cqid dataIn => some (d.withHost (d.host.getCompletion cqid dataIn).1)
  | .check fuel => returned (d.checkCommands fuel)
  | .sync sqe fuel => if IsQueueCommand sqe then none else returned (d.syncCmd sqe fuel)
  | .create q fuel =>
      if d.Fresh [q.cqMem, q.sqMem] then returned (d.createIoQueuePair q fuel) else none
  | .delete fuel => returned (d.deleteIoQueues fuel)
  | .reset q => if d.Fresh [q.asqMem, q.acqMem] then (d.reset q).toOption else none

/--
Disabled, without queues, nothing posted and nothing outstanding, as the constructors leave
it. Memory, what is allocated in it, the counters and the namespaces may be anything: a device
that was used before and cleared since starts here as well.
-/
structure Init (d : GenericNVMeNVSimDevice) : Prop where
  nvmeRegs : d.nvmeRegs = {}
  oldEN : d.oldEN = 0
  hostQueues : d.host.queueMgr = {}
  simQueues : d.nvsim.queueMgr = {} ∧ d.nvsim.completionQueues = []
  doorbells : ∀ q, d.host.rings.SQTAIL q = 0 ∧ d.host.rings.CQHEAD q = 0
  outstanding : d.host.outstandingCommands = Dict.empty

def machine : Machine GenericNVMeNVSimDevice DeviceOp := ⟨Init, step⟩

/-- A device without namespaces. -/
def blank : GenericNVMeNVSimDevice where
  host := {
    cidMgr := {}
    queueMgr := {}
    outstandingCommands := Dict.empty
    commands := fun _ => {}
    rings := Rings.blank }
  nvsim := { rings := Rings.blank, mem := fun _ => 0, namespaces := [] }
  shared := rfl

theorem init_blank : Init blank :=
  ⟨rfl, rfl, rfl, ⟨rfl, rfl⟩, fun _ => ⟨rfl, rfl⟩, rfl⟩

end GenericNVMeNVSimDevice

end LoneNvme
