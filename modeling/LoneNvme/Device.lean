import LoneNvme.QueueMgr
import LoneNvme.Rings

/-!
# The host's command bookkeeping

`NVMeDeviceCommon` as far as starting commands and processing completions go.
Commands are objects on a heap, found by number, since the outstanding map, the
caller and the rings all refer to the same one. Queue handles are those of `Rings`.

A method that raises has already changed some of the state, so every method
returns the state it leaves behind together with its result or exception.
-/

namespace LoneNvme

open Lib

/-- `CidMgr`. `allocs` is history: how many values have been handed out. -/
structure CidMgr where
  initValue : Nat := 0x1000
  maxValue : Nat := 0xFFFE
  value : Nat := 0x1000
  allocs : Nat := 0

namespace CidMgr

/-- `alloc`: the value handed out, and the manager afterwards. -/
def alloc (m : CidMgr) : Nat × CidMgr :=
  let value := m.value + 1
  (m.value, { m with
    value := if value ≥ m.maxValue then m.initValue else value
    allocs := m.allocs + 1 })

end CidMgr

/--
A command object: its 64 bytes and what the device tracks beside them. `stamp` and
`home` are history: which allocation its CID came from, and the queue of its last post.
-/
structure Command where
  sqe : Generic := {}
  cmdsetAdmin : Bool := false
  sq : QueueRef Nat := .none
  cq : QueueRef Nat := .none
  cqe : CQE := {}
  complete : Bool := false
  posted : Bool := false
  dataIn : Option (List (BitVec 8)) := none
  stamp : Nat := 0
  home : Nat := 0

structure NVMeDeviceCommon where
  cidMgr : CidMgr
  queueMgr : QueueMgr Nat Nat
  outstandingCommands : Dict (BitVec 16 × Nat) Nat
  commands : Nat → Command
  rings : Rings

namespace NVMeDeviceCommon

/-- Change one command object. -/
def setCommand (d : NVMeDeviceCommon) (c : Nat) (command : Command) : NVMeDeviceCommon :=
  { d with commands := Function.update d.commands c command }

@[simp] theorem setCommand_self (d : NVMeDeviceCommon) (c : Nat) (command : Command) :
    (d.setCommand c command).commands c = command := Function.update_self ..

theorem setCommand_of_ne (d : NVMeDeviceCommon) {c c' : Nat} (h : c' ≠ c) (command : Command) :
    (d.setCommand c command).commands c' = d.commands c' := Function.update_of_ne h ..

/-- Nobody's flag changes if the command keeps its own. -/
theorem posted_setCommand (d : NVMeDeviceCommon) {c : Nat} {command : Command}
    (h : command.posted = (d.commands c).posted) (c' : Nat) :
    ((d.setCommand c command).commands c').posted = (d.commands c').posted := by
  by_cases hc : c' = c
  · subst hc; rw [setCommand_self, h]
  · rw [setCommand_of_ne _ hc]

/-- `command.CID = self.cid_mgr.alloc()`. -/
def allocCid (d : NVMeDeviceCommon) (c : Nat) : NVMeDeviceCommon :=
  let command := d.commands c
  { d with cidMgr := d.cidMgr.alloc.2 }.setCommand c
    { command with
      sqe := { command.sqe with CID := BitVec.ofNat 16 d.cidMgr.alloc.1 }
      stamp := d.cidMgr.allocs }

theorem posted_allocCid (d : NVMeDeviceCommon) (c c' : Nat) :
    ((d.allocCid c).commands c').posted = (d.commands c').posted :=
  posted_setCommand { d with cidMgr := d.cidMgr.alloc.2 } (by rfl) c'

/-- `command.sq, command.cq = sq, cq`. -/
def assignQueues (d : NVMeDeviceCommon) (c : Nat) (sq cq : QueueRef Nat) : NVMeDeviceCommon :=
  d.setCommand c { d.commands c with sq, cq }

theorem posted_assignQueues (d : NVMeDeviceCommon) (c : Nat) (sq cq : QueueRef Nat) (c' : Nat) :
    ((d.assignQueues c sq cq).commands c').posted = (d.commands c').posted :=
  posted_setCommand d (by rfl) c'

/-- `post_command`. The `posted_command` hook of the common device does nothing. -/
def postCommand (d : NVMeDeviceCommon) (c : Nat) : NVMeDeviceCommon × Except Exc Unit :=
  let d := d.allocCid c
  let command := d.commands c
  match command.sq with
  | .queue i =>
      match d.rings.postCommand i command.sqe with
      | .ok rings =>
          let key := (command.sqe.CID, (rings.hostSq i).qid)
          ({ d with rings, outstandingCommands := d.outstandingCommands.set key c }, .ok ())
      | .error e => (d, .error e)
  | .id _ => (d, .error (.attributeError "'int' object has no attribute 'post_command'"))
  | .none => (d, .error (.attributeError "'NoneType' object has no attribute 'post_command'"))

/-- The ids `start_cmd` looks up: those given, the admin pair, or the next IO queue. -/
def pickIds (d : NVMeDeviceCommon) (c : Nat) (sqid cqid : Option Nat) :
    Except Exc (NVMeDeviceCommon × Option Nat × Option Nat) :=
  match sqid with
  | some sqid => .ok (d, some sqid, cqid)
  | none =>
      if (d.commands c).cmdsetAdmin then
        .ok (d, some 0, some 0)
      else
        match d.queueMgr.nextIosqId with
        | .ok (sqid, queueMgr) => .ok ({ d with queueMgr }, sqid, cqid)
        | .error e => .error e

-- what `outstandingCommands` is looked up by
instance : LawfulBEq (BitVec 16 × Nat) :=
  inferInstance

/-- `start_cmd` from the sanity checks on, the queues being assigned to the command. -/
def startAssigned (d : NVMeDeviceCommon) (c : Nat) (sqid : Option Nat) :
    NVMeDeviceCommon × Except Exc (Option Nat × Nat) :=
  let command := d.commands c
  match command.sq with
  | .queue i =>
      if (command.sqe.CID, (d.rings.hostSq i).qid) ∈ d.outstandingCommands.keys then
        (d, .error (.assertionError
          "Command already with the drive, impossible to identify completion"))
      else if command.posted then
        (d, .error (.assertionError "Command already posted"))
      else if command.complete then
        (d, .error (.assertionError "Command already completed"))
      else
        match d.postCommand c with
        | (d, .error e) => (d, .error e)
        | (d, .ok ()) =>
            let d := d.setCommand c
              { d.commands c with posted := true, home := (d.rings.hostSq i).qid }
            match command.cq with
            | .queue h => (d, .ok (sqid, (d.rings.hostCq h).qid))
            | _ => (d, .error (.attributeError "'int' object has no attribute 'qid'"))
  | _ => (d, .error (.attributeError "'int' object has no attribute 'qid'"))

/-- `start_cmd`. -/
def startCmd (d : NVMeDeviceCommon) (c : Nat) (sqid cqid : Option Nat) :
    NVMeDeviceCommon × Except Exc (Option Nat × Nat) :=
  match d.pickIds c sqid cqid with
  | .error e => (d, .error e)
  | .ok (d, sqid, cqid) =>
      match d.queueMgr.get sqid cqid with
      | .error e => (d, .error e)
      | .ok (sq, cq) =>
          if sq = .none ∨ cq = .none then
            (d, .error (.assertionError "No queue to send command to!"))
          else
            (d.assignQueues c sq cq).startAssigned c sqid

/-- `command.cq.consume_completion()` and `command.sq.head.set(cqe.SQHD)`. -/
def advanceQueues (d : NVMeDeviceCommon) (i h : Nat) (cqe : CQE) : NVMeDeviceCommon :=
  { d with rings := (d.rings.consumeCompletion h).setHead i cqe.SQHD.toNat }

/-- The end of `complete_command`, if the command has a completion queue. -/
def finishCommand (d : NVMeDeviceCommon) (i : Nat) (cq : QueueRef Nat) (cqe : CQE) :
    NVMeDeviceCommon × Except Exc Unit :=
  match cq with
  | .queue h => (d.advanceQueues i h cqe, .ok ())
  | .id _ => (d, .error (.attributeError "'int' object has no attribute 'consume_completion'"))
  | .none => (d, .error (.attributeError "'NoneType' object has no attribute 'consume_completion'"))

/--
`complete_command`. `cqe` is a view, but the ring does not change meanwhile. The
argument `dataIn` is what copying the data buffer into the `data_in` object gives.
-/
def completeCommand (d : NVMeDeviceCommon) (c : Nat) (cqe : CQE)
    (dataIn : Except Exc (List (BitVec 8))) : NVMeDeviceCommon × Except Exc Unit :=
  let command := d.commands c
  if command.posted = false then
    (d, .error (.assertionError "not posted"))
  else if command.sqe.CID ≠ cqe.CID then
    (d, .error (.assertionError "cqid mismatch"))
  else
    match command.sq with
    | .queue i =>
        let key := (command.sqe.CID, (d.rings.hostSq i).qid)
        let done := { command with posted := false, complete := true, cqe }
        if (d.rings.hostSq i).qid ≠ cqe.SQID.toNat then
          (d, .error (.assertionError "sqid mismatch"))
        else if key ∉ d.outstandingCommands.keys then
          (d.setCommand c done, .error (.keyError (toString key)))
        else
          let d := { d with outstandingCommands := d.outstandingCommands.erase key }
          match command.dataIn, dataIn with
          | some _, .error e => (d.setCommand c done, .error e)
          | some _, .ok bytes =>
              (d.setCommand c { done with dataIn := some bytes }).finishCommand i command.cq cqe
          | none, _ => (d.setCommand c done).finishCommand i command.cq cqe
    | .id _ => (d, .error (.attributeError "'int' object has no attribute 'qid'"))
    | .none => (d, .error (.attributeError "'NoneType' object has no attribute 'qid'"))

/-- `get_completion`. -/
def getCompletion (d : NVMeDeviceCommon) (cqid : Nat) (dataIn : Except Exc (List (BitVec 8))) :
    NVMeDeviceCommon × Except Exc Bool :=
  match d.queueMgr.get (if cqid = 0 then some 0 else none) (some cqid) with
  | .error e => (d, .error e)
  | .ok (_, .queue h) =>
      if d.rings.phaseMatch h then
        let cqe := d.rings.nextCompletion h
        match d.outstandingCommands.get? (cqe.CID, cqe.SQID.toNat) with
        | none => (d, .error (.keyError (toString (cqe.CID, cqe.SQID.toNat))))
        | some c =>
            match d.completeCommand c cqe dataIn with
            | (d, .ok ()) => (d, .ok true)
            | (d, .error e) => (d, .error e)
      else
        (d, .ok false)
  | .ok _ =>
      (d, .error (.attributeError "'NoneType' object has no attribute 'get_next_completion'"))

end NVMeDeviceCommon

end LoneNvme
