import LoneNvme.Bookkeeping
import LoneNvme.QueueViews
import LoneNvme.SimFrame

/-!
# What the host leaves alone

Starting a command posts to one submission queue at most, and a poll moves on the queues
of the command it completes. Neither makes a queue or moves one.

`Posted` and `Polled` say so for one call each. Both name the queues by the places they lie
at, not by their contents: what a later call relies on is that the same queue is still found
under the same id, whatever was posted to it meanwhile.
-/

namespace LoneNvme

open Lib

namespace NVMeDeviceCommon

variable {d d' : NVMeDeviceCommon} {c : Nat} {sqid cqid : Option Nat}

/-! ## Starting a command -/

/-- `start_cmd` of the command `c` posted nothing. -/
structure NotPosted (d d' : NVMeDeviceCommon) (c : Nat) : Prop where
  queueMgr : d.queueMgr.Turned d'.queueMgr
  rings : d'.rings = d.rings
  outstanding : d'.outstandingCommands = d.outstandingCommands
  commands : ∀ c', c' ≠ c → d'.commands c' = d.commands c'

/-- `start_cmd` posted the command `c` to the queue `i`, and will complete it with `cq`. -/
structure Posted (d d' : NVMeDeviceCommon) (c i : Nat) (cq : QueueRef Nat) : Prop where
  queueMgr : d.queueMgr.Turned d'.queueMgr
  rings : ∃ cid, d.rings.postCommand i { (d.commands c).sqe with CID := cid } = .ok d'.rings
  outstanding : ∃ key, d'.outstandingCommands = d.outstandingCommands.set key c
  commands : ∀ c', c' ≠ c → d'.commands c' = d.commands c'
  cq : (d'.commands c).cq = cq

/-- **What `start_cmd` does**: it posts to the queue its ids name, or raises. -/
theorem startCmd_posted (d : NVMeDeviceCommon) (c : Nat) (sqid cqid : Option Nat) :
    (NotPosted d (d.startCmd c sqid cqid).1 c ∧ ∃ e, (d.startCmd c sqid cqid).2 = .error e)
      ∨ ∃ i cq, d.lookup c sqid cqid = .ok (.queue i, cq)
        ∧ Posted d (d.startCmd c sqid cqid).1 c i cq := by
  obtain ⟨qm, hqm, ⟨e, he⟩ | ⟨sq, cq, sqid', hl, hsq, hcq, he⟩⟩ := startCmd_cases d c sqid cqid
  · rw [he]
    exact Or.inl ⟨⟨hqm, rfl, rfl, fun _ _ => rfl⟩, e, rfl⟩
  · rw [he]
    -- every other command stays as it is, on the way too
    have hassign : ∀ c', c' ≠ c →
        (({ d with queueMgr := qm }).assignQueues c sq cq).commands c' = d.commands c' :=
      fun c' hc => Function.update_of_ne hc ..
    have hself : (({ d with queueMgr := qm }).assignQueues c sq cq).commands c
        = { d.commands c with sq, cq } := Function.update_self ..
    have halloc : ∀ c', c' ≠ c →
        ((({ d with queueMgr := qm }).assignQueues c sq cq).allocCid c).commands c' = d.commands c' :=
      fun c' hc => (Function.update_of_ne hc ..).trans (hassign c' hc)
    rcases startAssigned_cases (d := ({ d with queueMgr := qm }).assignQueues c sq cq) (c := c) sqid'
      with ⟨e, he'⟩ | ⟨i, hsqi, _, _, _, ⟨e, he'⟩ | ⟨rings, r, hok, he', _⟩⟩
    · rw [he']
      exact Or.inl ⟨⟨hqm, rfl, rfl, hassign⟩, e, rfl⟩
    · rw [he']
      exact Or.inl ⟨⟨hqm, rfl, rfl, halloc⟩, e, rfl⟩
    · rw [he']
      rw [hself] at hsqi
      dsimp only at hsqi
      subst hsqi
      have hcommand : ((({ d with queueMgr := qm }).assignQueues c (.queue i) cq).allocCid c).commands c
          = { d.commands c with
              sq := .queue i
              cq
              sqe := { (d.commands c).sqe with CID := BitVec.ofNat 16 d.cidMgr.alloc.1 }
              stamp := d.cidMgr.allocs } := by
        unfold allocCid
        rw [setCommand_self, hself]
        rfl
      rw [hcommand] at hok
      refine Or.inr ⟨i, cq, hl, hqm, ⟨_, hok⟩, ⟨_, rfl⟩, fun c' hc => ?_, ?_⟩
      · exact (Function.update_of_ne hc ..).trans (halloc c' hc)
      · unfold started
        rw [setCommand_self, hcommand]

/-- The queue of an IO command is one of an IO pair. -/
theorem lookup_io {i : Nat} {cq : QueueRef Nat} (hio : (d.commands c).cmdsetAdmin = false)
    (hsqid : sqid ≠ some 0) (hcqid : sqid = none → cqid = none)
    (hids : ∀ id ∈ d.queueMgr.ioSqids, id ≠ 0) (h : d.lookup c sqid cqid = .ok (.queue i, cq)) :
    ∃ e ∈ d.queueMgr.nvmeQueues.entries, e.2.1 = some i ∧ cq = .ofOption e.2.2 ∧ e.1.1 ≠ 0 := by
  unfold lookup pickIds at h
  cases sqid with
  | some id =>
      dsimp only at h
      obtain ⟨e, he, hsq, hcq, hid, _⟩ := QueueMgr.get_queue h
      refine ⟨e, he, hsq, hcq, ?_⟩
      rw [hid id rfl]
      exact fun h0 => hsqid (congrArg some h0)
  | none =>
      -- no queue id given: the next one in turn is taken
      rw [hcqid rfl] at h
      dsimp only at h
      rw [hio, if_neg (by simp)] at h
      cases hnext : d.queueMgr.nextIosqId with
      | error e =>
          rw [hnext] at h
          exact absurd h (by simp)
      | ok next =>
          obtain ⟨id, qm⟩ := next
          rw [hnext] at h
          dsimp only at h
          obtain ⟨hturned, hmem⟩ := QueueMgr.nextIosqId_turned hnext
          obtain ⟨e, he, hsq, hcq, hid, hnone⟩ := QueueMgr.get_queue h
          rw [hturned.nvmeQueues] at he
          refine ⟨e, he, hsq, hcq, ?_⟩
          cases id with
          | none => exact absurd rfl (hnone rfl)
          | some id =>
              rw [hid id rfl]
              exact hids id (hmem id rfl)

/-- The queues of an admin command are the admin pair. -/
theorem lookup_admin (hadmin : (d.commands c).cmdsetAdmin = true) :
    d.lookup c none none = d.queueMgr.get (some 0) (some 0) := by
  unfold lookup pickIds
  dsimp only
  rw [if_pos hadmin]

/-! ## Polling -/

/-- What a poll does at most: it moves on the queues of one outstanding command. -/
structure Polled (d d' : NVMeDeviceCommon) : Prop where
  queueMgr : d'.queueMgr = d.queueMgr
  sqRing : d'.rings.sqRing = d.rings.sqRing
  cqRing : d'.rings.cqRing = d.rings.cqRing
  SQTAIL : d'.rings.SQTAIL = d.rings.SQTAIL
  simSq : d'.rings.simSq = d.rings.simSq
  simCq : d'.rings.simCq = d.rings.simCq
  sqPlace : ∀ i, (d'.rings.hostSq i).place = (d.rings.hostSq i).place
  cqPlace : ∀ h, (d'.rings.hostCq h).place = (d.rings.hostCq h).place
  CQHEAD : ∀ q, d'.rings.CQHEAD q ≠ d.rings.CQHEAD q →
    ∃ e ∈ d.outstandingCommands.entries, ∃ h, (d.commands e.2).cq = .queue h
      ∧ (d.rings.hostCq h).qid = q
  outstanding : ∀ e ∈ d'.outstandingCommands.entries, e ∈ d.outstandingCommands.entries
  cq : ∀ c, (d'.commands c).cq = (d.commands c).cq

theorem Polled.refl (d : NVMeDeviceCommon) : Polled d d :=
  ⟨rfl, rfl, rfl, rfl, rfl, rfl, fun _ => rfl, fun _ => rfl, fun _ h => absurd rfl h, fun _ h => h,
    fun _ => rfl⟩

/-- A command object keeps its completion queue. -/
theorem cq_setCommand {command : Command} (h : command.cq = (d.commands c).cq) (c' : Nat) :
    ((d.setCommand c command).commands c').cq = (d.commands c').cq := by
  by_cases hc : c' = c
  · rw [hc, setCommand_self, h]
  · rw [setCommand_of_ne d hc]

/-- The queues of a command that is outstanding move on. -/
theorem polled_advanceQueues {i h : Nat} {cqe : CQE} {key : BitVec 16 × Nat}
    (hcq : (d.commands c).cq = .queue h)
    (hout : (key, c) ∈ d.outstandingCommands.entries) {command : Command}
    (hcommand : command.cq = (d.commands c).cq) (key' : BitVec 16 × Nat) :
    Polled d (({ d with outstandingCommands := d.outstandingCommands.erase key' }.setCommand c
      command).advanceQueues i h cqe) where
  queueMgr := rfl
  sqRing := rfl
  cqRing := rfl
  SQTAIL := rfl
  simSq := rfl
  simCq := rfl
  sqPlace j := by
    show (Function.update d.rings.hostSq i _ j).place = _
    by_cases hj : j = i
    · rw [hj, Function.update_self]
      rfl
    · rw [Function.update_of_ne hj]
  cqPlace g := by
    show (Function.update d.rings.hostCq h _ g).place = _
    by_cases hg : g = h
    · rw [hg, Function.update_self, NVMeCompletionQueue.consumeCompletion_object]
      rfl
    · rw [Function.update_of_ne hg]
  CQHEAD q hq := by
    refine ⟨_, hout, h, hcq, ?_⟩
    by_contra hne
    exact hq (Function.update_of_ne (fun he => hne he.symm) _ _)
  outstanding e he := (Dict.mem_entries_erase.mp he).2
  cq := cq_setCommand (d := { d with outstandingCommands := d.outstandingCommands.erase key' }) hcommand

theorem polled_setCommand {command : Command} (hcommand : command.cq = (d.commands c).cq) :
    Polled d (d.setCommand c command) :=
  { Polled.refl d with cq := cq_setCommand hcommand }

theorem polled_erase {command : Command} (hcommand : command.cq = (d.commands c).cq)
    (key : BitVec 16 × Nat) : Polled d ({ d with
      outstandingCommands := d.outstandingCommands.erase key }.setCommand c command) :=
  { Polled.refl d with
    outstanding := fun _ he => (Dict.mem_entries_erase.mp he).2
    cq := cq_setCommand (d := { d with
      outstandingCommands := d.outstandingCommands.erase key }) hcommand }

theorem polled_finishCommand {i : Nat} {cqe : CQE} {key : BitVec 16 × Nat}
    (hout : (key, c) ∈ d.outstandingCommands.entries) {command : Command}
    (hcommand : command.cq = (d.commands c).cq) (key' : BitVec 16 × Nat) :
    Polled d (({ d with outstandingCommands := d.outstandingCommands.erase key' }.setCommand c
      command).finishCommand i (d.commands c).cq cqe).1 := by
  cases hcq : (d.commands c).cq with
  | queue h => exact polled_advanceQueues hcq hout hcommand _
  | id n => exact polled_erase hcommand _
  | none => exact polled_erase hcommand _

theorem completeCommand_polled {key : BitVec 16 × Nat} (hout : (key, c) ∈ d.outstandingCommands.entries)
    (cqe : CQE) (dataIn : Except Exc (List (BitVec 8))) :
    Polled d (d.completeCommand c cqe dataIn).1 := by
  unfold completeCommand
  dsimp only
  by_cases hposted : (d.commands c).posted = false
  · rw [if_pos hposted]
    exact Polled.refl d
  rw [if_neg hposted]
  by_cases hcid : (d.commands c).sqe.CID ≠ cqe.CID
  · rw [if_pos hcid]
    exact Polled.refl d
  rw [if_neg hcid]
  cases hsq : (d.commands c).sq with
  | id n => exact Polled.refl d
  | none => exact Polled.refl d
  | queue i =>
      dsimp only
      by_cases hqid : (d.rings.hostSq i).qid ≠ cqe.SQID.toNat
      · rw [if_pos hqid]
        exact Polled.refl d
      rw [if_neg hqid]
      split
      · exact polled_setCommand rfl
      · split
        · refine polled_erase ?_ _
          rfl
        · refine polled_finishCommand hout ?_ _
          rfl
        · refine polled_finishCommand hout ?_ _
          rfl

/-- **What `get_completion` does**, with any outcome. -/
theorem getCompletion_polled (d : NVMeDeviceCommon) (cqid : Nat) (dataIn : Except Exc (List (BitVec 8))) :
    Polled d (d.getCompletion cqid dataIn).1 := by
  unfold getCompletion
  split
  · exact Polled.refl d
  · rename_i h _
    by_cases hmatch : d.rings.phaseMatch h = true
    · rw [if_pos hmatch]
      dsimp only
      split
      · exact Polled.refl d
      · rename_i c hget
        have hpolled := completeCommand_polled (Dict.get?_eq_some_iff.mp hget)
          (d.rings.nextCompletion h) dataIn
        cases hx : d.completeCommand c (d.rings.nextCompletion h) dataIn with
        | mk d' r =>
            rw [hx] at hpolled
            cases r with
            | ok _ => exact hpolled
            | error e => exact hpolled
    · rw [if_neg hmatch]
      exact Polled.refl d
  · exact Polled.refl d

end NVMeDeviceCommon

end LoneNvme
