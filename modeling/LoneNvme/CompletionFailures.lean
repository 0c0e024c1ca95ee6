import LoneNvme.Device
import LoneNvme.Prp

/-!
# When processing a completion raises

`complete_command` first makes its sanity checks. Then it marks the command, takes it out of
the outstanding ones, copies the data and moves the queues on, in this order and without
undoing anything. So what an exception leaves depends on whether it comes from the checks.

`Sane` are the checks. If they fail, the call leaves everything as it was. If they succeed, the
command is marked before the data is copied, so a call that raises behind them is never all or
nothing; `allOrNothing_iff` says which two things can raise there.
-/

namespace LoneNvme

open Lib

/-- What a command that reads data has for it: its PRP, if it was given one, and `sizeof(data_in_type)`. -/
structure DataIn where
  prp : Option PRP
  size : Nat

namespace DataIn

/-- `data_in_type.from_buffer_copy(command.prp.get_data_buffer())`. -/
def copy (x : DataIn) (mem : Mem) : Except Exc (List (BitVec 8)) :=
  match x.prp with
  | none => .error (.attributeError "'NoneType' object has no attribute 'get_data_buffer'")
  | some prp =>
      match prp.getDataBuffer mem with
      | .error e => .error e
      | .ok buffer =>
          if buffer.length < x.size then
            .error (.valueError ("Buffer size too small (" ++ toString buffer.length
              ++ " instead of at least " ++ toString x.size ++ " bytes)"))
          else
            .ok (buffer.take x.size)

/-- There is a PRP, and its buffer is long enough. -/
def Copies (x : DataIn) (mem : Mem) : Prop :=
  ∃ prp buffer, x.prp = some prp ∧ prp.getDataBuffer mem = .ok buffer ∧ x.size ≤ buffer.length

theorem copy_ok_iff {x : DataIn} {mem : Mem} : (∃ bytes, x.copy mem = .ok bytes) ↔ x.Copies mem := by
  unfold copy Copies
  cases x.prp with
  | none => exact ⟨fun ⟨_, h⟩ => absurd h (by simp), fun ⟨_, _, h, _⟩ => absurd h (by simp)⟩
  | some prp =>
      dsimp only
      cases hbuffer : prp.getDataBuffer mem with
      | error e =>
          refine ⟨fun ⟨_, h⟩ => absurd h (by simp), ?_⟩
          rintro ⟨prp', buffer, hprp, hok, _⟩
          rw [← Option.some.inj hprp, hbuffer] at hok
          exact absurd hok (by simp)
      | ok buffer =>
          dsimp only
          by_cases hlt : buffer.length < x.size
          · rw [if_pos hlt]
            refine ⟨fun ⟨_, h⟩ => absurd h (by simp), ?_⟩
            rintro ⟨prp', buffer', hprp, hok, hle⟩
            rw [← Option.some.inj hprp, hbuffer] at hok
            rw [← Except.ok.inj hok] at hle
            exact absurd hle (Nat.not_le_of_lt hlt)
          · rw [if_neg hlt]
            exact ⟨fun _ => ⟨prp, buffer, rfl, hbuffer, Nat.le_of_not_lt hlt⟩, fun _ => ⟨_, rfl⟩⟩

end DataIn

namespace NVMeDeviceCommon

/-- What a failed call may not touch. -/
structure Kept (d d' : NVMeDeviceCommon) : Prop where
  outstandingCommands : d'.outstandingCommands = d.outstandingCommands
  flags : ∀ c, (d'.commands c).posted = (d.commands c).posted
    ∧ (d'.commands c).complete = (d.commands c).complete
  cqHead : d'.rings.CQHEAD = d.rings.CQHEAD
  cqPhase : ∀ h, (d'.rings.hostCq h).phase = (d.rings.hostCq h).phase
  sqHead : ∀ i, (d'.rings.hostSq i).head = (d.rings.hostSq i).head

/-- A poll that raises leaves nothing half done, and a later one goes as if it had not been made. -/
def AllOrNothing (d : NVMeDeviceCommon) (cqid : Nat) (dataIn : Except Exc (List (BitVec 8))) : Prop :=
  ∀ d' e, d.getCompletion cqid dataIn = (d', .error e) →
    Kept d d' ∧ ∀ again, d'.getCompletion cqid again = d.getCompletion cqid again

/-- There is a new entry on the queue, and it is for command `c`. -/
structure Finds (d : NVMeDeviceCommon) (cqid h c : Nat) : Prop where
  queue : ∃ sq, d.queueMgr.get (if cqid = 0 then some 0 else none) (some cqid) = .ok (sq, .queue h)
  phase : d.rings.phaseMatch h = true
  command : d.outstandingCommands.get?
    ((d.rings.nextCompletion h).CID, (d.rings.nextCompletion h).SQID.toNat) = some c

/-- The sanity checks of `complete_command`; the command is on queue `i`. -/
structure Sane (d : NVMeDeviceCommon) (c : Nat) (cqe : CQE) (i : Nat) : Prop where
  posted : (d.commands c).posted = true
  cid : (d.commands c).sqe.CID = cqe.CID
  sq : (d.commands c).sq = .queue i
  sqid : (d.rings.hostSq i).qid = cqe.SQID.toNat

/-- The data can be copied, if the command reads any, and there is a queue to move on. -/
structure Completable (d : NVMeDeviceCommon) (c : Nat) (dataIn : Except Exc (List (BitVec 8))) :
    Prop where
  data : (d.commands c).dataIn ≠ none → ∃ bytes, dataIn = .ok bytes
  cq : ∃ h, (d.commands c).cq = .queue h

variable {d : NVMeDeviceCommon} {c i : Nat} {cqe : CQE} {dataIn : Except Exc (List (BitVec 8))}

/-- Where a check fails, nothing has been done. -/
theorem completeCommand_insane (h : ∀ i, ¬ Sane d c cqe i) :
    ∃ e, d.completeCommand c cqe dataIn = (d, .error e) := by
  unfold completeCommand
  dsimp only
  by_cases hposted : (d.commands c).posted = false
  · rw [if_pos hposted]
    exact ⟨_, rfl⟩
  rw [if_neg hposted]
  by_cases hcid : (d.commands c).sqe.CID ≠ cqe.CID
  · rw [if_pos hcid]
    exact ⟨_, rfl⟩
  rw [if_neg hcid]
  cases hsq : (d.commands c).sq with
  | id n => exact ⟨_, rfl⟩
  | none => exact ⟨_, rfl⟩
  | queue i =>
      dsimp only
      by_cases hqid : (d.rings.hostSq i).qid ≠ cqe.SQID.toNat
      · rw [if_pos hqid]
        exact ⟨_, rfl⟩
      · exact absurd ⟨Bool.eq_true_of_not_eq_false hposted, not_not.mp hcid, hsq, not_not.mp hqid⟩
          (h i)

/-- Past the checks the command is marked, whatever comes then. -/
theorem Sane.marked (h : Sane d c cqe i) : ((d.completeCommand c cqe dataIn).1.commands c).posted
    = false := by
  unfold completeCommand
  dsimp only
  rw [if_neg (by rw [h.posted]; simp), if_neg (not_not.mpr h.cid), h.sq]
  dsimp only
  rw [if_neg (not_not.mpr h.sqid)]
  split
  · rw [setCommand_self]
  · split
    · exact congrArg Command.posted (setCommand_self ..)
    · unfold finishCommand
      split <;> exact congrArg Command.posted (setCommand_self ..)
    · unfold finishCommand
      split <;> exact congrArg Command.posted (setCommand_self ..)

/-- Past the checks a command that can be completed is, and its queues have moved on. -/
theorem Sane.completed {g : Nat} (h : Sane d c cqe i)
    (hdata : (d.commands c).dataIn ≠ none → ∃ bytes, dataIn = .ok bytes)
    (hcq : (d.commands c).cq = .queue g)
    (hkey : (cqe.CID, cqe.SQID.toNat) ∈ d.outstandingCommands.keys) :
    ∃ d', d.completeCommand c cqe dataIn = (d', .ok ()) ∧ d'.queueMgr = d.queueMgr
      ∧ d'.rings = (d.rings.consumeCompletion g).setHead i cqe.SQHD.toNat := by
  unfold completeCommand
  dsimp only
  rw [if_neg (by rw [h.posted]; simp), if_neg (not_not.mpr h.cid), h.sq]
  dsimp only
  rw [if_neg (not_not.mpr h.sqid), h.cid, h.sqid, if_neg (fun hn => hn hkey), hcq]
  cases hold : (d.commands c).dataIn with
  | none => exact ⟨_, rfl, rfl, rfl⟩
  | some old =>
      obtain ⟨bytes, hok⟩ := hdata (by rw [hold]; simp)
      rw [hok]
      exact ⟨_, rfl, rfl, rfl⟩

/-- Past the checks a command that cannot be completed raises. -/
theorem Sane.raises (h : Sane d c cqe i) (hc : ¬ Completable d c dataIn) :
    ∃ d' e, d.completeCommand c cqe dataIn = (d', .error e) := by
  unfold completeCommand
  dsimp only
  rw [if_neg (by rw [h.posted]; simp), if_neg (not_not.mpr h.cid), h.sq]
  dsimp only
  rw [if_neg (not_not.mpr h.sqid)]
  split
  · exact ⟨_, _, rfl⟩
  · cases hcq : (d.commands c).cq with
    | queue g =>
        -- there is a queue, so it is the data
        cases hdata : (d.commands c).dataIn with
        | none => exact absurd ⟨fun hne => absurd hdata hne, g, hcq⟩ hc
        | some old =>
            cases dataIn with
            | ok bytes => exact absurd ⟨fun _ => ⟨bytes, rfl⟩, g, hcq⟩ hc
            | error e => exact ⟨_, _, rfl⟩
    | id n => cases (d.commands c).dataIn <;> cases dataIn <;> exact ⟨_, _, rfl⟩
    | none => cases (d.commands c).dataIn <;> cases dataIn <;> exact ⟨_, _, rfl⟩

/-! ## The poll -/

variable {cqid h : Nat}

/-- Where no entry is found, or none of a known command, nothing has been done. -/
theorem getCompletion_of_not_finds (hnone : ∀ h c, ¬ Finds d cqid h c) :
    ∃ r, d.getCompletion cqid dataIn = (d, r) := by
  unfold getCompletion
  cases hget : d.queueMgr.get (if cqid = 0 then some 0 else none) (some cqid) with
  | error e => exact ⟨_, rfl⟩
  | ok queues =>
      obtain ⟨sq, cq⟩ := queues
      cases cq with
      | id n => exact ⟨_, rfl⟩
      | none => exact ⟨_, rfl⟩
      | queue h =>
          dsimp only
          by_cases hphase : d.rings.phaseMatch h = true
          · rw [if_pos hphase]
            cases hcommand : d.outstandingCommands.get?
                ((d.rings.nextCompletion h).CID, (d.rings.nextCompletion h).SQID.toNat) with
            | none => exact ⟨_, rfl⟩
            | some c => exact absurd ⟨⟨sq, hget⟩, hphase, hcommand⟩ (hnone h c)
          · rw [if_neg hphase]
            exact ⟨_, rfl⟩

theorem Finds.getCompletion (hf : Finds d cqid h c) : d.getCompletion cqid dataIn
    = ((d.completeCommand c (d.rings.nextCompletion h) dataIn).1,
      (d.completeCommand c (d.rings.nextCompletion h) dataIn).2.map fun _ => true) := by
  obtain ⟨sq, hget⟩ := hf.queue
  unfold NVMeDeviceCommon.getCompletion
  rw [hget]
  dsimp only
  rw [if_pos hf.phase, hf.command]
  dsimp only
  cases d.completeCommand c (d.rings.nextCompletion h) dataIn with
  | mk d' r => cases r <;> rfl

/-- A call that leaves the state alone is all or nothing. -/
theorem allOrNothing_of_same (hsame : ∃ r, d.getCompletion cqid dataIn = (d, r)) :
    AllOrNothing d cqid dataIn := by
  obtain ⟨r, heq⟩ := hsame
  intro d' e hraise
  rw [heq] at hraise
  rw [← (Prod.mk.inj hraise).1]
  exact ⟨⟨rfl, fun _ => ⟨rfl, rfl⟩, rfl, fun _ => rfl, fun _ => rfl⟩, fun _ => rfl⟩

/-- A call that raises past the checks is not. -/
theorem Sane.not_allOrNothing (hf : Finds d cqid h c) (hs : Sane d c (d.rings.nextCompletion h) i)
    (hc : ¬ Completable d c dataIn) : ¬ AllOrNothing d cqid dataIn := by
  intro hall
  obtain ⟨d', e, hraise⟩ := hs.raises hc
  have hmarked := @Sane.marked d c i _ dataIn hs
  rw [hraise] at hmarked
  have hpoll : d.getCompletion cqid dataIn = (d', .error e) := by
    rw [hf.getCompletion, hraise]
    rfl
  have hflag := ((hall d' e hpoll).1.flags c).1
  rw [hmarked, hs.posted] at hflag
  exact absurd hflag (by decide)

/--
**When a poll is all or nothing**: exactly if the entry is for no command that passes the
checks, or for one whose data can be copied and that has a completion queue.

The checks come first and change nothing. After them the command is taken out of the map and
marked complete, and only then is its data copied and its entry consumed.
-/
theorem allOrNothing_iff (d : NVMeDeviceCommon) (cqid : Nat) (x : DataIn) (mem : Mem) :
    AllOrNothing d cqid (x.copy mem)
      ↔ ∀ h c i, Finds d cqid h c → Sane d c (d.rings.nextCompletion h) i →
          ((d.commands c).dataIn ≠ none → x.Copies mem) ∧ ∃ g, (d.commands c).cq = .queue g := by
  constructor
  · intro hall h c i hf hs
    have hc : Completable d c (x.copy mem) := by
      by_contra hc
      exact hs.not_allOrNothing hf hc hall
    exact ⟨fun hne => DataIn.copy_ok_iff.mp (hc.data hne), hc.cq⟩
  · intro hcan
    by_cases hfound : ∃ h c, Finds d cqid h c
    · obtain ⟨h, c, hf⟩ := hfound
      by_cases hsane : ∃ i, Sane d c (d.rings.nextCompletion h) i
      · -- it does not raise
        obtain ⟨i, hs⟩ := hsane
        obtain ⟨hdata, hcq⟩ := hcan h c i hf hs
        have hkey := Dict.mem_keys.mpr ⟨c, Dict.get?_eq_some_iff.mp hf.command⟩
        obtain ⟨g, hcq⟩ := hcq
        obtain ⟨d', hok, _⟩ := hs.completed (fun hne => DataIn.copy_ok_iff.mpr (hdata hne)) hcq hkey
        intro d'' e hraise
        rw [hf.getCompletion, hok] at hraise
        exact absurd (Prod.mk.inj hraise).2 (by simp [Except.map])
      · -- the checks of the source come first, before anything is changed
        obtain ⟨e, hraise⟩ := @completeCommand_insane d c _ (x.copy mem) (not_exists.mp hsane)
        refine allOrNothing_of_same ⟨.error e, ?_⟩
        rw [hf.getCompletion, hraise]
        rfl
    · -- no completion to take: nothing happens
      exact allOrNothing_of_same
        (getCompletion_of_not_finds fun h c hf => hfound ⟨h, c, hf⟩)

/-- The entry of an admin command that reads data, but was given no memory. -/
def unallocated : NVMeDeviceCommon where
  cidMgr := {}
  queueMgr := ({} : QueueMgr Nat Nat).add 0 0 0 0
  outstandingCommands := Dict.empty.set (0x1000, 0) 0
  commands _ := { sqe := { CID := 0x1000 }, sq := .queue 0, cq := .queue 0, posted := true
                  dataIn := some [] }
  rings :=
    { sqRing := fun _ _ => {}
      cqRing := fun _ _ => { CID := 0x1000, SF := { P := 1 } }
      SQTAIL := fun _ => 1
      CQHEAD := fun _ => 0
      hostSq := fun _ => { baseAddress := 0, entries := 2, entrySize := 64, qid := 0 }
      hostCq := fun _ => { baseAddress := 0, entries := 2, entrySize := 16, qid := 0 }
      simSq := fun _ => default
      simCq := fun _ => default
      posted := fun _ => []
      fetched := fun _ => 0
      acked := fun _ => 0
      cposted := fun _ => []
      consumed := fun _ => 0 }

/-- The command is out of the map and marked complete, but its completion is still on the queue. -/
theorem not_allOrNothing_unallocated : ¬ ∀ (d : NVMeDeviceCommon) (cqid : Nat) (x : DataIn)
    (mem : Mem), AllOrNothing d cqid (x.copy mem) := by
  intro h
  have hf : Finds unallocated 0 0 0 := ⟨⟨.queue 0, rfl⟩, rfl, rfl⟩
  have hs : Sane unallocated 0 (unallocated.rings.nextCompletion 0) 0 := ⟨rfl, rfl, rfl, rfl⟩
  have hnot : ¬ AllOrNothing unallocated 0 (DataIn.copy ⟨none, 4096⟩ fun _ => 0) := by
    refine hs.not_allOrNothing hf fun hc => ?_
    obtain ⟨bytes, hok⟩ := hc.data (by simp [unallocated])
    exact absurd hok (by simp [DataIn.copy])
  exact hnot (h unallocated 0 ⟨none, 4096⟩ fun _ => 0)

end NVMeDeviceCommon

end LoneNvme
