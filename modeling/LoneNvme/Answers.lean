import LoneNvme.NVSim
import LoneNvme.PrpData

/-!
# Which commands are answered

A handler that returns has posted exactly one completion for its command. Which
handlers return depends on a few fields only; for the others the simulator thread
ends, and the host waits for ever. `AdminAnswerable` and `NvmAnswerable` are the exact
conditions on the command and the state it meets.

A handler is a chain of steps each of which may raise, and only the last one posts. Each handler
is gone through once and has its own condition; `answered_admin` and `answered_nvm` put them
under their opcodes. That the completion queue has room is a hypothesis throughout: without it
nothing can be posted.
-/

namespace LoneNvme

open Lib

namespace NVSim

/--
The command was answered: the handler returned, and what it posted is one entry, at
the tail of the paired completion queue, that names the command and its queue.
-/
def Answered (r : Rings) (command : Generic) (i c : Nat) (x : Except Exc NVSim) : Prop :=
  ∃ nvsim cqe, x = .ok nvsim
    ∧ cqe.CID = command.CID ∧ cqe.SQID = BitVec.ofNat 16 (r.simSq i).qid
    ∧ nvsim.rings.cposted = Function.update r.cposted c (r.cposted c ++ [cqe])
    ∧ nvsim.rings.cqRing (r.simCq c).baseAddress (r.simCq c).tail = cqe
    ∧ (nvsim.rings.simCq c).tail = NVMeHeadTail.advance (r.simCq c).entries (r.simCq c).tail

/-- The paired queue has room for one more entry. -/
def HasRoom (r : Rings) (c : Nat) : Prop :=
  (r.simCq c).isFull (r.CQHEAD (r.simCq c).qid) = false

variable {nvsim : NVSim} {command : Generic} {i c : Nat}

theorem not_answered_error {r : Rings} (e : Exc) : ¬ Answered r command i c (.error e) := by
  rintro ⟨_, _, h, _⟩
  exact absurd h (by simp)

/-- **`complete` answers**, with any status. -/
theorem answered_complete (nvsim : NVSim) (hroom : HasRoom nvsim.rings c) (statusCode : Nat)
    (cmdSpec : BitVec 32) :
    Answered nvsim.rings command i c (nvsim.complete command.CID i c statusCode cmdSpec) := by
  unfold complete Rings.complete NVSimCmdHandlerInterface.complete
  dsimp only
  rw [NVMeCompletionQueue.postCompletion_ok hroom]
  dsimp only
  refine ⟨_, _, rfl, ?_, ?_, rfl, ?_, ?_⟩
  · rfl
  · rfl
  · exact (congrFun (Function.update_self _ _ _) _).trans (Function.update_self _ _ _)
  · show NVMeCompletionQueue.tail (Function.update nvsim.rings.simCq c _ c) = _
    rw [Function.update_self]

/-- What a handler does to the rings before it completes may not touch the two queues in use. -/
theorem Answered.mono {r r' : Rings} {x : Except Exc NVSim} (h : Answered r' command i c x)
    (hsq : r'.simSq i = r.simSq i) (hcq : r'.simCq c = r.simCq c) (hposted : r'.cposted = r.cposted) :
    Answered r command i c x := by
  obtain ⟨nvsim', cqe, hx, hcid, hsqid, hp, hmem, htail⟩ := h
  rw [hsq] at hsqid
  rw [hcq] at hmem htail
  rw [hposted] at hp
  exact ⟨nvsim', cqe, hx, hcid, hsqid, hp, hmem, htail⟩

theorem HasRoom.mono {r r' : Rings} (h : HasRoom r c) (hcq : r'.simCq c = r.simCq c)
    (hhead : r'.CQHEAD = r.CQHEAD) : HasRoom r' c := by
  unfold HasRoom
  rw [hcq, hhead]
  exact h

/-- The handlers and the conditions are looked up by the same opcodes. -/
theorem answered_ite {P p q : Prop} {_ : Decidable P}
    {f g : NVSim → Generic → Nat → Nat → Except Exc NVSim}
    (hf : Answered nvsim.rings command i c (f nvsim command i c) ↔ p)
    (hg : Answered nvsim.rings command i c (g nvsim command i c) ↔ q) :
    Answered nvsim.rings command i c ((if P then f else g) nvsim command i c)
      ↔ if P then p else q := by
  by_cases h : P
  · rw [if_pos h, if_pos h]
    exact hf
  · rw [if_neg h, if_neg h]
    exact hg

/-! ## Admin commands -/

/-- Whether the queue manager can delete the completion queue `q`. -/
def CqDeletable (qm : QueueMgr Nat Nat) (q : Nat) : Prop :=
  q ≠ 0 ∧ (∀ e ∈ qm.nvmeQueues.entries, e.1.2 = q → e.2.1.isNone)
    ∧ qm.nvmeQueues.entries.countP (fun e => e.1.2 = q) ≤ qm.ioCqids.count q

/-- Whether it can delete the submission queue `q`: as many ids listed as there are pairs. -/
def SqDeletable (qm : QueueMgr Nat Nat) (q : Nat) : Prop :=
  q ≠ 0 ∧ qm.nvmeQueues.entries.countP (fun e => e.1.1 = q) ≤ qm.ioSqids.count q

/-- The admin commands that are answered. -/
def AdminAnswerable (nvsim : NVSim) (command : Generic) : Prop :=
  if command.OPC = Identify.OPC then command.PRP1 ≠ 0
  else if command.OPC = CreateIOCompletionQueue.OPC then True
  else if command.OPC = CreateIOSubmissionQueue.OPC then True
  else if command.OPC = DeleteIOCompletionQueue.OPC then
    CqDeletable nvsim.queueMgr (DeleteIOCompletionQueue.QID command).toNat
  else if command.OPC = DeleteIOSubmissionQueue.OPC then
    SqDeletable nvsim.queueMgr (DeleteIOSubmissionQueue.QID command).toNat
  else if command.OPC = GetLogPage.OPC then
    GetLogPage.LID command = 0 → GetLogPage.OT command ≠ 0
  else if command.OPC = FormatNVM.OPC then False
  else if command.OPC = GetFeature.OPC then GetFeature.FID command = FeaturePowerManagement.fid
  else if command.OPC = SetFeature.OPC then
    SetFeature.FID command = FeaturePowerManagement.fid ∧ SetFeature.SV command = 0
  else True

theorem answered_identify (hroom : HasRoom nvsim.rings c) :
    Answered nvsim.rings command i c (nvsim.NVSimIdentify command i c) ↔ command.PRP1 ≠ 0 := by
  have hreach : PRP.Reaches 4096 mps nvsim.mem command.PRP1.toNat 0 ↔ command.PRP1 ≠ 0 := by
    constructor
    · rintro ⟨h, _, _⟩ h0
      rw [h0] at h
      exact h rfl
    · intro h
      refine ⟨fun h0 => h (BitVec.eq_of_toNat_eq h0), fun hlt => ?_, fun hlt => ?_⟩
      · exact absurd hlt (by decide)
      · exact absurd hlt (by decide)
  -- a page takes any data in one piece
  have hfits : ∀ n, PRP.Fits mps n (PRP.segmentCount 4096 mps nvsim.mem command.PRP1.toNat 0) := by
    intro n
    rw [PRP.segmentCount, if_pos (by decide)]
    exact Or.inr (Nat.le_max_left 1 _)
  unfold NVSimIdentify
  by_cases hptr : command.PRP1 ≠ 0
  · refine ⟨fun _ => hptr, fun _ => ?_⟩
    obtain ⟨data, statusCode⟩ := nvsim.identifyAnswer command
    cases data with
    | none =>
        obtain ⟨prp, _, hprp, _⟩ := (PRP.attach_setData (by decide) (by decide) []).1
          ⟨hreach.mpr hptr, hfits _⟩
        rw [hprp]
        exact answered_complete _ hroom _ _
    | some data =>
        obtain ⟨prp, mem, hprp, hset⟩ := (PRP.attach_setData (by decide) (by decide) data).1
          ⟨hreach.mpr hptr, hfits _⟩
        rw [hprp]
        dsimp only [bind, Except.bind]
        rw [hset]
        exact answered_complete { nvsim with mem } hroom _ _
  · refine ⟨fun h => ?_, fun h => absurd h hptr⟩
    obtain ⟨e, he⟩ := (@PRP.attach_eq mps 4096 command.PRP1.toNat 0 nvsim.mem (by decide) (by decide)).2
      fun hok => hptr fun h0 => hok.1 (by rw [h0]; rfl)
    rw [he] at h
    exact absurd h (not_answered_error e)

/-- Adding a queue object leaves the two in use alone. -/
theorem newCq_simCq (base entries qid : Nat) (hc : c < nvsim.nextCq) :
    (nvsim.newCq base entries qid).rings.simCq c = nvsim.rings.simCq c :=
  Function.update_of_ne (Nat.ne_of_lt hc) ..

theorem newSq_simSq (base entries qid : Nat) (hi : i < nvsim.nextSq) :
    (nvsim.newSq base entries qid).rings.simSq i = nvsim.rings.simSq i :=
  Function.update_of_ne (Nat.ne_of_lt hi) ..

theorem answered_createIOCompletionQueue (hc : c < nvsim.nextCq) (hroom : HasRoom nvsim.rings c) :
    Answered nvsim.rings command i c (nvsim.NVSimCreateIOCompletionQueue command i c) := by
  unfold NVSimCreateIOCompletionQueue
  by_cases hpc : CreateIOCompletionQueue.PC command ≠ 1
  · rw [if_pos hpc]
    exact answered_complete _ hroom _ _
  · rw [if_neg hpc]
    have hcq := newCq_simCq command.PRP1.toNat ((CreateIOCompletionQueue.QSIZE command).toNat + 1)
      (CreateIOCompletionQueue.QID command).toNat hc
    exact (answered_complete _ (hroom.mono hcq rfl) _ _).mono rfl hcq rfl

theorem answered_createIOSubmissionQueue (hi : i < nvsim.nextSq) (hroom : HasRoom nvsim.rings c) :
    Answered nvsim.rings command i c (nvsim.NVSimCreateIOSubmissionQueue command i c) := by
  unfold NVSimCreateIOSubmissionQueue
  dsimp only
  have hsq := newSq_simSq command.PRP1.toNat ((CreateIOSubmissionQueue.QSIZE command).toNat + 1)
    (CreateIOSubmissionQueue.QID command).toNat hi
  generalize hnew : nvsim.newSq command.PRP1.toNat
    ((CreateIOSubmissionQueue.QSIZE command).toNat + 1) (CreateIOSubmissionQueue.QID command).toNat
      = after at hsq ⊢
  have hcq : after.rings.simCq c = nvsim.rings.simCq c := by rw [← hnew]; rfl
  have hposted : after.rings.cposted = nvsim.rings.cposted := by rw [← hnew]; rfl
  have hroom' : HasRoom after.rings c := hroom.mono hcq (by rw [← hnew]; rfl)
  split
  · exact (answered_complete _ hroom' _ _).mono hsq hcq hposted
  · rename_i h _ _
    exact (answered_complete { after with
      queueMgr := after.queueMgr.add (CreateIOSubmissionQueue.QID command).toNat nvsim.nextSq
        (after.rings.simCq h).qid h } hroom' _ _).mono hsq hcq hposted

/-- A delete command is answered if its queue is not 0 and the queue manager can do without it. -/
theorem answered_delete {q : Nat} {msg : String} {removed : Except Exc (QueueMgr Nat Nat)}
    (hroom : HasRoom nvsim.rings c) :
    Answered nvsim.rings command i c (do
        assertThat (decide (q ≠ 0)) msg
        let queueMgr ← removed
        { nvsim with queueMgr }.complete command.CID i c StatusCodes.successfulCompletion)
      ↔ q ≠ 0 ∧ ∃ queueMgr, removed = .ok queueMgr := by
  by_cases h0 : q = 0
  · rw [decide_eq_false (not_not.mpr h0)]
    exact ⟨fun h => absurd h (not_answered_error _), fun h => absurd h0 h.1⟩
  · rw [decide_eq_true h0]
    cases removed with
    | ok queueMgr =>
        exact ⟨fun _ => ⟨h0, queueMgr, rfl⟩,
          fun _ => answered_complete { nvsim with queueMgr } hroom _ _⟩
    | error e =>
        exact ⟨fun h => absurd h (not_answered_error e), fun ⟨_, _, h⟩ => absurd h (by simp)⟩

theorem answered_deleteIOCompletionQueue (hroom : HasRoom nvsim.rings c) :
    Answered nvsim.rings command i c (nvsim.NVSimDeleteIOCompletionQueue command i c)
      ↔ CqDeletable nvsim.queueMgr (DeleteIOCompletionQueue.QID command).toNat := by
  refine (answered_delete hroom).trans (and_congr_right fun h0 => ?_)
  exact QueueMgr.removeCq_ok_iff h0

theorem answered_deleteIOSubmissionQueue (hroom : HasRoom nvsim.rings c) :
    Answered nvsim.rings command i c (nvsim.NVSimDeleteIOSubmissionQueue command i c)
      ↔ SqDeletable nvsim.queueMgr (DeleteIOSubmissionQueue.QID command).toNat := by
  refine (answered_delete hroom).trans (and_congr_right fun h0 => ?_)
  exact QueueMgr.removeSq_ok_iff h0

theorem answered_getLogPage (hroom : HasRoom nvsim.rings c) :
    Answered nvsim.rings command i c (nvsim.NVSimGetLogPage command i c)
      ↔ (GetLogPage.LID command = 0 → GetLogPage.OT command ≠ 0) := by
  unfold NVSimGetLogPage
  by_cases hlid : GetLogPage.LID command = 0
  · rw [if_pos hlid]
    by_cases hot : GetLogPage.OT command = 0
    · rw [if_pos hot]
      exact ⟨fun h => absurd h (not_answered_error _), fun h => absurd hot (h hlid)⟩
    · rw [if_neg hot]
      exact ⟨fun _ _ => hot, fun _ => answered_complete _ hroom _ _⟩
  · rw [if_neg hlid]
    exact ⟨fun _ h => absurd h hlid, fun _ => answered_complete _ hroom _ _⟩

theorem answered_getFeature (hroom : HasRoom nvsim.rings c) :
    Answered nvsim.rings command i c (nvsim.NVSimGetFeature command i c)
      ↔ GetFeature.FID command = FeaturePowerManagement.fid := by
  unfold NVSimGetFeature
  by_cases hfid : GetFeature.FID command = FeaturePowerManagement.fid
  · rw [if_pos hfid]
    exact ⟨fun _ => hfid, fun _ => answered_complete _ hroom _ _⟩
  · rw [if_neg hfid]
    exact ⟨fun h => absurd h (not_answered_error _), fun h => absurd h hfid⟩

theorem answered_setFeature (hroom : HasRoom nvsim.rings c) :
    Answered nvsim.rings command i c (nvsim.NVSimSetFeature command i c)
      ↔ SetFeature.FID command = FeaturePowerManagement.fid ∧ SetFeature.SV command = 0 := by
  unfold NVSimSetFeature
  by_cases hfid : SetFeature.FID command = FeaturePowerManagement.fid
  · rw [if_pos hfid]
    by_cases hsv : SetFeature.SV command = 0
    · rw [decide_eq_true hsv]
      exact ⟨fun _ => ⟨hfid, hsv⟩, fun _ => answered_complete
        { nvsim with powerState := FeaturePowerManagement.PS command } hroom _ _⟩
    · rw [decide_eq_false hsv]
      exact ⟨fun h => absurd h (not_answered_error _), fun h => absurd h.2 hsv⟩
  · rw [if_neg hfid]
    exact ⟨fun h => absurd h (not_answered_error _), fun h => absurd h.1 hfid⟩

/-- **The admin commands**, opcode by opcode. -/
theorem answered_admin (nvsim : NVSim) (hi : i < nvsim.nextSq) (hc : c < nvsim.nextCq)
    (hroom : HasRoom nvsim.rings c) :
    Answered nvsim.rings command i c (adminCmdHandler command.OPC nvsim command i c)
      ↔ AdminAnswerable nvsim command := by
  unfold adminCmdHandler AdminAnswerable
  refine answered_ite (answered_identify hroom) ?_
  refine answered_ite (iff_of_true (answered_createIOCompletionQueue hc hroom) trivial) ?_
  refine answered_ite (iff_of_true (answered_createIOSubmissionQueue hi hroom) trivial) ?_
  refine answered_ite (answered_deleteIOCompletionQueue hroom) ?_
  refine answered_ite (answered_deleteIOSubmissionQueue hroom) ?_
  refine answered_ite (answered_getLogPage hroom) ?_
  refine answered_ite (iff_of_false (not_answered_error _) not_false) ?_
  refine answered_ite (answered_getFeature hroom) ?_
  refine answered_ite (answered_setFeature hroom) ?_
  exact iff_of_true (answered_complete _ hroom _ _) trivial

/-! ## NVM commands -/

/-- The bytes a transfer moves. -/
def transferBytes (ns : NVSimNamespace) (nlb : BitVec 16) : Nat := (nlb.toNat + 1) * ns.blockSize

/-- A transfer in the range of its namespace that the handler carries out if `Fitting` holds. -/
def TransferOk (nvsim : NVSim) (command : Generic) (slba : BitVec 64) (nlb : BitVec 16)
    (Fitting : Nat → Nat → Prop) : Prop :=
  match nvsim.namespaceAt command.NSID.toNat with
  | .ok (some ns) => slba.toNat + nlb.toNat + 1 ≤ ns.numLbas →
      PRP.Reaches (transferBytes ns nlb) mps nvsim.mem command.PRP1.toNat command.PRP2.toNat
        ∧ Fitting (transferBytes ns nlb) (PRP.segmentCount (transferBytes ns nlb) mps nvsim.mem
          command.PRP1.toNat command.PRP2.toNat)
  | _ => False

/-- The NVM commands that are answered. -/
def NvmAnswerable (nvsim : NVSim) (command : Generic) : Prop :=
  if command.OPC = Write.OPC then
    nvsim.TransferOk command (Write.SLBA command) (Write.NLB command) fun n count => n ≤ count * mps
  else if command.OPC = Read.OPC then
    nvsim.TransferOk command (Read.SLBA command) (Read.NLB command) (PRP.Fits mps)
  else True

theorem blockSize_pos (ns : NVSimNamespace) : 0 < ns.blockSize := by
  rcases ns.supported with h | h <;> omega

/-- A transfer in range takes its bytes out of the middle of the file. -/
theorem transfer_range {ns : NVSimNamespace} {slba nlb : Nat} (h : slba + nlb + 1 ≤ ns.numLbas) :
    slba * ns.blockSize + (nlb + 1) * ns.blockSize ≤ ns.size := by
  rw [← Nat.add_mul]
  exact Nat.mul_le_mul_right _ (by omega)

/-- The slice of the file for a transfer in range. -/
theorem slice_bounds {ns : NVSimNamespace} {slba nlb : Nat} (h : slba + nlb + 1 ≤ ns.numLbas) :
    min (slba * ns.blockSize) ns.size = slba * ns.blockSize
      ∧ min (slba * ns.blockSize + (nlb + 1) * ns.blockSize) ns.size
          - min (slba * ns.blockSize) ns.size = (nlb + 1) * ns.blockSize := by
  have := transfer_range h
  omega

/--
A transfer: without a namespace it fails, out of its range it is answered with an error
status, and in range it is up to the body.
-/
theorem answered_transfer {slba : BitVec 64} {nlb : BitVec 16} {Fitting : Nat → Nat → Prop}
    {body : NVSimNamespace → Except Exc NVSim} (hroom : HasRoom nvsim.rings c)
    (hbody : ∀ ns : NVSimNamespace, slba.toNat + nlb.toNat + 1 ≤ ns.numLbas →
      (Answered nvsim.rings command i c (body ns) ↔
        PRP.Reaches (transferBytes ns nlb) mps nvsim.mem command.PRP1.toNat command.PRP2.toNat
          ∧ Fitting (transferBytes ns nlb) (PRP.segmentCount (transferBytes ns nlb) mps nvsim.mem
            command.PRP1.toNat command.PRP2.toNat))) :
    Answered nvsim.rings command i c (do
        let ns ← nvsim.transferNamespace command
        if slba.toNat + nlb.toNat + 1 > ns.numLbas then
          nvsim.complete command.CID i c StatusCodes.lbaOutOfRange
        else body ns)
      ↔ nvsim.TransferOk command slba nlb Fitting := by
  unfold TransferOk transferNamespace
  cases hns : nvsim.namespaceAt command.NSID.toNat with
  | error e => exact iff_of_false (not_answered_error e) not_false
  | ok ns =>
      cases ns with
      | none => exact iff_of_false (not_answered_error _) not_false
      | some ns =>
          dsimp only [bind, Except.bind]
          -- blocks out of range are answered, with an error status
          by_cases hrange : slba.toNat + nlb.toNat + 1 ≤ ns.numLbas
          · rw [if_neg (Nat.not_lt.mpr hrange), hbody ns hrange]
            exact ⟨fun h _ => h, fun h => h hrange⟩
          · rw [if_pos (Nat.lt_of_not_le hrange)]
            exact iff_of_true (answered_complete _ hroom _ _) fun h => absurd h hrange

theorem transferBytes_pos (ns : NVSimNamespace) (nlb : BitVec 16) : 0 < transferBytes ns nlb :=
  Nat.mul_pos (Nat.succ_pos _) (blockSize_pos ns)

theorem answered_write (hroom : HasRoom nvsim.rings c) :
    Answered nvsim.rings command i c (nvsim.NVSimWrite command i c)
      ↔ nvsim.TransferOk command (Write.SLBA command) (Write.NLB command)
          fun n count => n ≤ count * mps := by
  refine answered_transfer hroom fun ns hrange => ?_
  obtain ⟨hok, herr⟩ := @PRP.attach_getData mps (transferBytes ns (Write.NLB command))
    command.PRP1.toNat command.PRP2.toNat nvsim.mem (by decide) (transferBytes_pos ns _)
  obtain ⟨_, hlen⟩ := slice_bounds hrange
  unfold transferBytes at hok herr ⊢
  by_cases hreach : PRP.Reaches (((Write.NLB command).toNat + 1) * ns.blockSize) mps
    nvsim.mem command.PRP1.toNat command.PRP2.toNat
  · obtain ⟨prp, data, hprp, hdata, hsize⟩ := hok hreach
    rw [hprp]
    dsimp only [bind, Except.bind]
    unfold NVSimNamespace.write NVSimNamespace.setSlice
    rw [hdata]
    dsimp only [bind, Except.bind]
    rw [List.length_take, hsize, hlen, Nat.mul_comm ns.blockSize]
    -- the list may name fewer pages than the transfer needs
    by_cases hcount : ((Write.NLB command).toNat + 1) * ns.blockSize
        ≤ PRP.segmentCount (((Write.NLB command).toNat + 1) * ns.blockSize) mps nvsim.mem
          command.PRP1.toNat command.PRP2.toNat * mps
    · rw [if_pos (Nat.min_eq_left hcount)]
      exact iff_of_true (answered_complete
        { nvsim with namespaces := nvsim.namespaces.set _ _ } hroom _ _) ⟨hreach, hcount⟩
    · -- the buffer behind the list is too short for the slice
      rw [if_neg (by omega)]
      exact iff_of_false (not_answered_error _) fun h => hcount h.2
  · refine iff_of_false ?_ fun h => hreach h.1
    rcases herr hreach with ⟨e, he⟩ | ⟨prp, e, hprp, he⟩
    · rw [he]
      exact not_answered_error e
    · rw [hprp]
      dsimp only [bind, Except.bind]
      unfold NVSimNamespace.write
      rw [he]
      exact not_answered_error e

theorem answered_read (hroom : HasRoom nvsim.rings c) :
    Answered nvsim.rings command i c (nvsim.NVSimRead command i c)
      ↔ nvsim.TransferOk command (Read.SLBA command) (Read.NLB command) (PRP.Fits mps) := by
  refine answered_transfer hroom fun ns hrange => ?_
  obtain ⟨_, hlen⟩ := slice_bounds hrange
  unfold NVSimNamespace.read NVSimNamespace.slice
  -- the slice is as long as the blocks asked for
  have hdata := Mem.length_load ns.mm
    (min ((Read.SLBA command).toNat * ns.blockSize) ns.size)
    (min ((Read.SLBA command).toNat * ns.blockSize
      + ((Read.NLB command).toNat + 1) * ns.blockSize) ns.size
      - min ((Read.SLBA command).toNat * ns.blockSize) ns.size)
  dsimp only
  generalize ns.mm.load _ _ = data at hdata ⊢
  rw [hlen] at hdata
  obtain ⟨hok, herr⟩ := @PRP.attach_setData mps (transferBytes ns (Read.NLB command))
    command.PRP1.toNat command.PRP2.toNat nvsim.mem (by decide) (transferBytes_pos ns _) data
  unfold transferBytes at hok herr ⊢
  rw [hdata] at hok herr
  by_cases hfit : PRP.Reaches (((Read.NLB command).toNat + 1) * ns.blockSize) mps
      nvsim.mem command.PRP1.toNat command.PRP2.toNat
    ∧ PRP.Fits mps (((Read.NLB command).toNat + 1) * ns.blockSize)
      (PRP.segmentCount (((Read.NLB command).toNat + 1) * ns.blockSize) mps nvsim.mem
        command.PRP1.toNat command.PRP2.toNat)
  · obtain ⟨prp, mem, hprp, hset⟩ := hok hfit
    rw [hprp]
    dsimp only [bind, Except.bind]
    rw [hset]
    exact iff_of_true (answered_complete { nvsim with mem } hroom _ _) hfit
  · refine iff_of_false ?_ hfit
    rcases herr hfit with ⟨e, he⟩ | ⟨prp, e, hprp, he⟩
    · rw [he]
      exact not_answered_error e
    · rw [hprp]
      dsimp only [bind, Except.bind]
      rw [he]
      exact not_answered_error e

theorem answered_flush (hroom : HasRoom nvsim.rings c) :
    Answered nvsim.rings command i c (nvsim.NVSimFlush command i c) := by
  unfold NVSimFlush
  dsimp only
  split
  · exact answered_complete _ hroom _ _
  · exact answered_complete _ hroom _ _

/-- **The NVM commands**, opcode by opcode. -/
theorem answered_nvm (nvsim : NVSim) (hroom : HasRoom nvsim.rings c) :
    Answered nvsim.rings command i c (nvmCmdHandler command.OPC nvsim command i c)
      ↔ NvmAnswerable nvsim command := by
  unfold nvmCmdHandler NvmAnswerable
  refine answered_ite (answered_write hroom) ?_
  refine answered_ite (answered_read hroom) ?_
  split
  · exact iff_of_true (answered_flush hroom) trivial
  · exact iff_of_true (answered_complete _ hroom _ _) trivial

/-! ## Every fetched command -/

/-- `check_commands` fetched the command, and its handler answered it. -/
def ServeAnswers (handlers : BitVec 8 → NVSim → Generic → Nat → Nat → Except Exc NVSim)
    (nvsim : NVSim) (i c : Nat) : Prop :=
  ∃ command rings x, nvsim.rings.getCommand i = some (command, rings)
    ∧ nvsim.serve handlers i c = some x ∧ Answered rings command i c x

theorem serveAnswers_iff {handlers : BitVec 8 → NVSim → Generic → Nat → Nat → Except Exc NVSim}
    {rings : Rings} (h : nvsim.rings.getCommand i = some (command, rings)) :
    ServeAnswers handlers nvsim i c
      ↔ Answered rings command i c (handlers command.OPC { nvsim with rings } command i c) := by
  have hserve : nvsim.serve handlers i c
      = some (handlers command.OPC { nvsim with rings } command i c) := by
    unfold serve
    rw [h]
  constructor
  · rintro ⟨command', rings', x, hget, hx, ha⟩
    rw [h] at hget
    injection hget with hget
    injection hget with hc hr
    subst hc hr
    rw [hserve] at hx
    injection hx with hx
    rw [hx]
    exact ha
  · exact fun ha => ⟨command, rings, _, h, hserve, ha⟩

/--
**Exactly one answer**, for every command value on an admin or an IO queue: the
handler posts one completion for it precisely if the command is answerable.

No handler posts twice, as each ends with `complete` on every path that does not raise. So what
is left to say is which commands make a handler raise.
-/
theorem serve_answers_iff {rings : Rings}
    (h : nvsim.rings.getCommand i = some (command, rings)) (hi : i < nvsim.nextSq)
    (hc : c < nvsim.nextCq) (hroom : HasRoom rings c) :
    (ServeAnswers adminCmdHandler nvsim i c ↔ AdminAnswerable nvsim command)
      ∧ (ServeAnswers nvmCmdHandler nvsim i c ↔ NvmAnswerable nvsim command) := by
  rw [serveAnswers_iff h, serveAnswers_iff h]
  exact ⟨answered_admin { nvsim with rings } hi hc hroom, answered_nvm { nvsim with rings } hroom⟩

/-- A controller with one pair of queues of two entries, and a command in the first slot. -/
def withCommand (command : Generic) : NVSim where
  rings := { Rings.start Rings.sharedConfig with
    sqRing := fun _ _ => command
    SQTAIL := fun _ => 1 }
  mem _ := 0
  namespaces := []
  nextSq := 2
  nextCq := 2

theorem serve_answers_iff_getFeature :
    ServeAnswers adminCmdHandler (withCommand { OPC := 0x0A, DW10 := 2 }) 1 1 :=
  (@serve_answers_iff (withCommand { OPC := 0x0A, DW10 := 2 }) _ 1 1 _ rfl (by decide) (by decide)
    rfl).1.mpr (show GetFeature.FID _ = _ by decide)

/-- No `FormatNVM` is ever answered. -/
theorem not_serve_answers_format :
    ¬ ∀ (nvsim : NVSim) (i c : Nat) (command : Generic) (rings : Rings),
      nvsim.rings.getCommand i = some (command, rings) → i < nvsim.nextSq → c < nvsim.nextCq →
      HasRoom rings c →
      ServeAnswers adminCmdHandler nvsim i c ∧ ServeAnswers nvmCmdHandler nvsim i c := by
  intro hall
  obtain ⟨⟨command, rings, x, hget, hserve, ha⟩, _⟩ :=
    hall (withCommand { OPC := 0x80, NSID := 1 }) 1 1 _ _ rfl (by decide) (by decide) rfl
  have hx : x = .error (.attributeError "'GenericNVMeNVSim' object has no attribute 'namespaces'") :=
    (Option.some.inj hserve).symm
  rw [hx] at ha
  exact not_answered_error _ ha

end NVSim

end LoneNvme
