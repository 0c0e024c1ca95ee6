import LoneNvme.NVSimDevice

/-!
# What the simulator leaves alone

A handler that makes or deletes no queue ends in one post to a completion queue; before
that it moves at most data. So while the simulator serves its queues, only the heads of
the queues it fetches from and the completion queues it posts to change. The queue
manager, the doorbells and the host's objects stay as they are, and all queues where they are.

`Frame` names the queues that may change, and frames compose, so a pass over the busy queues
has the frames of its commands put together. For the calls that make and delete queues this is
all there is to know about the commands that are served in between.
-/

namespace LoneNvme

open Lib

/-- The id of a queue and its memory. -/
structure QueuePlace where
  qid : Nat
  baseAddress : Nat
  entries : Nat
  deriving DecidableEq

def NVMeSubmissionQueue.place (sq : NVMeSubmissionQueue) : QueuePlace :=
  ⟨sq.qid, sq.baseAddress, sq.entries⟩

def NVMeCompletionQueue.place (cq : NVMeCompletionQueue) : QueuePlace :=
  ⟨cq.qid, cq.baseAddress, cq.entries⟩

namespace NVSim

variable {nvsim nvsim' nvsim'' : NVSim} {command : Generic} {i c : Nat} {sqs cqs : Nat → Prop}

/-- At most fetches from `sqs` and posts to `cqs` lie between two states. -/
structure Frame (sqs cqs : Nat → Prop) (nvsim nvsim' : NVSim) : Prop where
  queueMgr : nvsim'.queueMgr = nvsim.queueMgr
  completionQueues : nvsim'.completionQueues = nvsim.completionQueues
  nextSq : nvsim'.nextSq = nvsim.nextSq
  nextCq : nvsim'.nextCq = nvsim.nextCq
  hostSq : nvsim'.rings.hostSq = nvsim.rings.hostSq
  hostCq : nvsim'.rings.hostCq = nvsim.rings.hostCq
  SQTAIL : nvsim'.rings.SQTAIL = nvsim.rings.SQTAIL
  CQHEAD : nvsim'.rings.CQHEAD = nvsim.rings.CQHEAD
  sqRing : nvsim'.rings.sqRing = nvsim.rings.sqRing
  sqPlace : ∀ i, (nvsim'.rings.simSq i).place = (nvsim.rings.simSq i).place
  cqPlace : ∀ c, (nvsim'.rings.simCq c).place = (nvsim.rings.simCq c).place
  simSq : ∀ i, ¬ sqs i → nvsim'.rings.simSq i = nvsim.rings.simSq i
  simCq : ∀ c, ¬ cqs c → nvsim'.rings.simCq c = nvsim.rings.simCq c
  cqRing : ∀ base, (∀ c, cqs c → (nvsim.rings.simCq c).baseAddress ≠ base) →
    nvsim'.rings.cqRing base = nvsim.rings.cqRing base

namespace Frame

theorem refl (nvsim : NVSim) : Frame sqs cqs nvsim nvsim :=
  ⟨rfl, rfl, rfl, rfl, rfl, rfl, rfl, rfl, rfl, fun _ => rfl, fun _ => rfl, fun _ _ => rfl,
    fun _ _ => rfl, fun _ _ => rfl⟩

theorem trans (h : Frame sqs cqs nvsim nvsim') (h' : Frame sqs cqs nvsim' nvsim'') :
    Frame sqs cqs nvsim nvsim'' where
  queueMgr := h'.queueMgr.trans h.queueMgr
  completionQueues := h'.completionQueues.trans h.completionQueues
  nextSq := h'.nextSq.trans h.nextSq
  nextCq := h'.nextCq.trans h.nextCq
  hostSq := h'.hostSq.trans h.hostSq
  hostCq := h'.hostCq.trans h.hostCq
  SQTAIL := h'.SQTAIL.trans h.SQTAIL
  CQHEAD := h'.CQHEAD.trans h.CQHEAD
  sqRing := h'.sqRing.trans h.sqRing
  sqPlace i := (h'.sqPlace i).trans (h.sqPlace i)
  cqPlace c := (h'.cqPlace c).trans (h.cqPlace c)
  simSq i hi := (h'.simSq i hi).trans (h.simSq i hi)
  simCq c hc := (h'.simCq c hc).trans (h.simCq c hc)
  cqRing base hbase := by
    refine (h'.cqRing base fun c hc => ?_).trans (h.cqRing base hbase)
    have hsame : (nvsim'.rings.simCq c).baseAddress = (nvsim.rings.simCq c).baseAddress :=
      congrArg QueuePlace.baseAddress (h.cqPlace c)
    rw [hsame]
    exact hbase c hc

theorem mono {sqs' cqs' : Nat → Prop} (h : Frame sqs cqs nvsim nvsim') (hsqs : ∀ i, sqs i → sqs' i)
    (hcqs : ∀ c, cqs c → cqs' c) : Frame sqs' cqs' nvsim nvsim' :=
  { h with
    simSq := fun i hi => h.simSq i fun hs => hi (hsqs i hs)
    simCq := fun c hc => h.simCq c fun hs => hc (hcqs c hs)
    cqRing := fun base hbase => h.cqRing base fun c hc => hbase c (hcqs c hc) }

end Frame

/-! ## One command -/

/-- A fetch moves the head of its queue. -/
theorem getCommand_frame {rings : Rings} (h : nvsim.rings.getCommand i = some (command, rings)) :
    Frame (· = i) cqs nvsim { nvsim with rings } := by
  unfold Rings.getCommand NVMeSubmissionQueue.getCommand at h
  dsimp only at h
  split at h
  · exact absurd h (by simp)
  · rename_i slot sq' hget
    split at hget
    · exact absurd hget (by simp)
    · injection hget with hget
      injection hget with _ hsq
      injection h with h
      injection h with _ h
      subst h hsq
      refine ⟨rfl, rfl, rfl, rfl, rfl, rfl, rfl, rfl, rfl, fun j => ?_, fun _ => rfl,
        fun j hj => Function.update_of_ne hj _ _, fun _ _ => rfl, fun _ _ => rfl⟩
      dsimp only
      by_cases hj : j = i
      · rw [hj, Function.update_self]
        rfl
      · rw [Function.update_of_ne hj]

theorem complete_frame {cid : BitVec 16} {statusCode : Nat} {cmdSpec : BitVec 32}
    (h : nvsim.complete cid i c statusCode cmdSpec = .ok nvsim') :
    Frame sqs (· = c) nvsim nvsim' := by
  unfold complete at h
  split at h
  · rename_i rings hrings
    rw [← Except.ok.inj h]
    unfold Rings.complete at hrings
    dsimp only at hrings
    split at hrings
    · rename_i cq ring hpost
      rw [← Except.ok.inj hrings]
      -- a post moves the tail of its queue and writes to its ring
      have hcq := NVMeCompletionQueue.postCompletion_object hpost
      subst hcq
      refine ⟨rfl, rfl, rfl, rfl, rfl, rfl, rfl, rfl, rfl, fun _ => rfl, fun d => ?_, fun _ _ => rfl,
        fun d hd => Function.update_of_ne hd _ _, fun base hbase => ?_⟩
      · show (Function.update nvsim.rings.simCq c _ d).place = _
        by_cases hd : d = c
        · rw [hd, Function.update_self]
          rfl
        · rw [Function.update_of_ne hd]
      · exact Function.update_of_ne (hbase c rfl).symm _ _
    · exact absurd hrings (by simp)
  · exact absurd h (by simp)

/-- The simulator with other memory, namespaces or power state. -/
structure Moved (nvsim data : NVSim) : Prop where
  rings : data.rings = nvsim.rings
  queueMgr : data.queueMgr = nvsim.queueMgr
  completionQueues : data.completionQueues = nvsim.completionQueues
  nextSq : data.nextSq = nvsim.nextSq
  nextCq : data.nextCq = nvsim.nextCq

/-- A handler that moved data and then completed the command. -/
def Completes (nvsim : NVSim) (command : Generic) (i c : Nat) (nvsim' : NVSim) : Prop :=
  ∃ data statusCode cmdSpec, Moved nvsim data
    ∧ data.complete command.CID i c statusCode cmdSpec = .ok nvsim'

theorem Completes.frame (h : Completes nvsim command i c nvsim') : Frame sqs (· = c) nvsim nvsim' := by
  obtain ⟨data, statusCode, cmdSpec, hmoved, h⟩ := h
  have hframe : Frame sqs (· = c) data nvsim' := complete_frame h
  obtain ⟨hrings, hqm, hcqs, hnsq, hncq⟩ := hmoved
  obtain ⟨h1, h2, h3, h4, h5, h6, h7, h8, h9, h10, h11, h12, h13, h14⟩ := hframe
  rw [hrings] at h5 h6 h7 h8 h9 h10 h11 h12 h13 h14
  exact ⟨h1.trans hqm, h2.trans hcqs, h3.trans hnsq, h4.trans hncq, h5, h6, h7, h8, h9, h10, h11,
    h12, h13, h14⟩

theorem completes_of {data : NVSim} {statusCode : Nat} {cmdSpec : BitVec 32}
    (h : data.complete command.CID i c statusCode cmdSpec = .ok nvsim') (hmoved : Moved nvsim data) :
    Completes nvsim command i c nvsim' :=
  ⟨data, statusCode, cmdSpec, hmoved, h⟩

/-- **What a NVM command does.** -/
theorem nvmCmdHandler_completes {opc : BitVec 8} (h : nvmCmdHandler opc nvsim command i c = .ok nvsim') :
    Completes nvsim command i c nvsim' := by
  unfold nvmCmdHandler at h
  split at h
  · unfold NVSimWrite at h
    obtain ⟨ns, _, h⟩ := bind_eq_ok h
    dsimp only at h
    split at h
    · exact completes_of h ⟨rfl, rfl, rfl, rfl, rfl⟩
    · obtain ⟨prp, _, h⟩ := bind_eq_ok h
      obtain ⟨ns', _, h⟩ := bind_eq_ok h
      exact completes_of h ⟨rfl, rfl, rfl, rfl, rfl⟩
  · split at h
    · unfold NVSimRead at h
      obtain ⟨ns, _, h⟩ := bind_eq_ok h
      dsimp only at h
      split at h
      · exact completes_of h ⟨rfl, rfl, rfl, rfl, rfl⟩
      · obtain ⟨prp, _, h⟩ := bind_eq_ok h
        obtain ⟨mem, _, h⟩ := bind_eq_ok h
        exact completes_of h ⟨rfl, rfl, rfl, rfl, rfl⟩
    · split at h
      · unfold NVSimFlush at h
        dsimp only at h
        split at h
        · exact completes_of h ⟨rfl, rfl, rfl, rfl, rfl⟩
        · exact completes_of h ⟨rfl, rfl, rfl, rfl, rfl⟩
      · exact completes_of h ⟨rfl, rfl, rfl, rfl, rfl⟩

theorem handle_frame {cq : Option Nat} (h : nvsim.handle command i cq = .ok nvsim') :
    Frame sqs (fun c => cq = some c) nvsim nvsim' := by
  cases cq with
  | some c => exact (nvmCmdHandler_completes h).frame.mono (fun _ hi => hi) fun d hd => congrArg some hd.symm
  | none => exact absurd h (by simp [handle])

/-- **What an admin command does** that is not about queues. -/
theorem adminCmdHandler_completes (hother : ¬ GenericNVMeNVSimDevice.IsQueueCommand command)
    (h : adminCmdHandler command.OPC nvsim command i c = .ok nvsim') :
    Completes nvsim command i c nvsim' := by
  -- the four queue commands are ruled out, and the others touch memory at most
  have hopc : command.OPC ≠ CreateIOCompletionQueue.OPC ∧ command.OPC ≠ CreateIOSubmissionQueue.OPC
      ∧ command.OPC ≠ DeleteIOCompletionQueue.OPC ∧ command.OPC ≠ DeleteIOSubmissionQueue.OPC := by
    simpa [GenericNVMeNVSimDevice.IsQueueCommand] using hother
  unfold adminCmdHandler at h
  rw [if_neg hopc.1, if_neg hopc.2.1, if_neg hopc.2.2.1, if_neg hopc.2.2.2] at h
  split at h
  · unfold NVSimIdentify at h
    obtain ⟨prp, _, h⟩ := bind_eq_ok h
    split at h
    · obtain ⟨mem, _, h⟩ := bind_eq_ok h
      exact completes_of h ⟨rfl, rfl, rfl, rfl, rfl⟩
    · exact completes_of h ⟨rfl, rfl, rfl, rfl, rfl⟩
  split at h
  · unfold NVSimGetLogPage at h
    split at h
    · split at h
      · exact absurd h (by simp)
      · exact completes_of h ⟨rfl, rfl, rfl, rfl, rfl⟩
    · exact completes_of h ⟨rfl, rfl, rfl, rfl, rfl⟩
  split at h
  · exact absurd h (by simp [NVSimFormat])
  split at h
  · unfold NVSimGetFeature at h
    split at h
    · exact completes_of h ⟨rfl, rfl, rfl, rfl, rfl⟩
    · exact absurd h (by simp)
  split at h
  · unfold NVSimSetFeature at h
    split at h
    · obtain ⟨_, _, h⟩ := bind_eq_ok h
      exact completes_of h ⟨rfl, rfl, rfl, rfl, rfl⟩
    · exact absurd h (by simp)
  · exact completes_of h ⟨rfl, rfl, rfl, rfl, rfl⟩

/-! ## The IO queues -/

/-- The completion queues of a list of pairs. -/
def cqsOf (busy : List (Nat × Option Nat)) (c : Nat) : Prop := ∃ i, (i, some c) ∈ busy

theorem ioPass_frame : ∀ {busy : List (Nat × Option Nat)} {s s' : IoLoop}, ioPass busy s = .ok s' →
    Frame (· ∈ sqsOf busy) (cqsOf busy) s.nvsim s'.nvsim := by
  intro busy
  induction busy with
  | nil =>
      intro s s' h
      rw [← Except.ok.inj h]
      exact Frame.refl _
  | cons b busy ih =>
      obtain ⟨i, cq⟩ := b
      intro s s' h
      have hrest : ∀ {t : IoLoop}, ioPass busy t = .ok s' →
          Frame (· ∈ sqsOf ((i, cq) :: busy)) (cqsOf ((i, cq) :: busy)) t.nvsim s'.nvsim :=
        fun ht => (ih ht).mono (fun j hj => List.mem_cons_of_mem _ hj)
          fun c ⟨j, hj⟩ => ⟨j, List.mem_cons_of_mem _ hj⟩
      unfold ioPass at h
      split at h
      · exact hrest h
      · rename_i command rings hget
        obtain ⟨nvsim, hhandle, h⟩ := bind_eq_ok h
        -- a fetch changes one queue, its handler the completion queue it is served by
        have hfetch : Frame (· ∈ sqsOf ((i, cq) :: busy)) (cqsOf ((i, cq) :: busy)) s.nvsim
            { s.nvsim with rings } :=
          (getCommand_frame hget).mono (fun j hj => hj ▸ List.mem_cons_self) fun c hc => hc
        have hserve : Frame (· ∈ sqsOf ((i, cq) :: busy)) (cqsOf ((i, cq) :: busy))
            { s.nvsim with rings } nvsim :=
          (handle_frame hhandle).mono (fun j hj => hj) fun c hc => ⟨i, hc ▸ List.mem_cons_self⟩
        exact (hfetch.trans hserve).trans (hrest h)

theorem ioLoop_frame {busy : List (Nat × Option Nat)} :
    ∀ {fuel : Nat} {s s' : IoLoop}, ioLoop busy fuel s = some (.ok s') →
      Frame (· ∈ sqsOf busy) (cqsOf busy) s.nvsim s'.nvsim := by
  intro fuel
  induction fuel with
  | zero =>
      intro s s' h
      unfold ioLoop at h
      split at h
      · exact absurd h (by simp)
      · rw [← Except.ok.inj (Option.some.inj h)]
        exact Frame.refl _
  | succ fuel ih =>
      intro s s' h
      unfold ioLoop at h
      split at h
      · split at h
        · exact absurd h (by simp)
        · rename_i t hpass
          exact (ioPass_frame hpass).trans (ih h)
      · rw [← Except.ok.inj (Option.some.inj h)]
        exact Frame.refl _

/-- **Serving the IO queues** touches the busy ones. -/
theorem ioCommands_frame {fuel : Nat} {s : IoLoop} (h : nvsim.ioCommands fuel = some (.ok s)) :
    Frame (· ∈ sqsOf nvsim.busySqs) (cqsOf nvsim.busySqs) nvsim s.nvsim := ioLoop_frame h

end NVSim

end LoneNvme
