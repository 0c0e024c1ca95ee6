import LoneNvme.Answers
import LoneNvme.HostFrame

/-!
# Between two calls that make or delete queues

Commands are started, served and polled. All of that is `Quiet`: no queue comes or goes or
moves, and a head doorbell moves only if a completion queue with its id is in use. What is
true of the queues in a quiet step is stated once here, for the calls that make and
delete queues to be put together from.

`Quiet` composes, and what the two managers show of their queues (`hostView`, `simView`) is
the same before and after. `Unused` is the other half: a completion queue id that nothing
refers to, and whose head doorbell therefore stays where it is.
-/

namespace LoneNvme

open Lib

namespace GenericNVMeNVSimDevice

variable {d d' d'' : GenericNVMeNVSimDevice}

/-! ## What the two sides see -/

/-- The host's manager, each queue by its id and memory. -/
def hostView (d : GenericNVMeNVSimDevice) : QueueMgr QueuePlace QueuePlace :=
  d.host.queueMgr.view (fun i => (d.host.rings.hostSq i).place) fun c => (d.host.rings.hostCq c).place

/-- The simulator's manager. -/
def simView (d : GenericNVMeNVSimDevice) : QueueMgr QueuePlace QueuePlace :=
  d.nvsim.queueMgr.view (fun i => (d.host.rings.simSq i).place) fun c => (d.host.rings.simCq c).place

/-- A completion queue object of the host that a pair or an outstanding command has. -/
def InUse (d : GenericNVMeNVSimDevice) (c : Nat) : Prop :=
  (∃ e ∈ d.host.queueMgr.nvmeQueues.entries, e.2.2 = some c)
    ∨ ∃ e ∈ d.host.outstandingCommands.entries, (d.host.commands e.2).cq = .queue c

/-- Nothing of the host uses the completion queue id `q`. -/
structure Unused (d : GenericNVMeNVSimDevice) (q : Nat) : Prop where
  CQHEAD : d.host.rings.CQHEAD q = 0
  qid : ∀ c, d.InUse c → (d.host.rings.hostCq c).qid ≠ q

/-- The handles are those of objects made so far, and the host's queues know their ids. -/
structure Handles (d : GenericNVMeNVSimDevice) : Prop where
  hostSqs : ∀ e ∈ d.host.queueMgr.nvmeQueues.entries, ∀ i, e.2.1 = some i →
    i < d.nextSq ∧ (d.host.rings.hostSq i).qid = e.1.1
  hostCqs : ∀ c, d.InUse c → c < d.nextCq
  outstanding : ∀ e ∈ d.host.outstandingCommands.entries, e.2 < d.nextCommand
  ioSqids : ∀ id ∈ d.host.queueMgr.ioSqids, id ≠ 0
  /-- The ids have doorbells. -/
  keys : ∀ k ∈ d.host.queueMgr.nvmeQueues.keys, k.1 < 1024 ∧ k.2 < 1024
  simSqs : ∀ e ∈ d.nvsim.queueMgr.nvmeQueues.entries, ∀ i, e.2.1 = some i → i < d.nvsim.nextSq
  simCqs : ∀ e ∈ d.nvsim.queueMgr.nvmeQueues.entries, ∀ c, e.2.2 = some c →
    c < d.nvsim.nextCq ∧ (d.host.rings.simCq c).baseAddress ∈ d.allocated
  completionQueues : ∀ c ∈ d.nvsim.completionQueues,
    c < d.nvsim.nextCq ∧ (d.host.rings.simCq c).baseAddress ∈ d.allocated

/-- The admin pair of both sides, with nothing to fetch. -/
structure AdminIdle (d : GenericNVMeNVSimDevice) (i c i' c' : Nat) : Prop where
  host : ((0, 0), (some i, some c)) ∈ d.host.queueMgr.nvmeQueues.entries
  sim : ((0, 0), (some i', some c')) ∈ d.nvsim.queueMgr.nvmeQueues.entries
  place : (d.host.rings.hostSq i).place = (d.host.rings.simSq i').place
  qid : (d.host.rings.hostSq i).qid = 0
  head : (d.host.rings.simSq i').head = d.host.rings.SQTAIL 0
  lt : (d.host.rings.simSq i').head < (d.host.rings.simSq i').entries
  two : 2 ≤ (d.host.rings.simSq i').entries
  le : (d.host.rings.simSq i').entries ≤ 2 ^ 32

/-! ## Quiet steps -/

/-- Between two states no queue came, went or moved. -/
structure Quiet (d d' : GenericNVMeNVSimDevice) : Prop where
  hostQueues : d.host.queueMgr.Turned d'.host.queueMgr
  simQueues : d'.nvsim.queueMgr = d.nvsim.queueMgr
  completionQueues : d'.nvsim.completionQueues = d.nvsim.completionQueues
  nextSq : d'.nextSq = d.nextSq
  nextCq : d'.nextCq = d.nextCq
  simNextSq : d'.nvsim.nextSq = d.nvsim.nextSq
  simNextCq : d'.nvsim.nextCq = d.nvsim.nextCq
  allocated : ∀ addr ∈ d.allocated, addr ∈ d'.allocated
  hostSq : ∀ i, (d'.host.rings.hostSq i).place = (d.host.rings.hostSq i).place
  hostCq : ∀ c, (d'.host.rings.hostCq c).place = (d.host.rings.hostCq c).place
  simSq : ∀ i, (d'.host.rings.simSq i).place = (d.host.rings.simSq i).place
  simCq : ∀ c, (d'.host.rings.simCq c).place = (d.host.rings.simCq c).place
  inUse : ∀ c, d'.InUse c → d.InUse c
  CQHEAD : ∀ q, d'.host.rings.CQHEAD q ≠ d.host.rings.CQHEAD q →
    ∃ c, d.InUse c ∧ (d.host.rings.hostCq c).qid = q
  outstanding : ∀ e ∈ d'.host.outstandingCommands.entries, e.2 < d'.nextCommand

namespace Quiet

theorem trans (h : Quiet d d') (h' : Quiet d' d'') : Quiet d d'' where
  hostQueues := ⟨h'.hostQueues.nvmeQueues.trans h.hostQueues.nvmeQueues,
    h'.hostQueues.ioSqids.trans h.hostQueues.ioSqids,
    h'.hostQueues.ioCqids.trans h.hostQueues.ioCqids⟩
  simQueues := h'.simQueues.trans h.simQueues
  completionQueues := h'.completionQueues.trans h.completionQueues
  nextSq := h'.nextSq.trans h.nextSq
  nextCq := h'.nextCq.trans h.nextCq
  simNextSq := h'.simNextSq.trans h.simNextSq
  simNextCq := h'.simNextCq.trans h.simNextCq
  allocated addr ha := h'.allocated addr (h.allocated addr ha)
  hostSq i := (h'.hostSq i).trans (h.hostSq i)
  hostCq c := (h'.hostCq c).trans (h.hostCq c)
  simSq i := (h'.simSq i).trans (h.simSq i)
  simCq c := (h'.simCq c).trans (h.simCq c)
  inUse c hc := h.inUse c (h'.inUse c hc)
  CQHEAD q hq := by
    by_cases hmid : d''.host.rings.CQHEAD q = d'.host.rings.CQHEAD q
    · exact h.CQHEAD q (hmid ▸ hq)
    · obtain ⟨c, hc, hqid⟩ := h'.CQHEAD q hmid
      exact ⟨c, h.inUse c hc, (congrArg QueuePlace.qid (h.hostCq c)).symm.trans hqid⟩
  outstanding := h'.outstanding

theorem hostView (h : Quiet d d') : d'.hostView = d.hostView := by
  obtain ⟨hqm, hsqids, hcqids⟩ := h.hostQueues
  unfold GenericNVMeNVSimDevice.hostView QueueMgr.view
  rw [hqm, hsqids, hcqids]
  simp only [h.hostSq, h.hostCq]

theorem simView (h : Quiet d d') : d'.simView = d.simView := by
  unfold GenericNVMeNVSimDevice.simView
  rw [h.simQueues]
  simp only [h.simSq, h.simCq]

theorem unused {q : Nat} (h : Quiet d d') (hq : d.Unused q) : d'.Unused q where
  CQHEAD := by
    by_contra hne
    obtain ⟨c, hc, hqid⟩ := h.CQHEAD q fun he => hne (he.trans hq.CQHEAD)
    exact hq.qid c hc hqid
  qid c hc he := hq.qid c (h.inUse c hc) ((congrArg QueuePlace.qid (h.hostCq c)).symm.trans he)

/-- A completion queue of the simulator keeps its handle and its memory. -/
theorem memory (h : Quiet d d') {c : Nat}
    (hc : c < d.nvsim.nextCq ∧ (d.host.rings.simCq c).baseAddress ∈ d.allocated) :
    c < d'.nvsim.nextCq ∧ (d'.host.rings.simCq c).baseAddress ∈ d'.allocated := by
  have hbase : (d'.host.rings.simCq c).baseAddress = (d.host.rings.simCq c).baseAddress :=
    congrArg QueuePlace.baseAddress (h.simCq c)
  rw [h.simNextCq, hbase]
  exact ⟨hc.1, h.allocated _ hc.2⟩

theorem handles (h : Quiet d d') (hd : Handles d) : Handles d' where
  hostSqs e he i hi := by
    rw [h.hostQueues.nvmeQueues] at he
    rw [h.nextSq]
    have hold := hd.hostSqs e he i hi
    exact ⟨hold.1, (congrArg QueuePlace.qid (h.hostSq i)).trans hold.2⟩
  hostCqs c hc := by
    rw [h.nextCq]
    exact hd.hostCqs c (h.inUse c hc)
  outstanding := h.outstanding
  ioSqids id hid := by
    rw [h.hostQueues.ioSqids] at hid
    exact hd.ioSqids id hid
  keys k hk := by
    rw [h.hostQueues.nvmeQueues] at hk
    exact hd.keys k hk
  simSqs e he i hi := by
    rw [h.simQueues] at he
    rw [h.simNextSq]
    exact hd.simSqs e he i hi
  simCqs e he c hc := by
    rw [h.simQueues] at he
    exact h.memory (hd.simCqs e he c hc)
  completionQueues c hc := by
    rw [h.completionQueues] at hc
    exact h.memory (hd.completionQueues c hc)

/-- The admin pair stays idle while nobody posts to it or fetches. -/
theorem adminIdle {i c i' c' : Nat} (h : Quiet d d') (ha : AdminIdle d i c i' c')
    (hsq : d'.host.rings.simSq i' = d.host.rings.simSq i')
    (htail : d'.host.rings.SQTAIL 0 = d.host.rings.SQTAIL 0) : AdminIdle d' i c i' c' where
  host := by
    rw [h.hostQueues.nvmeQueues]
    exact ha.host
  sim := by
    rw [h.simQueues]
    exact ha.sim
  place := (h.hostSq i).trans (ha.place.trans (h.simSq i').symm)
  qid := (congrArg QueuePlace.qid (h.hostSq i)).trans ha.qid
  head := by
    rw [hsq, htail]
    exact ha.head
  lt := by
    rw [hsq]
    exact ha.lt
  two := by
    rw [hsq]
    exact ha.two
  le := by
    rw [hsq]
    exact ha.le

end Quiet

/-! ## The steps that are quiet -/

theorem quiet_newCommand (hd : Handles d) (command : Command) : Quiet d (d.newCommand command) where
  hostQueues := ⟨rfl, rfl, rfl⟩
  simQueues := rfl
  completionQueues := rfl
  nextSq := rfl
  nextCq := rfl
  simNextSq := rfl
  simNextCq := rfl
  allocated _ ha := ha
  hostSq _ := rfl
  hostCq _ := rfl
  simSq _ := rfl
  simCq _ := rfl
  inUse c hc := by
    refine hc.imp id fun ⟨e, he, hcq⟩ => ⟨e, he, ?_⟩
    rw [← hcq]
    exact congrArg Command.cq (Function.update_of_ne (Nat.ne_of_lt (hd.outstanding e he)) _ _).symm
  CQHEAD _ hq := absurd rfl hq
  outstanding e he := Nat.lt_succ_of_lt (hd.outstanding e he)

/-- Memory of other places. -/
theorem quiet_malloc (hd : Handles d) (addr : Nat) : Quiet d (d.malloc addr) where
  hostQueues := ⟨rfl, rfl, rfl⟩
  simQueues := rfl
  completionQueues := rfl
  nextSq := rfl
  nextCq := rfl
  simNextSq := rfl
  simNextCq := rfl
  allocated _ ha := List.mem_cons_of_mem _ ha
  hostSq _ := rfl
  hostCq _ := rfl
  simSq _ := rfl
  simCq _ := rfl
  inUse _ hc := hc
  CQHEAD _ hq := absurd rfl hq
  outstanding := hd.outstanding

theorem quiet_polled {host : NVMeDeviceCommon} (hd : Handles d) (h : d.host.Polled host) :
    Quiet d (d.withHost host) where
  hostQueues := by
    show d.host.queueMgr.Turned host.queueMgr
    rw [h.queueMgr]
    exact ⟨rfl, rfl, rfl⟩
  simQueues := rfl
  completionQueues := rfl
  nextSq := rfl
  nextCq := rfl
  simNextSq := rfl
  simNextCq := rfl
  allocated _ ha := ha
  hostSq := h.sqPlace
  hostCq := h.cqPlace
  simSq i := congrArg (fun simSq => (simSq i).place) h.simSq
  simCq c := congrArg (fun simCq => (simCq c).place) h.simCq
  -- a queue in use after the poll was in use before: a poll only ends commands
  inUse c hc := by
    rcases hc with ⟨e, he, hc⟩ | ⟨e, he, hc⟩
    · refine Or.inl ⟨e, ?_, hc⟩
      rw [← h.queueMgr]
      exact he
    · exact Or.inr ⟨e, h.outstanding e he, (h.cq e.2).symm.trans hc⟩
  CQHEAD q hq := by
    obtain ⟨e, he, c, hc, hqid⟩ := h.CQHEAD q hq
    exact ⟨c, Or.inr ⟨e, he, hc⟩, hqid⟩
  outstanding e he := hd.outstanding e (h.outstanding e he)

theorem quiet_frame {sqs cqs : Nat → Prop} {nvsim : NVSim} (hd : Handles d)
    (h : NVSim.Frame sqs cqs d.nvsim nvsim) : Quiet d (d.withSim nvsim) where
  hostQueues := ⟨rfl, rfl, rfl⟩
  simQueues := h.queueMgr
  completionQueues := h.completionQueues
  nextSq := rfl
  nextCq := rfl
  simNextSq := h.nextSq
  simNextCq := h.nextCq
  allocated _ ha := ha
  hostSq i := by
    rw [← d.shared]
    exact congrArg (fun hostSq => (hostSq i).place) h.hostSq
  hostCq c := by
    rw [← d.shared]
    exact congrArg (fun hostCq => (hostCq c).place) h.hostCq
  simSq i := by
    rw [← d.shared]
    exact h.sqPlace i
  simCq c := by
    rw [← d.shared]
    exact h.cqPlace c
  inUse _ hc := hc
  CQHEAD q hq := by
    rw [← d.shared] at hq
    exact absurd (congrFun h.CQHEAD q) hq
  outstanding := hd.outstanding

theorem quiet_notPosted {host : NVMeDeviceCommon} {c : Nat} (hd : Handles d)
    (hnew : ∀ e ∈ d.host.outstandingCommands.entries, e.2 ≠ c) (h : d.host.NotPosted host c) :
    Quiet d (d.withHost host) where
  hostQueues := h.queueMgr
  simQueues := rfl
  completionQueues := rfl
  nextSq := rfl
  nextCq := rfl
  simNextSq := rfl
  simNextCq := rfl
  allocated _ ha := ha
  hostSq i := congrArg (fun rings => (rings.hostSq i).place) h.rings
  hostCq c := congrArg (fun rings => (rings.hostCq c).place) h.rings
  simSq i := congrArg (fun rings => (rings.simSq i).place) h.rings
  simCq c := congrArg (fun rings => (rings.simCq c).place) h.rings
  inUse b hb := by
    rcases hb with ⟨e, he, hb⟩ | ⟨e, he, hb⟩
    · refine Or.inl ⟨e, ?_, hb⟩
      rw [← h.queueMgr.nvmeQueues]
      exact he
    · have hold : e ∈ d.host.outstandingCommands.entries := by
        rw [← h.outstanding]
        exact he
      exact Or.inr ⟨e, hold, by rw [← h.commands e.2 (hnew e hold)]; exact hb⟩
  CQHEAD q hq := absurd (congrArg (fun rings => rings.CQHEAD q) h.rings) hq
  outstanding e he := by
    have hold : e ∈ d.host.outstandingCommands.entries := by
      rw [← h.outstanding]
      exact he
    exact hd.outstanding e hold

theorem quiet_posted {host : NVMeDeviceCommon} {c i : Nat} {cq : QueueRef Nat} (hd : Handles d)
    (hc : c < d.nextCommand) (hnew : ∀ e ∈ d.host.outstandingCommands.entries, e.2 ≠ c)
    {e : (Nat × Nat) × (Option Nat × Option Nat)} (he : e ∈ d.host.queueMgr.nvmeQueues.entries)
    (hcq : cq = .ofOption e.2.2) (h : d.host.Posted host c i cq) : Quiet d (d.withHost host) := by
  obtain ⟨cid, hrings⟩ := h.rings
  obtain ⟨key, hmap⟩ := h.outstanding
  obtain ⟨sqtail, ring, _, hpost⟩ := Rings.postCommand_spec hrings
  -- every outstanding command is the one posted or one from before
  have hentry : ∀ e' ∈ host.outstandingCommands.entries,
      e'.2 = c ∨ (e'.2 ≠ c ∧ e' ∈ d.host.outstandingCommands.entries) := by
    intro e' he'
    rw [hmap] at he'
    rcases Dict.mem_entries_set.mp he' with ⟨_, hv⟩ | ⟨_, hold⟩
    · exact Or.inl hv
    · exact Or.inr ⟨hnew e' hold, hold⟩
  refine ⟨h.queueMgr, rfl, rfl, rfl, rfl, rfl, rfl, fun _ ha => ha, fun j => ?_, fun b => ?_,
    fun j => ?_, fun b => ?_, fun b hb => ?_, fun q hq => ?_, fun e' he' => ?_⟩
  · exact congrArg (fun rings => (rings.hostSq j).place) hpost
  · exact congrArg (fun rings => (rings.hostCq b).place) hpost
  · exact congrArg (fun rings => (rings.simSq j).place) hpost
  · exact congrArg (fun rings => (rings.simCq b).place) hpost
  · rcases hb with ⟨e', he', hb⟩ | ⟨e', he', hb⟩
    · refine Or.inl ⟨e', ?_, hb⟩
      rw [← h.queueMgr.nvmeQueues]
      exact he'
    · rcases hentry e' he' with hv | ⟨hne, hold⟩
      · -- the command posted completes to the queue of its pair
        rw [hv] at hb
        have hpair := (h.cq.symm.trans hb).symm.trans hcq
        refine Or.inl ⟨e, he, ?_⟩
        cases hopt : e.2.2 with
        | none =>
            rw [hopt] at hpair
            exact absurd hpair (by simp [QueueRef.ofOption])
        | some b' =>
            rw [hopt] at hpair
            exact congrArg some (QueueRef.queue.inj hpair).symm
      · exact Or.inr ⟨e', hold, by rw [← h.commands e'.2 hne]; exact hb⟩
  · exact absurd (congrArg (fun rings => rings.CQHEAD q) hpost) hq
  · rcases hentry e' he' with hv | ⟨_, hold⟩
    · rw [hv]
      exact hc
    · exact hd.outstanding e' hold

end GenericNVMeNVSimDevice

/-! ## An admin command -/

namespace Rings

variable {r r' : Rings} {i i' : Nat} {command : Generic}

theorem getCommand_idle (hhead : (r.simSq i).head = r.SQTAIL (r.simSq i).qid)
    (hlt : (r.simSq i).head < (r.simSq i).entries) : r.getCommand i = none := by
  unfold getCommand NVMeSubmissionQueue.getCommand NVMeSubmissionQueue.numEntries
  dsimp only
  rw [← hhead, NVMeQueue.numEntries_self hlt]
  rfl

/-- **A command posted to an idle queue** is the next one fetched, and leaves it idle. -/
theorem fetch_posted (hplace : (r.hostSq i).place = (r.simSq i').place)
    (hhead : (r.simSq i').head = r.SQTAIL (r.simSq i').qid)
    (hlt : (r.simSq i').head < (r.simSq i').entries) (htwo : 2 ≤ (r.simSq i').entries)
    (hle : (r.simSq i').entries ≤ 2 ^ 32) (hpost : r.postCommand i command = .ok r') :
    ∃ sq, r'.getCommand i' = some (command, r'.withFetch i' sq) ∧ sq.place = (r.simSq i').place
      ∧ sq.head = r'.SQTAIL (r.simSq i').qid ∧ sq.head < (r.simSq i').entries := by
  obtain ⟨sqtail, ring, hok, rfl⟩ := postCommand_spec hpost
  rw [NVMeSubmissionQueue.postCommand_ok (NVMeSubmissionQueue.postCommand_room hok)] at hok
  have hqid : (r.hostSq i).qid = (r.simSq i').qid := congrArg QueuePlace.qid hplace
  have hbase : (r.hostSq i).baseAddress = (r.simSq i').baseAddress :=
    congrArg QueuePlace.baseAddress hplace
  have hentries : (r.hostSq i).entries = (r.simSq i').entries := congrArg QueuePlace.entries hplace
  rw [hqid, hbase, hentries, ← hhead] at hok
  injection hok with hok
  injection hok with htail hring
  have hpos : 0 < (r.simSq i').entries := by omega
  have hadv := NVMeHeadTail.advance_mod hpos hle (r.simSq i').head
  rw [Nat.mod_eq_of_lt hlt] at hadv
  -- the queue was empty, so the doorbell shows one command
  have hnum : NVMeQueue.numEntries (r.simSq i').entries (r.simSq i').head
      (NVMeHeadTail.advance (r.simSq i').entries (r.simSq i').head) = 1 := by
    have hwin := @NVMeQueue.numEntries_window (r.simSq i').entries (r.simSq i').head
      ((r.simSq i').head + 1) (by omega) (by omega)
    rw [Nat.mod_eq_of_lt hlt, ← hadv, Nat.add_sub_cancel_left] at hwin
    exact hwin
  have hdoorbell : (r.withPost i sqtail ring command).SQTAIL (r.simSq i').qid
      = NVMeHeadTail.advance (r.simSq i').entries (r.simSq i').head := by
    show Function.update r.SQTAIL (r.hostSq i).qid sqtail (r.simSq i').qid = _
    rw [hqid, Function.update_self, htail]
  -- it is in the slot the simulator reads, both sides having the queue at one address
  have hslot : (r.withPost i sqtail ring command).sqRing (r.simSq i').baseAddress (r.simSq i').head
      = command := by
    show Function.update r.sqRing (r.hostSq i).baseAddress ring (r.simSq i').baseAddress _ = _
    rw [hbase, Function.update_self, ← hring, Function.update_self]
  have hget : (r.simSq i').getCommand ((r.withPost i sqtail ring command).SQTAIL (r.simSq i').qid)
      = some ((r.simSq i').head, { r.simSq i' with
          head := NVMeHeadTail.advance (r.simSq i').entries (r.simSq i').head }) := by
    unfold NVMeSubmissionQueue.getCommand NVMeSubmissionQueue.numEntries
    rw [hdoorbell, hnum, if_neg (by omega)]
  have hfetch := @getCommand_eq (r.withPost i sqtail ring command) i' _ _ hget
  rw [show (r.withPost i sqtail ring command).simSq i' = r.simSq i' from rfl, hslot] at hfetch
  refine ⟨_, hfetch, rfl, hdoorbell.symm, ?_⟩
  dsimp only
  rw [hadv]
  exact Nat.mod_lt _ hpos

end Rings

namespace NVSim

variable {nvsim nvsim' : NVSim} {command : Generic} {i c : Nat}

/-- An admin command leaves the submission queues there are to the fetches. -/
theorem adminCmdHandler_simSq (hi : i < nvsim.nextSq) {j : Nat}
    (h : adminCmdHandler command.OPC nvsim command j c = .ok nvsim') :
    nvsim'.rings.simSq i = nvsim.rings.simSq i ∧ nvsim'.rings.SQTAIL = nvsim.rings.SQTAIL := by
  have hframe : ∀ {data : NVSim}, Frame (fun _ => False) (· = c) data nvsim' →
      data.rings.simSq i = nvsim.rings.simSq i → data.rings.SQTAIL = nvsim.rings.SQTAIL →
      nvsim'.rings.simSq i = nvsim.rings.simSq i ∧ nvsim'.rings.SQTAIL = nvsim.rings.SQTAIL :=
    fun hf hsq htail => ⟨(hf.simSq i id).trans hsq, hf.SQTAIL.trans htail⟩
  by_cases hother : GenericNVMeNVSimDevice.IsQueueCommand command
  · -- the commands about queues, one by one; none of the others touches a queue
    unfold GenericNVMeNVSimDevice.IsQueueCommand at hother
    simp only [List.mem_cons, List.not_mem_nil, or_false] at hother
    unfold adminCmdHandler at h
    rcases hother with hopc | hopc | hopc | hopc
    · rw [hopc, if_neg (by decide), if_pos rfl] at h
      unfold NVSimCreateIOCompletionQueue at h
      split at h
      · exact hframe (complete_frame h) rfl rfl
      · exact hframe (complete_frame h) rfl rfl
    · rw [hopc, if_neg (by decide), if_neg (by decide), if_pos rfl] at h
      unfold NVSimCreateIOSubmissionQueue at h
      dsimp only at h
      split at h
      · exact hframe (complete_frame h) (newSq_simSq _ _ _ hi) rfl
      · exact hframe (complete_frame h) (newSq_simSq _ _ _ hi) rfl
    · rw [hopc, if_neg (by decide), if_neg (by decide), if_neg (by decide), if_pos rfl] at h
      obtain ⟨_, _, h⟩ := bind_eq_ok h
      obtain ⟨_, _, h⟩ := bind_eq_ok h
      exact hframe (complete_frame h) rfl rfl
    · rw [hopc, if_neg (by decide), if_neg (by decide), if_neg (by decide), if_neg (by decide),
        if_pos rfl] at h
      obtain ⟨_, _, h⟩ := bind_eq_ok h
      obtain ⟨_, _, h⟩ := bind_eq_ok h
      exact hframe (complete_frame h) rfl rfl
  · exact hframe (adminCmdHandler_completes hother h).frame rfl rfl

theorem adminCommands_idle {fuel : Nat} {handled : List (Nat × Generic)}
    (h : nvsim.rings.getCommand i = none) :
    adminCommands i c fuel nvsim handled = some (.ok (nvsim, handled)) := by
  unfold adminCommands
  rw [h]
  rfl

/-- Where one command waits, its handler is all there is. -/
theorem adminCommands_one {fuel : Nat} {handled handled' : List (Nat × Generic)} {rings : Rings}
    (hget : nvsim.rings.getCommand i = some (command, rings))
    (hidle : ∀ after, adminCmdHandler command.OPC { nvsim with rings } command i c = .ok after →
      after.rings.getCommand i = none)
    (h : adminCommands i c fuel nvsim handled = some (.ok (nvsim', handled'))) :
    adminCmdHandler command.OPC { nvsim with rings } command i c = .ok nvsim' := by
  unfold adminCommands at h
  rw [hget] at h
  cases fuel with
  | zero => exact absurd h (by simp)
  | succ fuel =>
      dsimp only at h
      obtain ⟨after, hhandler, h⟩ := bind_eq_some_ok h
      have hok : adminCmdHandler command.OPC { nvsim with rings } command i c = .ok after :=
        Option.some.inj hhandler
      rw [adminCommands_idle (hidle after hok)] at h
      rw [hok, (Prod.mk.inj (Except.ok.inj (Option.some.inj h))).1]

theorem checkCommands_spec {fuel : Nat} {handled : List (Nat × Generic)}
    (hget : nvsim.queueMgr.get (some 0) (some 0) = .ok (.queue i, .queue c))
    (h : nvsim.checkCommands fuel = some (.ok (nvsim', handled))) :
    ∃ after handled₁ loop, adminCommands i c fuel nvsim [] = some (.ok (after, handled₁))
      ∧ after.ioCommands fuel = some (.ok loop) ∧ nvsim' = loop.nvsim := by
  unfold checkCommands at h
  obtain ⟨queues, hqueues, h⟩ := bind_eq_some_ok h
  rw [hget] at hqueues
  rw [← Except.ok.inj (Option.some.inj hqueues)] at h
  obtain ⟨⟨after, handled₁⟩, hadmin, h⟩ := bind_eq_some_ok h
  obtain ⟨loop, hio, h⟩ := bind_eq_some_ok h
  exact ⟨after, handled₁, loop, hadmin, hio,
    (Prod.mk.inj (Except.ok.inj (Option.some.inj h))).1.symm⟩

end NVSim

namespace GenericNVMeNVSimDevice

variable {d d' : GenericNVMeNVSimDevice} {i c i' c' : Nat}

/-- The simulator takes the pair of `j` and `b` for busy. -/
def Busy (d : GenericNVMeNVSimDevice) (j b : Nat) : Prop :=
  0 < d.nvsim.numEntries j ∧ ∃ e ∈ d.nvsim.queueMgr.nvmeQueues.entries, e.2 = (some j, some b)

theorem busySqs_spec {j : Nat} {cq : Option Nat} (h : (j, cq) ∈ d.nvsim.busySqs) :
    (∃ k, (k, (some j, cq)) ∈ d.nvsim.queueMgr.nvmeQueues.entries)
      ∧ 0 < d.nvsim.numEntries j ∧ (d.nvsim.rings.simSq j).qid ≠ 0 := by
  obtain ⟨⟨k, sq, cq'⟩, hm, hb⟩ := List.mem_filterMap.mp h
  cases sq with
  | none => exact absurd hb (by simp)
  | some i =>
      obtain ⟨hbusy, he⟩ := Option.ite_none_right_eq_some.mp hb
      obtain ⟨hi, hcq⟩ := Prod.mk.inj (Option.some.inj he)
      subst hi hcq
      exact ⟨⟨k, hm⟩, hbusy⟩

/-- The simulator served its IO queues, and the host may have polled. -/
structure Served (d d' : GenericNVMeNVSimDevice) : Prop where
  quiet : Quiet d d'
  SQTAIL : d'.host.rings.SQTAIL = d.host.rings.SQTAIL
  simSq : ∀ j, (0 < d.nvsim.numEntries j → (d.host.rings.simSq j).qid = 0) →
    d'.host.rings.simSq j = d.host.rings.simSq j
  simCq : ∀ b, (∀ j, ¬ d.Busy j b) → d'.host.rings.simCq b = d.host.rings.simCq b
  cqRing : ∀ base, (∀ j b, d.Busy j b → (d.host.rings.simCq b).baseAddress ≠ base) →
    d'.host.rings.cqRing base = d.host.rings.cqRing base

theorem served_ioCommands (hd : Handles d) {fuel : Nat} {loop : NVSim.IoLoop}
    (h : d.nvsim.ioCommands fuel = some (.ok loop)) : Served d (d.withSim loop.nvsim) := by
  have hframe := NVSim.ioCommands_frame h
  refine ⟨quiet_frame hd hframe, ?_, fun j hj => ?_, fun b hb => ?_, fun base hbase => ?_⟩
  · rw [← d.shared]
    exact hframe.SQTAIL
  · rw [← d.shared] at hj ⊢
    refine hframe.simSq j fun hin => ?_
    obtain ⟨⟨_, cq⟩, hmem, rfl⟩ := List.mem_map.mp hin
    obtain ⟨_, hpos, hqid⟩ := busySqs_spec hmem
    exact hqid (hj hpos)
  · rw [← d.shared]
    refine hframe.simCq b fun ⟨j, hj⟩ => ?_
    obtain ⟨⟨k, hm⟩, hpos, _⟩ := busySqs_spec hj
    exact hb j ⟨hpos, _, hm, rfl⟩
  · rw [← d.shared] at hbase ⊢
    refine hframe.cqRing base fun b ⟨j, hj⟩ => ?_
    obtain ⟨⟨k, hm⟩, hpos, _⟩ := busySqs_spec hj
    exact hbase j b ⟨hpos, _, hm, rfl⟩

theorem Served.polled {host : NVMeDeviceCommon} (h : Served d d') (hd : Handles d)
    (hp : d'.host.Polled host) : Served d (d'.withHost host) where
  quiet := h.quiet.trans (quiet_polled (h.quiet.handles hd) hp)
  SQTAIL := hp.SQTAIL.trans h.SQTAIL
  simSq j hj := (congrFun hp.simSq j).trans (h.simSq j hj)
  simCq b hb := (congrFun hp.simCq b).trans (h.simCq b hb)
  cqRing base hbase := (congrFun hp.cqRing base).trans (h.cqRing base hbase)

theorem Served.adminIdle (h : Served d d') (ha : AdminIdle d i c i' c') : AdminIdle d' i c i' c' := by
  have hqid : (d.host.rings.simSq i').qid = 0 := (congrArg QueuePlace.qid ha.place).symm.trans ha.qid
  exact h.quiet.adminIdle ha (h.simSq i' fun _ => hqid) (congrFun h.SQTAIL 0)

theorem AdminIdle.hostGet (h : AdminIdle d i c i' c') :
    d.host.queueMgr.get (some 0) (some 0) = .ok (.queue i, .queue c) := by
  unfold QueueMgr.get
  dsimp only
  rw [Dict.get?_eq_some_iff.mpr h.host]
  rfl

theorem AdminIdle.simGet (h : AdminIdle d i c i' c') :
    d.nvsim.queueMgr.get (some 0) (some 0) = .ok (.queue i', .queue c') := by
  unfold QueueMgr.get
  dsimp only
  rw [Dict.get?_eq_some_iff.mpr h.sim]
  rfl

theorem AdminIdle.simQid (h : AdminIdle d i c i' c') : (d.host.rings.simSq i').qid = 0 :=
  (congrArg QueuePlace.qid h.place).symm.trans h.qid

theorem AdminIdle.getCommand (h : AdminIdle d i c i' c') : d.nvsim.rings.getCommand i' = none := by
  rw [d.shared]
  refine Rings.getCommand_idle ?_ h.lt
  rw [h.simQid]
  exact h.head

/-- A round of the simulator, nothing being in the admin queue. -/
theorem served_checkCommands (hd : Handles d) (ha : AdminIdle d i c i' c') {fuel : Nat}
    (h : d.checkCommands fuel = some (.ok d')) : Served d d' := by
  unfold checkCommands at h
  obtain ⟨⟨nvsim, handled⟩, hcheck, h⟩ := bind_eq_some_ok h
  obtain ⟨after, handled₁, loop, hadmin, hio, rfl⟩ := NVSim.checkCommands_spec ha.simGet hcheck
  rw [NVSim.adminCommands_idle ha.getCommand] at hadmin
  have hsame := (Prod.mk.inj (Except.ok.inj (Option.some.inj hadmin))).1
  subst hsame
  rw [← Except.ok.inj (Option.some.inj h)]
  exact served_ioCommands hd hio

/-- The host posted an admin command and the simulator fetched it. -/
structure Fetched (d d' : GenericNVMeNVSimDevice) (i' : Nat) : Prop where
  quiet : Quiet d d'
  SQTAIL : ∀ q, q ≠ 0 → d'.host.rings.SQTAIL q = d.host.rings.SQTAIL q
  simSq : ∀ j, j ≠ i' → d'.host.rings.simSq j = d.host.rings.simSq j
  simCq : d'.host.rings.simCq = d.host.rings.simCq
  cqRing : d'.host.rings.cqRing = d.host.rings.cqRing

theorem newCommand_self (command : Command) :
    (d.newCommand command).host.commands d.nextCommand = command := Function.update_self ..

/-- An admin command that was posted is the next one the simulator fetches. -/
theorem fetched_of_posted (hd : Handles d) (ha : AdminIdle d i c i' c') {sqe : Generic}
    {host : NVMeDeviceCommon} {d₁ : GenericNVMeNVSimDevice}
    (h : (d.newCommand { sqe, cmdsetAdmin := true }).host.Posted host d.nextCommand i (.queue c))
    (hd₁ : d₁ = (d.newCommand { sqe, cmdsetAdmin := true }).withHost host) :
    ∃ cid rings, d₁.nvsim.rings.getCommand i' = some ({ sqe with CID := cid }, rings)
      ∧ Fetched d (d₁.withSim { d₁.nvsim with rings }) i'
      ∧ AdminIdle (d₁.withSim { d₁.nvsim with rings }) i c i' c' := by
  subst hd₁
  have hnew := quiet_newCommand hd { sqe, cmdsetAdmin := true }
  have hnewHandles := hnew.handles hd
  have hout : ∀ e ∈ (d.newCommand { sqe, cmdsetAdmin := true }).host.outstandingCommands.entries,
      e.2 ≠ d.nextCommand := fun e he => Nat.ne_of_lt (hd.outstanding e he)
  have hposted := quiet_posted hnewHandles (Nat.lt_succ_self _) hout ha.host rfl h
  obtain ⟨cid, hrings⟩ := h.rings
  rw [newCommand_self] at hrings
  -- the admin queue was empty, so what is fetched is what was posted
  obtain ⟨sq, hget, hsqPlace, hsqHead, hsqLt⟩ := Rings.fetch_posted ha.place
    (by rw [ha.simQid]; exact ha.head) ha.lt ha.two ha.le hrings
  have hquiet := (hnew.trans hposted).trans (quiet_frame (hposted.handles hnewHandles)
    (@NVSim.getCommand_frame _ _ i' (fun _ => False) _ hget))
  obtain ⟨sqtail, ring, _, hwith⟩ := Rings.postCommand_spec hrings
  -- of the rings, the fetch moves the simulator's view of that queue alone
  have hself : (host.rings.withFetch i' sq).simSq i' = sq := Function.update_self ..
  have hentries : sq.entries = (d.host.rings.simSq i').entries :=
    congrArg QueuePlace.entries hsqPlace
  refine ⟨cid, _, hget, ⟨hquiet, fun q hq => ?_, fun j hj => ?_, ?_, ?_⟩, ?_⟩
  · show host.rings.SQTAIL q = _
    rw [hwith]
    exact Function.update_of_ne (fun he => hq (he.trans ha.qid)) _ _
  · show Function.update host.rings.simSq i' sq j = _
    rw [Function.update_of_ne hj, hwith]
    rfl
  · show host.rings.simCq = _
    rw [hwith]
    rfl
  · show host.rings.cqRing = _
    rw [hwith]
    rfl
  · refine ⟨?_, ?_, ?_, ?_, ?_, ?_, ?_, ?_⟩
    · rw [hquiet.hostQueues.nvmeQueues]
      exact ha.host
    · exact ha.sim
    · exact (hquiet.hostSq i).trans (ha.place.trans (hquiet.simSq i').symm)
    · exact (congrArg QueuePlace.qid (hquiet.hostSq i)).trans ha.qid
    · show ((host.rings.withFetch i' sq).simSq i').head = host.rings.SQTAIL 0
      rw [hself, hsqHead, ha.simQid]
    · show ((host.rings.withFetch i' sq).simSq i').head < ((host.rings.withFetch i' sq).simSq i').entries
      rw [hself, hentries]
      exact hsqLt
    · show 2 ≤ ((host.rings.withFetch i' sq).simSq i').entries
      rw [hself, hentries]
      exact ha.two
    · show ((host.rings.withFetch i' sq).simSq i').entries ≤ _
      rw [hself, hentries]
      exact ha.le

/--
**What an admin command comes to.** It is posted, fetched and handled; then the simulator
serves its IO queues and the host polls.
-/
theorem syncCmd_spec (hd : Handles d) (ha : AdminIdle d i c i' c') {sqe : Generic} {fuel : Nat}
    (h : d.syncCmd sqe fuel = some (.ok d')) :
    ∃ d₁ cid nvsim, Fetched d d₁ i' ∧ AdminIdle d₁ i c i' c'
      ∧ NVSim.adminCmdHandler sqe.OPC d₁.nvsim { sqe with CID := cid } i' c' = .ok nvsim
      ∧ (Handles (d₁.withSim nvsim) → Served (d₁.withSim nvsim) d') := by
  unfold syncCmd at h
  dsimp only at h
  generalize hstart : (d.newCommand { sqe, cmdsetAdmin := true }).host.startCmd d.nextCommand none none
    = started at h
  obtain ⟨host, result⟩ := started
  dsimp only at h
  obtain ⟨ids, hok, h⟩ := bind_eq_some_ok h
  have hresult : result = .ok ids := Option.some.inj hok
  obtain ⟨d₂, hcheck, h⟩ := bind_eq_some_ok h
  generalize hpoll : d₂.host.getCompletion 0 (.ok []) = polled at h
  obtain ⟨host₂, result₂⟩ := polled
  dsimp only at h
  obtain ⟨_, _, h⟩ := bind_eq_some_ok h
  obtain ⟨_, _, h⟩ := bind_eq_some_ok h
  have hd' : d' = d₂.withHost host₂ := by
    split at h
    · exact (Except.ok.inj (Option.some.inj h)).symm
    · exact absurd (Option.some.inj h) (by simp)
  have hpolled : d₂.host.Polled host₂ := by
    have hp := d₂.host.getCompletion_polled 0 (.ok [])
    rw [hpoll] at hp
    exact hp
  -- nothing but the post to the admin queue returns
  have hposted : (d.newCommand { sqe, cmdsetAdmin := true }).host.Posted host d.nextCommand i
      (.queue c) := by
    have hcases := NVMeDeviceCommon.startCmd_posted
      (d.newCommand { sqe, cmdsetAdmin := true }).host d.nextCommand none none
    rw [hstart] at hcases
    rcases hcases with ⟨_, e, he⟩ | ⟨j, cq, hl, hposted⟩
    · exact absurd (he.symm.trans hresult) (by simp)
    · rw [NVMeDeviceCommon.lookup_admin (by rw [newCommand_self])] at hl
      have hpair := Prod.mk.inj (Except.ok.inj (ha.hostGet.symm.trans hl))
      rw [QueueRef.queue.inj hpair.1, hpair.2]
      exact hposted
  obtain ⟨cid, rings, hget, hfetched, hidle⟩ := fetched_of_posted hd ha hposted rfl
  unfold checkCommands at hcheck
  obtain ⟨⟨nvsim, handled⟩, hcheck, hd₂⟩ := bind_eq_some_ok hcheck
  have hsim : ((d.newCommand { sqe, cmdsetAdmin := true }).withHost host).nvsim.queueMgr.get
      (some 0) (some 0) = .ok (.queue i', .queue c') := ha.simGet
  obtain ⟨after, handled₁, loop, hadmin, hio, rfl⟩ := NVSim.checkCommands_spec hsim hcheck
  have hhandler := NVSim.adminCommands_one hget (fun after hafter => ?_) hadmin
  · refine ⟨_, cid, after, hfetched, hidle, hhandler, fun hafter => ?_⟩
    have hserved := served_ioCommands hafter hio
    rw [← Except.ok.inj (Option.some.inj hd₂)] at hpolled hd'
    rw [hd']
    exact hserved.polled hafter hpolled
  · -- the handler leaves the admin queue as the fetch did
    have hlt : i' < d.nvsim.nextSq := hd.simSqs _ ha.sim i' rfl
    have hkeeps := NVSim.adminCmdHandler_simSq (by exact hlt) hafter
    refine Rings.getCommand_idle ?_ ?_
    · rw [hkeeps.1, hkeeps.2]
      exact hidle.head.trans (congrArg _ hidle.simQid.symm)
    · rw [hkeeps.1]
      exact hidle.lt

end GenericNVMeNVSimDevice

end LoneNvme
