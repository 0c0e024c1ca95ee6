import LoneNvme.QueueAgreement

/-!
# The life of IO queues

Runs of creations and deletions with commands in between, from a start with admin queues
on. Host and simulator agree in every state reached if the ids of each new pair are fresh:
no completion queue had the id before, and the tail doorbell is at 0.

The invariant of a run is `Ready` with the agreement of the two views on top. Creating a pair
keeps it if its ids are fresh, which is a condition on the state before the call, and so it is
one on runs. It is needed as well: of any creation in a state reached, the theorem says that it
makes an empty pair and keeps both sides alike only then.
-/

namespace LoneNvme

open Lib

namespace AdminQueues

/-- Sizes and addresses the registers can carry, and room for a command. -/
structure Fits (q : AdminQueues) : Prop where
  asqEntries : 2 ≤ q.asqEntries ∧ q.asqEntries ≤ 2 ^ 12
  acqEntries : 0 < q.acqEntries ∧ q.acqEntries ≤ 2 ^ 12
  asqMem : q.asqMem < 2 ^ 52
  acqMem : q.acqMem < 2 ^ 52

/-- What both sides should see of the admin queues. -/
def sqPlace (q : AdminQueues) : QueuePlace := ⟨0, q.asqMem, q.asqEntries⟩

def cqPlace (q : AdminQueues) : QueuePlace := ⟨0, q.acqMem, q.acqEntries⟩

end AdminQueues

namespace GenericNVMeNVSimDevice

variable {d d' : GenericNVMeNVSimDevice} {i c i' c' : Nat} {a : AdminQueues} {q : QueuePair}
variable {hv sv : QueueMgr QueuePlace QueuePlace} {ids : List Nat} {U : Nat → Prop}

/-! ## The start -/

/-- A first reset leaves the admin pair on both sides. -/
structure Booted (d d' : GenericNVMeNVSimDevice) (a : AdminQueues) : Prop where
  hostQueues : d'.host.queueMgr = ({} : QueueMgr Nat Nat).add 0 d.nextSq 0 d.nextCq
  simQueues : d'.nvsim.queueMgr = ({} : QueueMgr Nat Nat).add 0 d.nvsim.nextSq 0 d.nvsim.nextCq
  completionQueues : d'.nvsim.completionQueues = []
  hostNext : d'.nextSq = d.nextSq + 1 ∧ d'.nextCq = d.nextCq + 1
  simNext : d'.nvsim.nextSq = d.nvsim.nextSq + 1 ∧ d'.nvsim.nextCq = d.nvsim.nextCq + 1
  allocated : a.acqMem ∈ d'.allocated
  hostSq : (d'.host.rings.hostSq d.nextSq).place = a.sqPlace
  hostCq : (d'.host.rings.hostCq d.nextCq).place = a.cqPlace
  simSq : (d'.host.rings.simSq d.nvsim.nextSq).place = a.sqPlace
    ∧ (d'.host.rings.simSq d.nvsim.nextSq).head = 0
  simCq : (d'.host.rings.simCq d.nvsim.nextCq).place = a.cqPlace
  doorbells : ∀ q, d'.host.rings.SQTAIL q = 0 ∧ d'.host.rings.CQHEAD q = 0
  outstanding : d'.host.outstandingCommands = Dict.empty

theorem toNat_entries {n : Nat} (h : 0 < n ∧ n ≤ 2 ^ 12) :
    (BitVec.ofInt 12 ((n : Int) - 1)).toNat + 1 = n := by
  rw [BitVec.toNat_ofInt]
  omega

theorem booted_reset (hi : Init d) (ha : a.Fits) (h : d.reset a = .ok d') : Booted d d' a := by
  obtain ⟨host, nvsim, regs, oldEN, allocated, nextSq, nextCq, nextCommand, hshared⟩ := d
  obtain ⟨rfl, rfl, hhost, ⟨hsim, hlist⟩, hbells, hout⟩ := hi
  dsimp only at *
  -- everything the calls test is known, so they can be run
  have hd : _ = d' := Except.ok.inj h
  subst hd
  have hsqSize : (BitVec.ofInt 12 ((a.asqEntries : Int) - 1)).toNat + 1 = a.asqEntries :=
    toNat_entries ⟨by have := ha.asqEntries; omega, ha.asqEntries.2⟩
  have hcqSize : (BitVec.ofInt 12 ((a.acqEntries : Int) - 1)).toNat + 1 = a.acqEntries :=
    toNat_entries ha.acqEntries
  have hsqBase : (BitVec.ofNat 52 a.asqMem).toNat = a.asqMem := Nat.mod_eq_of_lt ha.asqMem
  have hcqBase : (BitVec.ofNat 52 a.acqMem).toNat = a.acqMem := Nat.mod_eq_of_lt ha.acqMem
  refine ⟨rfl, ?_, hlist, ⟨rfl, rfl⟩, ⟨rfl, rfl⟩, List.mem_cons_self, ?_, ?_, ⟨?_, ?_⟩, ?_,
    fun q => ⟨?_, ?_⟩, rfl⟩
  · rw [← hsim]
    rfl
  · show (Function.update host.rings.hostSq nextSq _ nextSq).place = _
    rw [Function.update_self]
    rfl
  · show (Function.update host.rings.hostCq nextCq _ nextCq).place = _
    rw [Function.update_self]
    rfl
  · show (Function.update host.rings.simSq nvsim.nextSq _ nvsim.nextSq).place = _
    rw [Function.update_self]
    show QueuePlace.mk 0 (BitVec.ofNat 52 a.asqMem).toNat
      ((BitVec.ofInt 12 ((a.asqEntries : Int) - 1)).toNat + 1) = a.sqPlace
    rw [hsqBase, hsqSize]
    rfl
  · show (Function.update host.rings.simSq nvsim.nextSq _ nvsim.nextSq).head = _
    rw [Function.update_self]
  · show (Function.update host.rings.simCq nvsim.nextCq _ nvsim.nextCq).place = _
    rw [Function.update_self]
    show QueuePlace.mk 0 (BitVec.ofNat 52 a.acqMem).toNat
      ((BitVec.ofInt 12 ((a.acqEntries : Int) - 1)).toNat + 1) = a.cqPlace
    rw [hcqBase, hcqSize]
    rfl
  · show (if q < 1024 then 0 else if q < 1024 then 0 else host.rings.SQTAIL q) = 0
    rw [(hbells q).1, ite_self, ite_self]
  · show (if q < 1024 then 0 else if q < 1024 then 0 else host.rings.CQHEAD q) = 0
    rw [(hbells q).2, ite_self, ite_self]

/-- The entries of a manager with one pair. -/
theorem mem_onePair {k : Nat × Nat} {v : Option Nat × Option Nat}
    (h : (k, v) ∈ (({} : QueueMgr Nat Nat).add 0 i 0 c).nvmeQueues.entries) :
    k = (0, 0) ∧ v = (some i, some c) := by
  rcases Dict.mem_entries_set.mp h with hnew | ⟨_, hold⟩
  · exact hnew
  · exact absurd hold List.not_mem_nil

/-- **Right after the start** both sides have the admin pair, and nothing is in it. -/
theorem Booted.ready (h : Booted d d' a) (ha : a.Fits) :
    Ready d' d.nextSq d.nextCq d.nvsim.nextSq d.nvsim.nextCq
      (({} : QueueMgr _ _).add 0 a.sqPlace 0 a.cqPlace) (({} : QueueMgr _ _).add 0 a.sqPlace 0 a.cqPlace)
      [] (· ≠ 0) := by
  -- each side has the admin pair and nothing else
  have hhost : ∀ {k v}, (k, v) ∈ d'.host.queueMgr.nvmeQueues.entries →
      k = (0, 0) ∧ v = (some d.nextSq, some d.nextCq) := by
    rw [h.hostQueues]
    exact mem_onePair
  have hsim : ∀ {k v}, (k, v) ∈ d'.nvsim.queueMgr.nvmeQueues.entries →
      k = (0, 0) ∧ v = (some d.nvsim.nextSq, some d.nvsim.nextCq) := by
    rw [h.simQueues]
    exact mem_onePair
  -- no command is outstanding, so one object alone is in use
  have hinUse : ∀ b, d'.InUse b → b = d.nextCq := by
    rintro b (⟨e, he, hb⟩ | ⟨e, he, _⟩)
    · rw [(hhost he).2] at hb
      exact (Option.some.inj hb).symm
    · rw [h.outstanding] at he
      exact absurd he List.not_mem_nil
  have hsqQid : (d'.host.rings.hostSq d.nextSq).qid = 0 := congrArg QueuePlace.qid h.hostSq
  have hcqQid : (d'.host.rings.hostCq d.nextCq).qid = 0 := congrArg QueuePlace.qid h.hostCq
  have hcqMem : (d'.host.rings.simCq d.nvsim.nextCq).baseAddress = a.acqMem :=
    congrArg QueuePlace.baseAddress h.simCq
  have hentries : (d'.host.rings.simSq d.nvsim.nextSq).entries = a.asqEntries :=
    congrArg QueuePlace.entries h.simSq.1
  refine ⟨⟨fun e he j hj => ?_, fun b hb => ?_, fun e he => ?_, fun id hid => ?_, fun k hk => ?_,
      fun e he j hj => ?_, fun e he b hb => ?_, fun b hb => ?_⟩,
    ⟨?_, ?_, h.hostSq.trans h.simSq.1.symm, hsqQid, ?_, ?_, ?_, ?_⟩, ?_, ?_, ?_,
    fun q hq => ⟨(h.doorbells q).2, fun b hb => ?_⟩⟩
  · obtain ⟨hk, hv⟩ := hhost he
    rw [hv] at hj
    rw [← Option.some.inj hj, hk, h.hostNext.1]
    exact ⟨Nat.lt_succ_self _, hsqQid⟩
  · rw [hinUse b hb, h.hostNext.2]
    exact Nat.lt_succ_self _
  · rw [h.outstanding] at he
    exact absurd he List.not_mem_nil
  · rw [h.hostQueues] at hid
    exact absurd hid List.not_mem_nil
  · obtain ⟨v, hm⟩ := Dict.mem_keys.mp hk
    rw [(hhost hm).1]
    exact ⟨by omega, by omega⟩
  · rw [(hsim he).2] at hj
    rw [← Option.some.inj hj, h.simNext.1]
    exact Nat.lt_succ_self _
  · rw [(hsim he).2] at hb
    rw [← Option.some.inj hb, h.simNext.2, hcqMem]
    exact ⟨Nat.lt_succ_self _, h.allocated⟩
  · rw [h.completionQueues] at hb
    exact absurd hb List.not_mem_nil
  · rw [h.hostQueues]
    exact Dict.mem_entries_set.mpr (Or.inl ⟨rfl, rfl⟩)
  · rw [h.simQueues]
    exact Dict.mem_entries_set.mpr (Or.inl ⟨rfl, rfl⟩)
  · rw [h.simSq.2, (h.doorbells 0).1]
  · rw [h.simSq.2, hentries]
    exact Nat.lt_of_lt_of_le (by omega) ha.asqEntries.1
  · rw [hentries]
    exact ha.asqEntries.1
  · rw [hentries]
    exact Nat.le_trans ha.asqEntries.2 (by omega)
  · unfold hostView
    rw [h.hostQueues, QueueMgr.view_add, h.hostSq, h.hostCq, QueueMgr.view_empty]
  · unfold simView
    rw [h.simQueues, QueueMgr.view_add, h.simSq.1, h.simCq, QueueMgr.view_empty]
  · unfold cqIds
    rw [h.completionQueues, List.map_nil]
  · rw [hinUse b hb, hcqQid]
    exact fun h0 => hq h0.symm

/-! ## What every state of a run has -/

/-- Host and simulator look alike, and every id of a completion queue not made yet is unused. -/
def Inv (d : GenericNVMeNVSimDevice) : Prop :=
  ∃ i c i' c' v ids, Ready d i c i' c' v v ids fun q => q ≠ 0 ∧ q ∉ ids

theorem Ready.start (h : Ready d i c i' c' hv sv ids U) {command : Command} {sqid cqid : Option Nat}
    (hio : command.cmdsetAdmin = false) (hsqid : sqid ≠ some 0) (hcqid : sqid = none → cqid = none) :
    Ready ((d.newCommand command).withHost
      ((d.newCommand command).host.startCmd d.nextCommand sqid cqid).1) i c i' c' hv sv ids U := by
  have hnew := quiet_newCommand h.handles command
  have h₁ : Ready (d.newCommand command) i c i' c' hv sv ids U :=
    h.quiet hnew (hnew.adminIdle h.admin rfl rfl)
  have hout : ∀ e ∈ (d.newCommand command).host.outstandingCommands.entries, e.2 ≠ d.nextCommand :=
    fun e he => Nat.ne_of_lt (h.handles.outstanding e he)
  rcases NVMeDeviceCommon.startCmd_posted (d.newCommand command).host d.nextCommand sqid cqid
    with ⟨hnot, _⟩ | ⟨j, cq, hlookup, hposted⟩
  · have hq := quiet_notPosted h₁.handles hout hnot
    refine h₁.quiet hq (hq.adminIdle h₁.admin ?_ ?_)
    · exact congrArg (fun rings => rings.simSq i') hnot.rings
    · exact congrArg (fun rings => rings.SQTAIL 0) hnot.rings
  · obtain ⟨e, he, hsq, hcq, hid⟩ := NVMeDeviceCommon.lookup_io (by rw [newCommand_self]; exact hio)
      hsqid hcqid h₁.handles.ioSqids hlookup
    have hq := quiet_posted h₁.handles (Nat.lt_succ_self _) hout he hcq hposted
    obtain ⟨cid, hrings⟩ := hposted.rings
    obtain ⟨sqtail, ring, _, hpost⟩ := Rings.postCommand_spec hrings
    -- the doorbell rung is not that of the admin queue
    have hqid := (h₁.handles.hostSqs e he j hsq).2
    refine h₁.quiet hq (hq.adminIdle h₁.admin ?_ ?_)
    · exact congrArg (fun rings => rings.simSq i') hpost
    · refine (congrArg (fun rings => rings.SQTAIL 0) hpost).trans ?_
      exact Function.update_of_ne (fun h0 => hid (hqid.symm.trans h0.symm)) _ _

theorem Ready.poll (h : Ready d i c i' c' hv sv ids U) (cqid : Nat)
    (dataIn : Except Exc (List (BitVec 8))) :
    Ready (d.withHost (d.host.getCompletion cqid dataIn).1) i c i' c' hv sv ids U := by
  have hp := d.host.getCompletion_polled cqid dataIn
  have hq := quiet_polled h.handles hp
  exact h.quiet hq (hq.adminIdle h.admin (congrFun hp.simSq i') (congrFun hp.SQTAIL 0))

/-- An admin command that is not about queues. -/
theorem Ready.other (h : Ready d i c i' c' hv sv ids U) {sqe : Generic} (hsqe : ¬ IsQueueCommand sqe)
    {fuel : Nat} (hs : d.syncCmd sqe fuel = some (.ok d')) : Ready d' i c i' c' hv sv ids U := by
  obtain ⟨d₁, cid, nvsim, _, h₁, hhandler, hserved⟩ := h.syncCmd hs
  have hother : ¬ IsQueueCommand { sqe with CID := cid } := hsqe
  have hdone : Ready (d₁.withSim nvsim) i c i' c' hv sv ids U :=
    h₁.completed (NVSim.adminCmdHandler_completes hother hhandler).frame
  exact hdone.served (hserved hdone.handles)

/-! ## Agreement -/

/-- Both managers have the same keys, and the queues of a pair the same ids, memory and sizes. -/
structure Agree (d : GenericNVMeNVSimDevice) : Prop where
  keys : ∀ k, k ∈ d.host.queueMgr.nvmeQueues.keys ↔ k ∈ d.nvsim.queueMgr.nvmeQueues.keys
  queues : ∀ k sq cq sq' cq', d.host.queueMgr.nvmeQueues.get? k = some (sq, cq) →
    d.nvsim.queueMgr.nvmeQueues.get? k = some (sq', cq') →
    (sq.map fun i => (d.host.rings.hostSq i).place) = (sq'.map fun i => (d.host.rings.simSq i).place)
      ∧ (cq.map fun c => (d.host.rings.hostCq c).place)
        = (cq'.map fun c => (d.host.rings.simCq c).place)

theorem agree_of_views (h : d.hostView = d.simView) : Agree d where
  keys k := by
    have hkeys := congrArg (fun qm => qm.nvmeQueues.keys) h
    unfold hostView simView at hkeys
    rw [QueueMgr.keys_view, QueueMgr.keys_view] at hkeys
    rw [hkeys]
  queues k sq cq sq' cq' hhost hsim := by
    have hget := congrArg (fun qm => qm.nvmeQueues.get? k) h
    unfold hostView simView at hget
    rw [QueueMgr.get?_view, QueueMgr.get?_view, hhost, hsim] at hget
    exact Prod.mk.inj (Option.some.inj hget)

/-- On until the first reset: the admin queues are there, nothing was posted. -/
def Started (d : GenericNVMeNVSimDevice) : Prop :=
  ∃ d₀ a, Init d₀ ∧ a.Fits ∧ d₀.reset a = .ok d

/-- Any call but another reset. -/
def lifeStep (d : GenericNVMeNVSimDevice) : DeviceOp → Option GenericNVMeNVSimDevice
  | .reset _ => none
  | op => step d op

def life : Machine GenericNVMeNVSimDevice DeviceOp := ⟨Started, lifeStep⟩

/-- The simulator never made a completion queue of the id, and the tail doorbell is at 0. -/
def FreshPair (d : GenericNVMeNVSimDevice) (q : QueuePair) : Prop :=
  q.cqId ∉ d.cqIds ∧ d.host.rings.SQTAIL q.sqId = 0

instance (d : GenericNVMeNVSimDevice) (q : QueuePair) : Decidable (d.FreshPair q) :=
  inferInstanceAs (Decidable (_ ∧ _))

/-- The condition on the creations of a run. -/
def FreshIds (d : GenericNVMeNVSimDevice) : DeviceOp → Prop
  | .create q _ => q.Fits ∧ d.FreshPair q
  | _ => True

instance (d : GenericNVMeNVSimDevice) : (op : DeviceOp) → Decidable (FreshIds d op)
  | .create q _ => inferInstanceAs (Decidable (q.Fits ∧ d.FreshPair q))
  | .start .. | .poll .. | .check _ | .sync .. | .delete _ | .reset _ =>
      inferInstanceAs (Decidable True)

theorem returned_eq_some {x : ExceptT Exc Option GenericNVMeNVSimDevice} (h : returned x = some d') :
    x = some (.ok d') := by
  rcases x with _ | _ | d₁
  · exact absurd h (by simp [returned, ExceptT.run])
  · exact absurd h (by simp [returned, ExceptT.run])
  · rw [← Option.some.inj h]

theorem inv_started (h : Started d) : Inv d := by
  obtain ⟨d₀, a, hi, ha, hreset⟩ := h
  have hready := (booted_reset hi ha hreset).ready ha
  exact ⟨_, _, _, _, _, _, hready.mono fun q hq => hq.1⟩

/-- **A creation with fresh ids** keeps host and simulator alike, and the new pair is empty. -/
theorem Ready.create_fresh {v : QueueMgr QueuePlace QueuePlace}
    (h : Ready d i c i' c' v v ids fun q => q ≠ 0 ∧ q ∉ ids) (hq : q.Fits) (hpair : d.FreshPair q)
    (hfresh : d.Fresh [q.cqMem, q.sqMem]) {fuel : Nat}
    (hs : d.createIoQueuePair q fuel = some (.ok d')) : Inv d' ∧ NewPairEmpty d' q := by
  obtain ⟨hid, htail⟩ := hpair
  obtain ⟨p, hcreated, hhead, hready⟩ := h.create hq hfresh hs
  have hunused : q.cqId ≠ 0 ∧ q.cqId ∉ ids := ⟨Nat.ne_of_gt hq.cqId.1, by rw [← h.cqIds]; exact hid⟩
  rw [(hcreated.new htail hid).1] at hready
  refine ⟨⟨_, _, _, _, _, _, hready.mono fun x hx => ?_⟩,
    hcreated.newPairEmpty hq htail hid (hhead hunused)⟩
  have hx' := hx.2
  rw [List.mem_append, not_or, List.mem_singleton] at hx'
  exact ⟨⟨hx.1, hx'.1⟩, hx'.2⟩

theorem inv_step {op : DeviceOp} (h : Inv d) (hok : FreshIds d op) (hs : lifeStep d op = some d') :
    Inv d' := by
  obtain ⟨i, c, i', c', v, ids, hr⟩ := h
  cases op with
  | start command sqid cqid =>
      obtain ⟨⟨hio, hsqid, hcqid⟩, hd'⟩ := Option.ite_none_right_eq_some.mp hs
      rw [← Option.some.inj hd']
      exact ⟨_, _, _, _, _, _, hr.start hio hsqid hcqid⟩
  | poll cqid dataIn =>
      rw [← Option.some.inj hs]
      exact ⟨_, _, _, _, _, _, hr.poll cqid dataIn⟩
  | check fuel =>
      have hserved := served_checkCommands hr.handles hr.admin (returned_eq_some hs)
      exact ⟨_, _, _, _, _, _, hr.served hserved⟩
  | sync sqe fuel =>
      obtain ⟨hsqe, hd'⟩ := Option.ite_none_left_eq_some.mp hs
      exact ⟨_, _, _, _, _, _, hr.other hsqe (returned_eq_some hd')⟩
  | create q fuel =>
      obtain ⟨hfresh, hd'⟩ := Option.ite_none_right_eq_some.mp hs
      exact (hr.create_fresh hok.1 hok.2 hfresh (returned_eq_some hd')).1
  | delete fuel =>
      obtain ⟨v', hr'⟩ := hr.deleteIoQueues (returned_eq_some hs)
      exact ⟨_, _, _, _, _, _, hr'⟩
  | reset a => exact absurd hs (by simp [lifeStep])

theorem inv_reachable (h : life.ReachableBy FreshIds d) : Inv d :=
  h.invariant (fun _ => inv_started) fun _ _ _ _ hi hok hs => inv_step hi hok hs

theorem Inv.agree (h : Inv d) : Agree d := by
  obtain ⟨i, c, i', c', v, ids, hr⟩ := h
  exact agree_of_views (hr.hostView.trans hr.simView.symm)

/--
**A creation without**: where the simulator took a completion queue of before, it is in
other memory; where the doorbell is not at 0, the host's new queue is not empty.
-/
theorem Ready.freshPair {v : QueueMgr QueuePlace QueuePlace}
    (h : Ready d i c i' c' v v ids fun q => q ≠ 0 ∧ q ∉ ids) (hq : q.Fits)
    (hfresh : d.Fresh [q.cqMem, q.sqMem]) {fuel : Nat}
    (hs : d.createIoQueuePair q fuel = some (.ok d')) (hagree : Agree d') (hempty : NewPairEmpty d' q) :
    d.FreshPair q := by
  obtain ⟨p, hcreated, _, hready⟩ := h.create hq hfresh hs
  refine ⟨fun hid => ?_, hcreated.tail hempty⟩
  have hmem : p.baseAddress ∈ d.allocated := hcreated.old hid
  have hget : d'.simView.nvmeQueues.get? (q.sqId, q.cqId) = some (some q.simSq.place, some p) := by
    rw [hready.simView]
    exact Dict.get?_set_self _ _ _
  obtain ⟨sq, cq, hpair, _, hcq⟩ := hcreated.hostPair
  unfold GenericNVMeNVSimDevice.simView at hget
  rw [QueueMgr.get?_view] at hget
  obtain ⟨⟨sq', cq'⟩, hsim, hv⟩ := Option.map_eq_some_iff.mp hget
  -- the two completion queues are over the same memory, so the new memory is old
  have hsame := (hagree.queues _ _ _ _ _ hpair hsim).2
  rw [(Prod.mk.inj hv).2, Option.map_some, hcq] at hsame
  have hbase : q.cqMem = p.baseAddress := congrArg QueuePlace.baseAddress (Option.some.inj hsame)
  exact (hfresh.2 q.cqMem List.mem_cons_self).2 (hbase ▸ hmem)

/--
**Host and simulator agree** in every state of a run in which the ids of new pairs are
fresh. And a creation keeps them alike and makes an empty pair exactly if its ids are.

Two things survive a deletion on the simulator's side: the completion queue object, which a
later pair with its id finds first, and the tail in the doorbell, which a new submission queue
with head 0 is compared with.
-/
theorem agree_of_freshIds (d : GenericNVMeNVSimDevice) (h : life.ReachableBy FreshIds d) :
    Agree d ∧ ∀ (q : QueuePair) (fuel : Nat) (d' : GenericNVMeNVSimDevice), q.Fits →
      lifeStep d (.create q fuel) = some d' → (Agree d' ∧ NewPairEmpty d' q ↔ d.FreshPair q) := by
  have hinv := inv_reachable h
  refine ⟨hinv.agree, fun q fuel d' hq hs => ?_⟩
  obtain ⟨i, c, i', c', v, ids, hr⟩ := hinv
  obtain ⟨hfresh, hd'⟩ := Option.ite_none_right_eq_some.mp hs
  have hcreate := returned_eq_some hd'
  constructor
  · exact fun ⟨hagree, hempty⟩ => hr.freshPair hq hfresh hcreate hagree hempty
  · intro hpair
    obtain ⟨hinv', hempty⟩ := hr.create_fresh hq hpair hfresh hcreate
    exact ⟨hinv'.agree, hempty⟩

/-- A pair of queues with four entries each. -/
def pairAt (sqId cqId sqMem cqMem : Nat) : QueuePair where
  cqEntries := 4
  cqId := cqId
  sqEntries := 4
  sqId := sqId
  cqMem := cqMem
  sqMem := sqMem

instance (a : AdminQueues) : Decidable a.Fits :=
  decidable_of_iff ((2 ≤ a.asqEntries ∧ a.asqEntries ≤ 2 ^ 12)
      ∧ (0 < a.acqEntries ∧ a.acqEntries ≤ 2 ^ 12) ∧ a.asqMem < 2 ^ 52 ∧ a.acqMem < 2 ^ 52)
    ⟨fun ⟨h₁, h₂, h₃, h₄⟩ => ⟨h₁, h₂, h₃, h₄⟩, fun ⟨h₁, h₂, h₃, h₄⟩ => ⟨h₁, h₂, h₃, h₄⟩⟩

/-- A submission queue id may come back before its doorbell was rung. -/
theorem agree_of_freshIds_run : ∃ d d', life.ReachableBy FreshIds d ∧ Agree d
    ∧ lifeStep d (.create (pairAt 1 2 0x6000 0x5000) 1) = some d'
    ∧ Agree d' ∧ NewPairEmpty d' (pairAt 1 2 0x6000 0x5000) := by
  have hok : ((blank.reset (fourEntries 0x1000 0x2000)).toOption.bind fun d =>
      (life.runBy FreshIds d [.create (pairAt 1 1 0x4000 0x3000) 1, .check 1, .delete 1]).map
        fun d => ((lifeStep d (.create (pairAt 1 2 0x6000 0x5000) 1)).isSome,
          decide (d.FreshPair (pairAt 1 2 0x6000 0x5000)))) = some (true, true) := by decide +kernel
  obtain ⟨d₀, hd₀, hrun⟩ := Option.bind_eq_some_iff.mp hok
  obtain ⟨d, hd, hnext⟩ := Option.map_eq_some_iff.mp hrun
  obtain ⟨d', hd'⟩ := Option.isSome_iff_exists.mp (congrArg Prod.fst hnext)
  have hpair : d.FreshPair (pairAt 1 2 0x6000 0x5000) := of_decide_eq_true (congrArg Prod.snd hnext)
  have hstarted : Started d₀ :=
    ⟨blank, fourEntries 0x1000 0x2000, init_blank, by decide, toOption_eq_some hd₀⟩
  have hr : life.ReachableBy FreshIds d := (Machine.ReachableBy.init hstarted).run _ hd
  have hagree := agree_of_freshIds d hr
  exact ⟨d, d', hr, hagree.1, hd', (hagree.2 _ _ _ (by decide) hd').mpr hpair⟩

/-- After a deletion the ids come back, and completions go to the memory of the first pair. -/
theorem not_agree_reused : ¬ ∀ (d : GenericNVMeNVSimDevice) (k : Nat × Nat) (sq cq sq' cq' : Nat),
    life.Reachable d → d.host.queueMgr.nvmeQueues.get? k = some (some sq, some cq) →
    d.nvsim.queueMgr.nvmeQueues.get? k = some (some sq', some cq') →
    (d.host.rings.simCq cq').baseAddress = (d.host.rings.hostCq cq).baseAddress := by
  intro hall
  have hok : ((blank.reset (fourEntries 0x1000 0x2000)).toOption.bind fun d =>
      (life.run d [.create (pairAt 1 1 0x4000 0x3000) 1, .delete 1,
        .create (pairAt 1 1 0x6000 0x5000) 1]).map fun d =>
          (d.host.queueMgr.nvmeQueues.get? (1, 1), d.nvsim.queueMgr.nvmeQueues.get? (1, 1),
            (d.host.rings.simCq 1).baseAddress, (d.host.rings.hostCq 2).baseAddress))
      = some (some (some 2, some 2), some (some 2, some 1), 0x3000, 0x5000) := by decide +kernel
  obtain ⟨d₀, hd₀, hrun⟩ := Option.bind_eq_some_iff.mp hok
  obtain ⟨d, hd, hlast⟩ := Option.map_eq_some_iff.mp hrun
  have hstarted : Started d₀ :=
    ⟨blank, fourEntries 0x1000 0x2000, init_blank, by decide, toOption_eq_some hd₀⟩
  have hr : life.Reachable d := (Machine.Reachable.start hstarted).run _ hd
  injection hlast with hhost hlast
  injection hlast with hsim hlast
  injection hlast with hsimCq hhostCq
  have hsame := hall d (1, 1) 2 2 2 1 hr hhost hsim
  rw [hsimCq, hhostCq] at hsame
  exact absurd hsame (by decide)

end GenericNVMeNVSimDevice

end LoneNvme
