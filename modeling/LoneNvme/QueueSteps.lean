import LoneNvme.QueueLife

/-!
# Making and removing queues, step by step

The queue commands as the simulator handles them, and what each step of a call that makes
or deletes queues does to the two managers. `Ready` is what holds between two such steps.

A call that makes a pair allocates, sends a command, allocates again, sends another and then
adds the pair on the host's side. So between its steps the two managers do *not* agree, and
`Ready` says less than agreement: it names what each side shows of its queues, asks that no
command is under way, and that no queue known is one of those made next.
-/

namespace LoneNvme

open Lib

/-! ## The commands -/

namespace QueuePair

variable {q : QueuePair} {id entries : Nat}

/-- Ids with doorbells that are not the admin pair's, sizes a command can carry, contiguous memory. -/
structure Fits (q : QueuePair) : Prop where
  cqId : 0 < q.cqId ∧ q.cqId < 1024
  sqId : 0 < q.sqId ∧ q.sqId < 1024
  cqEntries : 0 < q.cqEntries ∧ q.cqEntries ≤ 2 ^ 16
  sqEntries : 0 < q.sqEntries ∧ q.sqEntries ≤ 2 ^ 16
  cqPc : BitVec.ofNat 1 q.cqPc = 1

instance (q : QueuePair) : Decidable q.Fits :=
  decidable_of_iff ((0 < q.cqId ∧ q.cqId < 1024) ∧ (0 < q.sqId ∧ q.sqId < 1024)
      ∧ (0 < q.cqEntries ∧ q.cqEntries ≤ 2 ^ 16) ∧ (0 < q.sqEntries ∧ q.sqEntries ≤ 2 ^ 16)
      ∧ BitVec.ofNat 1 q.cqPc = 1)
    ⟨fun ⟨h₁, h₂, h₃, h₄, h₅⟩ => ⟨h₁, h₂, h₃, h₄, h₅⟩, fun ⟨h₁, h₂, h₃, h₄, h₅⟩ => ⟨h₁, h₂, h₃, h₄, h₅⟩⟩

/-- The queue objects the simulator should make. -/
def simSq (q : QueuePair) : NVMeSubmissionQueue where
  baseAddress := q.sqMem
  entries := q.sqEntries
  entrySize := 64
  qid := q.sqId

def simCq (q : QueuePair) : NVMeCompletionQueue where
  baseAddress := q.cqMem
  entries := q.cqEntries
  entrySize := 16
  qid := q.cqId

theorem toNat_qid (h : id < 2 ^ 16) : ((dw10 id entries).extractLsb' 0 16).toNat = id := by
  unfold dw10
  rw [BitVec.extractLsb'_append_eq_right, BitVec.toNat_ofNat, Nat.mod_eq_of_lt h]

theorem toNat_qsize (h : 0 < entries ∧ entries ≤ 2 ^ 16) :
    ((dw10 id entries).extractLsb' 16 16).toNat + 1 = entries := by
  unfold dw10
  rw [BitVec.extractLsb'_append_eq_left, BitVec.toNat_ofInt]
  omega

theorem createIocqCmd_PC (q : QueuePair) (cid : BitVec 16) :
    CreateIOCompletionQueue.PC { q.createIocqCmd with CID := cid } = BitVec.ofNat 1 q.cqPc := by
  unfold CreateIOCompletionQueue.PC createIocqCmd
  dsimp only
  rw [BitVec.extractLsb'_append_eq_right]

theorem createIosqCmd_CQID (h : q.cqId < 2 ^ 16) (cid : BitVec 16) :
    (CreateIOSubmissionQueue.CQID { q.createIosqCmd with CID := cid }).toNat = q.cqId := by
  unfold CreateIOSubmissionQueue.CQID createIosqCmd
  dsimp only
  rw [BitVec.extractLsb'_append_eq_of_le (by omega), BitVec.extractLsb'_append_eq_of_le (by omega),
    BitVec.extractLsb'_append_eq_left, BitVec.toNat_ofNat, Nat.mod_eq_of_lt h]

end QueuePair

namespace NVSim

variable {nvsim nvsim' : NVSim} {i c : Nat} {cid : BitVec 16} {sqs : Nat → Prop}

/-- **The completion queue is made**, and the command answered. -/
theorem createIocq_handled {q : QueuePair} (hq : q.Fits) (hmem : q.cqMem < 2 ^ 64)
    (h : adminCmdHandler q.createIocqCmd.OPC nvsim { q.createIocqCmd with CID := cid } i c
      = .ok nvsim') :
    Frame sqs (· = c) (nvsim.newCq q.cqMem q.cqEntries q.cqId) nvsim' := by
  have hpc : CreateIOCompletionQueue.PC { q.createIocqCmd with CID := cid } = 1 :=
    (q.createIocqCmd_PC cid).trans hq.cqPc
  have hbase : (BitVec.ofNat 64 q.cqMem).toNat = q.cqMem := by
    rw [BitVec.toNat_ofNat, Nat.mod_eq_of_lt hmem]
  have hid : ((QueuePair.dw10 q.cqId q.cqEntries).extractLsb' 0 16).toNat = q.cqId :=
    QueuePair.toNat_qid (by have := hq.cqId; omega)
  have hsize : ((QueuePair.dw10 q.cqId q.cqEntries).extractLsb' 16 16).toNat + 1 = q.cqEntries :=
    QueuePair.toNat_qsize hq.cqEntries
  change NVSimCreateIOCompletionQueue nvsim _ i c = _ at h
  unfold NVSimCreateIOCompletionQueue at h
  rw [if_neg (fun hne => hne hpc)] at h
  change (nvsim.newCq (BitVec.ofNat 64 q.cqMem).toNat
    (((QueuePair.dw10 q.cqId q.cqEntries).extractLsb' 16 16).toNat + 1)
    ((QueuePair.dw10 q.cqId q.cqEntries).extractLsb' 0 16).toNat).complete _ _ _ _ = _ at h
  rw [hbase, hid, hsize] at h
  exact complete_frame h

/-- **The submission queue is made** and paired with the first completion queue of the given id. -/
theorem createIosq_handled {q : QueuePair} (hq : q.Fits) (hmem : q.sqMem < 2 ^ 64) {n : Nat}
    {rest : List Nat} (hfound : nvsim.cqsWithId q.cqId = n :: rest)
    (h : adminCmdHandler q.createIosqCmd.OPC nvsim { q.createIosqCmd with CID := cid } i c
      = .ok nvsim') :
    Frame sqs (· = c) { nvsim.newSq q.sqMem q.sqEntries q.sqId with
      queueMgr := nvsim.queueMgr.add q.sqId nvsim.nextSq q.cqId n } nvsim' := by
  have hbase : (BitVec.ofNat 64 q.sqMem).toNat = q.sqMem := by
    rw [BitVec.toNat_ofNat, Nat.mod_eq_of_lt hmem]
  have hid : ((QueuePair.dw10 q.sqId q.sqEntries).extractLsb' 0 16).toNat = q.sqId :=
    QueuePair.toNat_qid (by have := hq.sqId; omega)
  have hsize : ((QueuePair.dw10 q.sqId q.sqEntries).extractLsb' 16 16).toNat + 1 = q.sqEntries :=
    QueuePair.toNat_qsize hq.sqEntries
  have hcqid := QueuePair.createIosqCmd_CQID (q := q) (by have := hq.cqId; omega) cid
  have hn : (nvsim.rings.simCq n).qid = q.cqId := by
    have hmem : n ∈ nvsim.cqsWithId q.cqId := hfound ▸ List.mem_cons_self
    exact of_decide_eq_true (List.mem_filter.mp hmem).2
  -- a new submission queue is no completion queue
  have hkept : ∀ base entries id, (nvsim.newSq base entries id).cqsWithId q.cqId = n :: rest :=
    fun _ _ _ => hfound
  change NVSimCreateIOSubmissionQueue nvsim _ i c = _ at h
  unfold NVSimCreateIOSubmissionQueue at h
  dsimp only at h
  rw [hcqid] at h
  rw [hkept] at h
  change NVSim.complete { nvsim.newSq (BitVec.ofNat 64 q.sqMem).toNat
      (((QueuePair.dw10 q.sqId q.sqEntries).extractLsb' 16 16).toNat + 1)
      ((QueuePair.dw10 q.sqId q.sqEntries).extractLsb' 0 16).toNat with
    queueMgr := nvsim.queueMgr.add ((QueuePair.dw10 q.sqId q.sqEntries).extractLsb' 0 16).toNat
      nvsim.nextSq (nvsim.rings.simCq n).qid n } _ _ _ _ = _ at h
  rw [hbase, hid, hsize, hn] at h
  exact complete_frame h

theorem deleteIosq_handled {qid : Nat} (hqid : qid < 2 ^ 16)
    (h : adminCmdHandler DeleteIOSubmissionQueue.OPC nvsim
      { deleteCmd DeleteIOSubmissionQueue.OPC qid with CID := cid } i c = .ok nvsim') :
    qid ≠ 0 ∧ ∃ queueMgr, nvsim.queueMgr.removeSq qid = .ok queueMgr
      ∧ Frame sqs (· = c) { nvsim with queueMgr } nvsim' := by
  have hid := @toNat_qid_deleteCmd DeleteIOSubmissionQueue.OPC qid hqid
  change NVSimDeleteIOSubmissionQueue nvsim _ i c = _ at h
  unfold NVSimDeleteIOSubmissionQueue DeleteIOSubmissionQueue.QID at h
  rw [hid] at h
  obtain ⟨_, hassert, h⟩ := bind_eq_ok h
  obtain ⟨queueMgr, hremove, h⟩ := bind_eq_ok h
  exact ⟨of_decide_eq_true (assertThat_eq_ok hassert), queueMgr, hremove, complete_frame h⟩

theorem deleteIocq_handled {qid : Nat} (hqid : qid < 2 ^ 16)
    (h : adminCmdHandler DeleteIOCompletionQueue.OPC nvsim
      { deleteCmd DeleteIOCompletionQueue.OPC qid with CID := cid } i c = .ok nvsim') :
    qid ≠ 0 ∧ ∃ queueMgr, nvsim.queueMgr.removeCq qid = .ok queueMgr
      ∧ Frame sqs (· = c) { nvsim with queueMgr } nvsim' := by
  have hid := @toNat_qid_deleteCmd DeleteIOCompletionQueue.OPC qid hqid
  change NVSimDeleteIOCompletionQueue nvsim _ i c = _ at h
  unfold NVSimDeleteIOCompletionQueue DeleteIOCompletionQueue.QID at h
  rw [hid] at h
  obtain ⟨_, hassert, h⟩ := bind_eq_ok h
  obtain ⟨queueMgr, hremove, h⟩ := bind_eq_ok h
  exact ⟨of_decide_eq_true (assertThat_eq_ok hassert), queueMgr, hremove, complete_frame h⟩

end NVSim

namespace GenericNVMeNVSimDevice

variable {d d' : GenericNVMeNVSimDevice} {i c i' c' : Nat}

/-- The ids of all completion queues the simulator made. -/
def cqIds (d : GenericNVMeNVSimDevice) : List Nat :=
  d.nvsim.completionQueues.map fun h => (d.host.rings.simCq h).qid

/-! ## What the steps of a call keep -/

/--
Everything between two calls: the admin queue is idle, both sides look as given, the
simulator made completion queues of the given `ids`, and the ids in `U` are unused.
-/
structure Ready (d : GenericNVMeNVSimDevice) (i c i' c' : Nat)
    (hv sv : QueueMgr QueuePlace QueuePlace) (ids : List Nat) (U : Nat → Prop) : Prop where
  handles : Handles d
  admin : AdminIdle d i c i' c'
  hostView : d.hostView = hv
  simView : d.simView = sv
  cqIds : d.cqIds = ids
  unused : ∀ q, U q → d.Unused q

variable {hv sv : QueueMgr QueuePlace QueuePlace} {ids : List Nat} {U : Nat → Prop}

theorem Quiet.cqIds (h : Quiet d d') : d'.cqIds = d.cqIds := by
  unfold GenericNVMeNVSimDevice.cqIds
  rw [h.completionQueues]
  exact List.map_congr_left fun c _ => congrArg QueuePlace.qid (h.simCq c)

theorem Ready.quiet (h : Ready d i c i' c' hv sv ids U) (hq : Quiet d d')
    (ha : AdminIdle d' i c i' c') : Ready d' i c i' c' hv sv ids U where
  handles := hq.handles h.handles
  admin := ha
  hostView := hq.hostView.trans h.hostView
  simView := hq.simView.trans h.simView
  cqIds := hq.cqIds.trans h.cqIds
  unused q hu := hq.unused (h.unused q hu)

theorem Ready.served (h : Ready d i c i' c' hv sv ids U) (hs : Served d d') :
    Ready d' i c i' c' hv sv ids U := h.quiet hs.quiet (hs.adminIdle h.admin)

theorem Ready.malloc (h : Ready d i c i' c' hv sv ids U) (addr : Nat) :
    Ready (d.malloc addr) i c i' c' hv sv ids U := by
  have hq := quiet_malloc h.handles addr
  exact h.quiet hq (hq.adminIdle h.admin rfl rfl)

/-- An answer posted to the admin completion queue. -/
theorem Ready.completed (h : Ready d i c i' c' hv sv ids U) {nvsim : NVSim}
    (hf : NVSim.Frame (fun _ => False) (· = c') d.nvsim nvsim) :
    Ready (d.withSim nvsim) i c i' c' hv sv ids U := by
  have hq := quiet_frame h.handles hf
  refine h.quiet hq (hq.adminIdle h.admin ?_ ?_)
  · rw [← d.shared]
    exact hf.simSq i' id
  · rw [← d.shared]
    exact congrFun hf.SQTAIL 0

theorem Ready.syncCmd (h : Ready d i c i' c' hv sv ids U) {sqe : Generic} {fuel : Nat}
    (hs : d.syncCmd sqe fuel = some (.ok d')) :
    ∃ d₁ cid nvsim, Fetched d d₁ i' ∧ Ready d₁ i c i' c' hv sv ids U
      ∧ NVSim.adminCmdHandler sqe.OPC d₁.nvsim { sqe with CID := cid } i' c' = .ok nvsim
      ∧ (Handles (d₁.withSim nvsim) → Served (d₁.withSim nvsim) d') := by
  obtain ⟨d₁, cid, nvsim, hfetched, hidle, hhandler, hserved⟩ := syncCmd_spec h.handles h.admin hs
  exact ⟨d₁, cid, nvsim, hfetched, h.quiet hfetched.quiet hidle, hhandler, hserved⟩

/-! ### The simulator makes and removes queues -/

/-- Between two states nothing of the host changed. -/
structure HostSame (d d' : GenericNVMeNVSimDevice) : Prop where
  host : d'.host = { d.host with rings := d'.host.rings }
  numbers : d'.nextSq = d.nextSq ∧ d'.nextCq = d.nextCq ∧ d'.nextCommand = d.nextCommand
  allocated : d'.allocated = d.allocated
  hostSq : d'.host.rings.hostSq = d.host.rings.hostSq
  hostCq : d'.host.rings.hostCq = d.host.rings.hostCq
  SQTAIL : d'.host.rings.SQTAIL = d.host.rings.SQTAIL
  CQHEAD : d'.host.rings.CQHEAD = d.host.rings.CQHEAD

theorem hostSame_withSim {nvsim : NVSim} (hsq : nvsim.rings.hostSq = d.nvsim.rings.hostSq)
    (hcq : nvsim.rings.hostCq = d.nvsim.rings.hostCq) (htail : nvsim.rings.SQTAIL = d.nvsim.rings.SQTAIL)
    (hhead : nvsim.rings.CQHEAD = d.nvsim.rings.CQHEAD) : HostSame d (d.withSim nvsim) := by
  rw [d.shared] at hsq hcq htail hhead
  exact ⟨rfl, ⟨rfl, rfl, rfl⟩, rfl, hsq, hcq, htail, hhead⟩

theorem HostSame.hostView (h : HostSame d d') : d'.hostView = d.hostView := by
  unfold GenericNVMeNVSimDevice.hostView
  rw [h.hostSq, h.hostCq, h.host]

theorem HostSame.inUse (h : HostSame d d') (b : Nat) : d'.InUse b ↔ d.InUse b := by
  unfold InUse
  rw [h.host]

theorem HostSame.unused (h : HostSame d d') {q : Nat} (hq : d.Unused q) : d'.Unused q where
  CQHEAD := by
    rw [h.CQHEAD]
    exact hq.CQHEAD
  qid b hb := by
    rw [h.hostCq]
    exact hq.qid b ((h.inUse b).mp hb)

theorem HostSame.handles (h : HostSame d d') (hd : Handles d)
    (hsqs : ∀ e ∈ d'.nvsim.queueMgr.nvmeQueues.entries, ∀ j, e.2.1 = some j → j < d'.nvsim.nextSq)
    (hcqs : ∀ e ∈ d'.nvsim.queueMgr.nvmeQueues.entries, ∀ b, e.2.2 = some b →
      b < d'.nvsim.nextCq ∧ (d'.host.rings.simCq b).baseAddress ∈ d.allocated)
    (hlist : ∀ b ∈ d'.nvsim.completionQueues,
      b < d'.nvsim.nextCq ∧ (d'.host.rings.simCq b).baseAddress ∈ d.allocated) : Handles d' where
  hostSqs := by
    rw [h.hostSq, h.host, h.numbers.1]
    exact hd.hostSqs
  hostCqs b hb := by
    rw [h.numbers.2.1]
    exact hd.hostCqs b ((h.inUse b).mp hb)
  outstanding := by
    rw [h.host, h.numbers.2.2]
    exact hd.outstanding
  ioSqids := by
    rw [h.host]
    exact hd.ioSqids
  keys := by
    rw [h.host]
    exact hd.keys
  simSqs := hsqs
  simCqs := by
    rw [h.allocated]
    exact hcqs
  completionQueues := by
    rw [h.allocated]
    exact hlist

/-- The admin pair, the simulator's objects of it being the same. -/
theorem HostSame.adminIdle (h : HostSame d d') (ha : AdminIdle d i c i' c')
    (hsim : ((0, 0), (some i', some c')) ∈ d'.nvsim.queueMgr.nvmeQueues.entries)
    (hsq : d'.host.rings.simSq i' = d.host.rings.simSq i') : AdminIdle d' i c i' c' where
  host := by
    rw [h.host]
    exact ha.host
  sim := hsim
  place := by
    rw [h.hostSq, hsq]
    exact ha.place
  qid := by
    rw [h.hostSq]
    exact ha.qid
  head := by
    rw [hsq, h.SQTAIL]
    exact ha.head
  lt := by
    rw [hsq]
    exact ha.lt
  two := by
    rw [hsq]
    exact ha.two
  le := by
    rw [hsq]
    exact ha.le

theorem newCq_self (d : GenericNVMeNVSimDevice) (base entries qid : Nat) :
    (d.withSim (d.nvsim.newCq base entries qid)).host.rings.simCq d.nvsim.nextCq
      = { baseAddress := base, entries, entrySize := 16, qid } := Function.update_self ..

/-- **A new completion queue** of the simulator is in no pair yet. -/
theorem Ready.newCq (h : Ready d i c i' c' hv sv ids U) {base : Nat} (hbase : base ∈ d.allocated)
    (entries qid : Nat) :
    Ready (d.withSim (d.nvsim.newCq base entries qid)) i c i' c' hv sv (ids ++ [qid]) U := by
  have hsame : HostSame d (d.withSim (d.nvsim.newCq base entries qid)) :=
    hostSame_withSim rfl rfl rfl rfl
  -- the number of the new object is beyond all that are in use
  have hold : ∀ b, b < d.nvsim.nextCq →
      (d.withSim (d.nvsim.newCq base entries qid)).host.rings.simCq b = d.host.rings.simCq b := by
    intro b hb
    rw [← d.shared]
    exact Function.update_of_ne (Nat.ne_of_lt hb) _ _
  refine ⟨hsame.handles h.handles h.handles.simSqs (fun e he b hb => ?_) fun b hb => ?_,
    hsame.adminIdle h.admin h.admin.sim ?_, hsame.hostView.trans h.hostView, ?_, ?_,
    fun q hu => hsame.unused (h.unused q hu)⟩
  · have hlt := h.handles.simCqs e he b hb
    rw [hold b hlt.1]
    exact ⟨Nat.lt_succ_of_lt hlt.1, hlt.2⟩
  · rcases List.mem_append.mp hb with hb | hb
    · have hlt := h.handles.completionQueues b hb
      rw [hold b hlt.1]
      exact ⟨Nat.lt_succ_of_lt hlt.1, hlt.2⟩
    · rw [List.mem_singleton.mp hb, newCq_self]
      exact ⟨Nat.lt_succ_self _, hbase⟩
  · rw [← d.shared]
    rfl
  · rw [← h.simView]
    refine QueueMgr.view_congr (fun e he j hj => ?_) fun e he b hb => ?_
    · rw [← d.shared]
      rfl
    · rw [hold b (h.handles.simCqs e he b hb).1]
  · rw [← h.cqIds]
    show ((d.nvsim.completionQueues ++ [d.nvsim.nextCq]).map _) = _
    rw [List.map_append]
    refine congrArg₂ (· ++ ·) (List.map_congr_left fun b hb => ?_) ?_
    · rw [hold b (h.handles.completionQueues b hb).1]
    · show [((d.withSim (d.nvsim.newCq base entries qid)).host.rings.simCq d.nvsim.nextCq).qid] = [qid]
      rw [newCq_self]

/-- **A new submission queue**, paired with a completion queue there is. -/
theorem Ready.newSq (h : Ready d i c i' c' hv sv ids U) (base entries : Nat) {qid : Nat} (cqid : Nat)
    {n : Nat} (hqid : qid ≠ 0) (hn : n < d.nvsim.nextCq)
    (hbase : (d.host.rings.simCq n).baseAddress ∈ d.allocated) :
    Ready (d.withSim { d.nvsim.newSq base entries qid with
        queueMgr := d.nvsim.queueMgr.add qid d.nvsim.nextSq cqid n }) i c i' c' hv
      (sv.add qid ⟨qid, base, entries⟩ cqid (d.host.rings.simCq n).place) ids U := by
  generalize hd' : d.withSim { d.nvsim.newSq base entries qid with
    queueMgr := d.nvsim.queueMgr.add qid d.nvsim.nextSq cqid n } = d'
  have hsame : HostSame d d' := hd' ▸ hostSame_withSim rfl rfl rfl rfl
  -- what the creation changes: one object more, and its place in the manager
  have hold : ∀ j, j < d.nvsim.nextSq → d'.host.rings.simSq j = d.host.rings.simSq j := by
    intro j hj
    rw [← hd', ← d.shared]
    exact Function.update_of_ne (Nat.ne_of_lt hj) _ _
  have hnew : d'.host.rings.simSq d.nvsim.nextSq
      = { baseAddress := base, entries, entrySize := 64, qid } := by
    rw [← hd']
    exact Function.update_self ..
  have hcqs : d'.host.rings.simCq = d.host.rings.simCq := by
    rw [← hd', ← d.shared]
    rfl
  have hqm : d'.nvsim.queueMgr = d.nvsim.queueMgr.add qid d.nvsim.nextSq cqid n := by
    rw [← hd']
    rfl
  have hentries : ∀ {k v}, (k, v) ∈ d'.nvsim.queueMgr.nvmeQueues.entries ↔
      (k = (qid, cqid) ∧ v = (some d.nvsim.nextSq, some n))
        ∨ (k ≠ (qid, cqid) ∧ (k, v) ∈ d.nvsim.queueMgr.nvmeQueues.entries) := by
    intro k v
    rw [hqm]
    exact Dict.mem_entries_set
  have hnextSq : d'.nvsim.nextSq = d.nvsim.nextSq + 1 := by
    rw [← hd']
    rfl
  have hnextCq : d'.nvsim.nextCq = d.nvsim.nextCq := by
    rw [← hd']
    rfl
  have hlist : d'.nvsim.completionQueues = d.nvsim.completionQueues := by
    rw [← hd']
    rfl
  have hlt := h.handles.simSqs _ h.admin.sim i' rfl
  refine ⟨hsame.handles h.handles (fun e he j hj => ?_) (fun e he b hb => ?_) fun b hb => ?_,
    hsame.adminIdle h.admin (hentries.mpr (Or.inr ⟨fun he => hqid (congrArg Prod.fst he).symm,
      h.admin.sim⟩)) (hold i' hlt), hsame.hostView.trans h.hostView, ?_, ?_,
    fun q hu => hsame.unused (h.unused q hu)⟩
  · rw [hnextSq]
    rcases hentries.mp he with ⟨_, hv⟩ | ⟨_, hm⟩
    · rw [hv] at hj
      rw [← Option.some.inj hj]
      exact Nat.lt_succ_self _
    · exact Nat.lt_succ_of_lt (h.handles.simSqs e hm j hj)
  · rw [hnextCq, hcqs]
    rcases hentries.mp he with ⟨_, hv⟩ | ⟨_, hm⟩
    · rw [hv] at hb
      rw [← Option.some.inj hb]
      exact ⟨hn, hbase⟩
    · exact h.handles.simCqs e hm b hb
  · rw [hlist] at hb
    rw [hnextCq, hcqs]
    exact h.handles.completionQueues b hb
  · rw [← h.simView]
    unfold GenericNVMeNVSimDevice.simView
    rw [hqm, QueueMgr.view_add, hcqs, hnew]
    congr 1
    exact QueueMgr.view_congr (fun e he j hj => by rw [hold j (h.handles.simSqs e he j hj)])
      fun _ _ _ _ => rfl
  · rw [← h.cqIds]
    unfold GenericNVMeNVSimDevice.cqIds
    rw [hlist, hcqs]

/-- **The simulator removes a queue.** -/
theorem Ready.simRemoved (h : Ready d i c i' c' hv sv ids U)
    {queueMgr : QueueMgr Nat Nat} (hs : d.nvsim.queueMgr.Shrunk queueMgr) :
    Ready (d.withSim { d.nvsim with queueMgr }) i c i' c' hv
      (queueMgr.view (fun j => (d.host.rings.simSq j).place) fun b => (d.host.rings.simCq b).place)
      ids U := by
  have hsame : HostSame d (d.withSim { d.nvsim with queueMgr }) := hostSame_withSim rfl rfl rfl rfl
  refine ⟨hsame.handles h.handles (fun e he j hj => ?_) (fun e he b hb => ?_) (fun b hb => ?_),
    hsame.adminIdle h.admin (hs.admin _ _ h.admin.sim) ?_,
    hsame.hostView.trans h.hostView, ?_, ?_, fun q hu => hsame.unused (h.unused q hu)⟩
  · obtain ⟨e', he', _, hsq, _⟩ := hs.entries e he
    exact h.handles.simSqs e' he' j (hsq j hj)
  · obtain ⟨e', he', _, _, hcq⟩ := hs.entries e he
    have hlt := h.handles.simCqs e' he' b (hcq b hb)
    rw [← d.shared] at hlt
    exact hlt
  · have hlt := h.handles.completionQueues b hb
    rw [← d.shared] at hlt
    exact hlt
  · rw [← d.shared]
    rfl
  · rw [← d.shared]
    rfl
  · rw [← h.cqIds, GenericNVMeNVSimDevice.cqIds, GenericNVMeNVSimDevice.cqIds, ← d.shared]
    rfl

/-! ### The host makes and removes queues -/

/-- What a new pair changes: the host has two more queue objects, under a new key. -/
structure PairAdded (d d' : GenericNVMeNVSimDevice) (sq : NVMeSubmissionQueue)
    (cq : NVMeCompletionQueue) : Prop where
  queueMgr : d'.host.queueMgr = d.host.queueMgr.add sq.qid d.nextSq cq.qid d.nextCq
  outstanding : d'.host.outstandingCommands = d.host.outstandingCommands
  commands : d'.host.commands = d.host.commands
  nextCommand : d'.nextCommand = d.nextCommand
  nextSq : d'.nextSq = d.nextSq + 1
  nextCq : d'.nextCq = d.nextCq + 1
  newSq : d'.host.rings.hostSq d.nextSq = sq
  newCq : d'.host.rings.hostCq d.nextCq = cq
  oldSq : ∀ j, j < d.nextSq → d'.host.rings.hostSq j = d.host.rings.hostSq j
  oldCq : ∀ b, b < d.nextCq → d'.host.rings.hostCq b = d.host.rings.hostCq b
  SQTAIL : d'.host.rings.SQTAIL = d.host.rings.SQTAIL
  CQHEAD : d'.host.rings.CQHEAD = d.host.rings.CQHEAD
  simSq : d'.host.rings.simSq = d.host.rings.simSq
  simCq : d'.host.rings.simCq = d.host.rings.simCq
  simQueueMgr : d'.nvsim.queueMgr = d.nvsim.queueMgr
  simNextSq : d'.nvsim.nextSq = d.nvsim.nextSq
  simNextCq : d'.nvsim.nextCq = d.nvsim.nextCq
  completionQueues : d'.nvsim.completionQueues = d.nvsim.completionQueues
  allocated : d'.allocated = d.allocated

theorem pairAdded (d : GenericNVMeNVSimDevice) (sq : NVMeSubmissionQueue)
    (cq : NVMeCompletionQueue) : PairAdded d (d.addPair sq cq) sq cq where
  queueMgr := rfl
  outstanding := rfl
  commands := rfl
  nextCommand := rfl
  nextSq := rfl
  nextCq := rfl
  newSq := Function.update_self ..
  newCq := Function.update_self ..
  oldSq _ hj := Function.update_of_ne (Nat.ne_of_lt hj) _ _
  oldCq _ hb := Function.update_of_ne (Nat.ne_of_lt hb) _ _
  SQTAIL := rfl
  CQHEAD := rfl
  simSq := rfl
  simCq := rfl
  simQueueMgr := rfl
  simNextSq := rfl
  simNextCq := rfl
  completionQueues := rfl
  allocated := rfl

namespace PairAdded

variable {sq : NVMeSubmissionQueue} {cq : NVMeCompletionQueue}

/-- The entries are the new one, and those under other keys. -/
theorem mem_entries (ha : PairAdded d d' sq cq) {k : Nat × Nat} {v : Option Nat × Option Nat} :
    (k, v) ∈ d'.host.queueMgr.nvmeQueues.entries ↔
      (k = (sq.qid, cq.qid) ∧ v = (some d.nextSq, some d.nextCq))
        ∨ (k ≠ (sq.qid, cq.qid) ∧ (k, v) ∈ d.host.queueMgr.nvmeQueues.entries) := by
  rw [ha.queueMgr]
  exact Dict.mem_entries_set

theorem inUse (ha : PairAdded d d' sq cq) {b : Nat} (h : d'.InUse b) :
    b = d.nextCq ∨ d.InUse b := by
  rcases h with ⟨e, he, hb⟩ | ⟨e, he, hb⟩
  · rcases ha.mem_entries.mp he with ⟨_, hv⟩ | ⟨_, hm⟩
    · rw [hv] at hb
      exact Or.inl (Option.some.inj hb).symm
    · exact Or.inr (Or.inl ⟨e, hm, hb⟩)
  · rw [ha.outstanding] at he
    rw [ha.commands] at hb
    exact Or.inr (Or.inr ⟨e, he, hb⟩)

theorem handles (ha : PairAdded d d' sq cq) (h : Handles d) (hsq : 0 < sq.qid ∧ sq.qid < 1024)
    (hcq : cq.qid < 1024) : Handles d' := by
  refine ⟨fun e he j hj => ?_, fun b hb => ?_, ?_, fun id hid => ?_, fun k hk => ?_, ?_, ?_, ?_⟩
  · rw [ha.nextSq]
    -- the new pair has the next handle, the others keep theirs
    rcases ha.mem_entries.mp he with ⟨hk, hv⟩ | ⟨_, hm⟩
    · rw [hv] at hj
      rw [← Option.some.inj hj, ha.newSq, hk]
      exact ⟨Nat.lt_succ_self _, rfl⟩
    · have hold := h.hostSqs e hm j hj
      rw [ha.oldSq j hold.1]
      exact ⟨Nat.lt_succ_of_lt hold.1, hold.2⟩
  · rw [ha.nextCq]
    rcases ha.inUse hb with rfl | hb
    · exact Nat.lt_succ_self _
    · exact Nat.lt_succ_of_lt (h.hostCqs b hb)
  · rw [ha.outstanding, ha.nextCommand]
    exact h.outstanding
  · rw [ha.queueMgr] at hid
    obtain ⟨k, hk, rfl⟩ := List.mem_map.mp hid
    have hio := (List.mem_filter.mp hk).2
    exact fun h0 => by simp [h0] at hio
  · rw [ha.queueMgr] at hk
    rcases Dict.mem_keys_set.mp hk with rfl | hk
    · exact ⟨hsq.2, hcq⟩
    · exact h.keys k hk
  · rw [ha.simQueueMgr, ha.simNextSq]
    exact h.simSqs
  · rw [ha.simQueueMgr, ha.simNextCq, ha.simCq, ha.allocated]
    exact h.simCqs
  · rw [ha.completionQueues, ha.simNextCq, ha.simCq, ha.allocated]
    exact h.completionQueues

/-- The admin pair was there before, so nothing of it changes. -/
theorem adminIdle (ha : PairAdded d d' sq cq) (h : Handles d) (hadmin : AdminIdle d i c i' c')
    (hsq : 0 < sq.qid) : AdminIdle d' i c i' c' := by
  have hold := ha.oldSq i (h.hostSqs _ hadmin.host i rfl).1
  have hkey : ((0, 0) : Nat × Nat) ≠ (sq.qid, cq.qid) := fun he =>
    absurd (congrArg Prod.fst he) (Nat.ne_of_lt hsq)
  refine ⟨ha.mem_entries.mpr (Or.inr ⟨hkey, hadmin.host⟩), ?_, ?_, ?_, ?_, ?_, ?_, ?_⟩
  · rw [ha.simQueueMgr]
    exact hadmin.sim
  · rw [hold, ha.simSq]
    exact hadmin.place
  · rw [hold]
    exact hadmin.qid
  · rw [ha.simSq, ha.SQTAIL]
    exact hadmin.head
  · rw [ha.simSq]
    exact hadmin.lt
  · rw [ha.simSq]
    exact hadmin.two
  · rw [ha.simSq]
    exact hadmin.le

theorem hostView (ha : PairAdded d d' sq cq) (h : Handles d) :
    d'.hostView = d.hostView.add sq.qid sq.place cq.qid cq.place := by
  unfold GenericNVMeNVSimDevice.hostView
  rw [ha.queueMgr, QueueMgr.view_add, ha.newSq, ha.newCq]
  congr 1
  exact QueueMgr.view_congr (fun e he j hj => by rw [ha.oldSq j (h.hostSqs e he j hj).1])
    fun e he b hb => by rw [ha.oldCq b (h.hostCqs b (Or.inl ⟨e, he, hb⟩))]

theorem simView (ha : PairAdded d d' sq cq) : d'.simView = d.simView := by
  unfold GenericNVMeNVSimDevice.simView
  rw [ha.simQueueMgr, ha.simSq, ha.simCq]

theorem cqIds (ha : PairAdded d d' sq cq) : d'.cqIds = d.cqIds := by
  unfold GenericNVMeNVSimDevice.cqIds
  rw [ha.completionQueues, ha.simCq]

/-- Another id than the pair's stays unused. -/
theorem unused (ha : PairAdded d d' sq cq) (h : Handles d) {q : Nat} (hq : d.Unused q)
    (hne : q ≠ cq.qid) : d'.Unused q := by
  refine ⟨?_, fun b hb => ?_⟩
  · rw [ha.CQHEAD]
    exact hq.CQHEAD
  · rcases ha.inUse hb with rfl | hb
    · rw [ha.newCq]
      exact hne.symm
    · rw [ha.oldCq b (h.hostCqs b hb)]
      exact hq.qid b hb

end PairAdded

/-- **A new pair** of the host. -/
theorem Ready.addPair (h : Ready d i c i' c' hv sv ids U) {sq : NVMeSubmissionQueue}
    {cq : NVMeCompletionQueue} (hsq : 0 < sq.qid ∧ sq.qid < 1024) (hcq : 0 < cq.qid ∧ cq.qid < 1024) :
    Ready (d.addPair sq cq) i c i' c' (hv.add sq.qid sq.place cq.qid cq.place) sv ids
      (fun q => U q ∧ q ≠ cq.qid) := by
  have ha := pairAdded d sq cq
  exact
    { handles := ha.handles h.handles hsq hcq.2
      admin := ha.adminIdle h.handles h.admin hsq.1
      hostView := by rw [ha.hostView h.handles, h.hostView]
      simView := ha.simView.trans h.simView
      cqIds := ha.cqIds.trans h.cqIds
      unused := fun q hq => ha.unused h.handles (h.unused q hq.1) hq.2 }

/-- **The host removes a queue.** -/
theorem Ready.hostRemoved (h : Ready d i c i' c' hv sv ids U) {queueMgr : QueueMgr Nat Nat}
    (hs : d.host.queueMgr.Shrunk queueMgr) :
    Ready (d.withHost { d.host with queueMgr }) i c i' c'
      (queueMgr.view (fun j => (d.host.rings.hostSq j).place) fun b => (d.host.rings.hostCq b).place)
      sv ids U := by
  have hinUse : ∀ b, (d.withHost { d.host with queueMgr }).InUse b → d.InUse b := by
    rintro b (⟨e, he, hb⟩ | hout)
    · obtain ⟨e', he', _, _, hcq⟩ := hs.entries e he
      exact Or.inl ⟨e', he', hcq b hb⟩
    · exact Or.inr hout
  refine ⟨⟨fun e he j hj => ?_, fun b hb => h.handles.hostCqs b (hinUse b hb), h.handles.outstanding,
      fun id hid => h.handles.ioSqids id (hs.ioSqids id hid), fun k hk => ?_, h.handles.simSqs,
      h.handles.simCqs, h.handles.completionQueues⟩,
    ⟨hs.admin _ _ h.admin.host, h.admin.sim, h.admin.place, h.admin.qid, h.admin.head, h.admin.lt,
      h.admin.two, h.admin.le⟩, rfl, h.simView, h.cqIds,
    fun q hq => ⟨(h.unused q hq).CQHEAD, fun b hb => (h.unused q hq).qid b (hinUse b hb)⟩⟩
  · obtain ⟨e', he', hk, hsq, _⟩ := hs.entries e he
    rw [← hk]
    exact h.handles.hostSqs e' he' j (hsq j hj)
  · obtain ⟨v, hm⟩ := Dict.mem_keys.mp hk
    obtain ⟨⟨k', v'⟩, he', rfl, _⟩ := hs.entries _ hm
    exact h.handles.keys _ (Dict.mem_keys.mpr ⟨v', he'⟩)

end GenericNVMeNVSimDevice

end LoneNvme
