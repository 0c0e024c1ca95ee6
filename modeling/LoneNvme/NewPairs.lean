import LoneNvme.QueueSteps

/-!
# A new pair of queues

`create_io_queue_pair` has the simulator make a completion queue and then a submission
queue, which gets the *first* completion queue with the id that it finds. Where that is the
new one, and the tail doorbell of the submission queue is at 0, nothing is in the new pair
and nothing gets there before the host has it: it is `Pristine`.

Both conditions are about what earlier pairs have left behind: the simulator never takes a
completion queue out of its list when it is deleted, and a tail doorbell keeps its value. So
they hold for an id that was never in use, and may fail for one that was.
-/

namespace LoneNvme

open Lib

namespace GenericNVMeNVSimDevice

variable {d d' : GenericNVMeNVSimDevice} {i c i' c' n : Nat} {q : QueuePair}
variable {hv sv : QueueMgr QueuePlace QueuePlace} {ids : List Nat} {U : Nat → Prop}

/--
The simulator's new queues of the pair `q` as made: completion queue `n` with nothing in
it, and if it is in a pair, then with the submission queue as made. No other queue posts there.
-/
structure Pristine (d : GenericNVMeNVSimDevice) (q : QueuePair) (n : Nat) : Prop where
  simCq : d.host.rings.simCq n = q.simCq
  phase : (d.host.rings.cqRing q.cqMem 0).SF.P = 0
  tail : d.host.rings.SQTAIL q.sqId = 0
  apart : ∀ e ∈ d.nvsim.queueMgr.nvmeQueues.entries, ∀ b, e.2.2 = some b →
    (b ≠ n ∧ (d.host.rings.simCq b).baseAddress ≠ q.cqMem)
      ∨ ∃ j, e.2.1 = some j ∧ d.host.rings.simSq j = q.simSq

namespace Pristine

/-- The new submission queue is empty. -/
theorem numEntries (h : Pristine d q n) (hq : q.Fits) {j : Nat} (hj : d.host.rings.simSq j = q.simSq) :
    d.nvsim.numEntries j = 0 := by
  unfold NVSim.numEntries
  dsimp only
  rw [d.shared, hj]
  show NVMeQueue.numEntries q.sqEntries 0 (d.host.rings.SQTAIL q.sqId) = 0
  rw [h.tail]
  exact NVMeQueue.numEntries_self hq.sqEntries.1

/-- So nobody busy posts to the new completion queue. -/
theorem apart_of_busy (h : Pristine d q n) (hq : q.Fits) {j b : Nat} (hb : d.Busy j b) :
    b ≠ n ∧ (d.host.rings.simCq b).baseAddress ≠ q.cqMem := by
  obtain ⟨hpos, e, he, hv⟩ := hb
  rcases h.apart e he b (by rw [hv]) with hne | ⟨j', hj', hsq⟩
  · exact hne
  · rw [hv] at hj'
    rw [Option.some.inj hj', h.numEntries hq hsq] at hpos
    exact absurd hpos (by omega)

theorem served (h : Pristine d q n) (hq : q.Fits) (hs : Served d d') : Pristine d' q n where
  simCq := (hs.simCq n fun j hb => (h.apart_of_busy hq hb).1 rfl).trans h.simCq
  phase := by
    rw [hs.cqRing q.cqMem fun j b hb => (h.apart_of_busy hq hb).2]
    exact h.phase
  tail := (congrFun hs.SQTAIL q.sqId).trans h.tail
  apart e he b hb := by
    rw [hs.quiet.simQueues] at he
    have hbase : (d'.host.rings.simCq b).baseAddress = (d.host.rings.simCq b).baseAddress :=
      congrArg QueuePlace.baseAddress (hs.quiet.simCq b)
    rw [hbase]
    refine (h.apart e he b hb).imp id fun ⟨j, hj, hsq⟩ => ⟨j, hj, ?_⟩
    rw [hs.simSq j fun hpos => absurd hpos (by rw [h.numEntries hq hsq]; omega)]
    exact hsq

/-- The admin queues are others. -/
theorem apart_admin (h : Pristine d q n) (hq : q.Fits) (ha : AdminIdle d i c i' c') :
    c' ≠ n ∧ (d.host.rings.simCq c').baseAddress ≠ q.cqMem := by
  rcases h.apart _ ha.sim c' rfl with hne | ⟨j, hj, hsq⟩
  · exact hne
  · have hqid := ha.simQid
    rw [Option.some.inj hj, hsq] at hqid
    exact absurd hqid (Nat.ne_of_gt hq.sqId.1)

theorem fetched (h : Pristine d q n) (hq : q.Fits) (ha : AdminIdle d i c i' c')
    (hf : Fetched d d' i') : Pristine d' q n where
  simCq := (congrFun hf.simCq n).trans h.simCq
  phase := by
    rw [hf.cqRing]
    exact h.phase
  tail := (hf.SQTAIL q.sqId (Nat.ne_of_gt hq.sqId.1)).trans h.tail
  apart e he b hb := by
    rw [hf.quiet.simQueues] at he
    rw [hf.simCq]
    refine (h.apart e he b hb).imp id fun ⟨j, hj, hsq⟩ => ⟨j, hj, ?_⟩
    refine (hf.simSq j fun hji => ?_).trans hsq
    have hqid := ha.simQid
    rw [← hji, hsq] at hqid
    exact Nat.ne_of_gt hq.sqId.1 hqid

theorem completed (h : Pristine d q n) (hq : q.Fits) (ha : AdminIdle d i c i' c') {nvsim : NVSim}
    (hf : NVSim.Frame (fun _ => False) (· = c') d.nvsim nvsim) : Pristine (d.withSim nvsim) q n := by
  have hapart := h.apart_admin hq ha
  have hcq := hf.simCq n fun he => hapart.1 he.symm
  have hring := hf.cqRing q.cqMem fun b hb => by
    rw [hb, d.shared]
    exact hapart.2
  have htail := congrFun hf.SQTAIL q.sqId
  rw [d.shared] at hcq hring htail
  refine ⟨hcq.trans h.simCq, ?_, htail.trans h.tail, fun e he b hb => ?_⟩
  · show (nvsim.rings.cqRing q.cqMem 0).SF.P = 0
    rw [hring]
    exact h.phase
  · have he : e ∈ d.nvsim.queueMgr.nvmeQueues.entries := hf.queueMgr ▸ he
    have hplace := hf.cqPlace b
    rw [d.shared] at hplace
    have hbase : (nvsim.rings.simCq b).baseAddress = (d.host.rings.simCq b).baseAddress :=
      congrArg QueuePlace.baseAddress hplace
    refine (h.apart e he b hb).imp (fun hne => ⟨hne.1, fun he => hne.2 (hbase.symm.trans he)⟩)
      fun ⟨j, hj, hsq⟩ => ⟨j, hj, ?_⟩
    have hsame := hf.simSq j id
    rw [d.shared] at hsame
    exact hsame.trans hsq

theorem malloc (h : Pristine d q n) {addr : Nat} (haddr : addr ≠ q.cqMem) :
    Pristine (d.malloc addr) q n where
  simCq := h.simCq
  phase := by
    show (Function.update d.host.rings.cqRing addr _ q.cqMem 0).SF.P = 0
    rw [Function.update_of_ne haddr.symm]
    exact h.phase
  tail := h.tail
  apart := h.apart

end Pristine

/-- `check_mem_access` leaves the phase bits. -/
theorem checkCqAccess_P (r : Rings) (base entries slot : Nat) :
    ((r.checkCqAccess base entries).cqRing base slot).SF.P = (r.cqRing base slot).SF.P := by
  unfold Rings.checkCqAccess
  dsimp only
  have hfirst : ∀ s, (Function.update (r.cqRing base) 0 { r.cqRing base 0 with
      CMD_SPEC := (r.cqRing base 0).CMD_SPEC ||| 0xFF } s).SF.P = (r.cqRing base s).SF.P := by
    intro s
    by_cases hs : s = 0
    · rw [hs, Function.update_self]
    · rw [Function.update_of_ne hs]
  rw [Function.update_self]
  by_cases hs : slot = entries - 1
  · rw [hs, Function.update_self]
    exact hfirst _
  · rw [Function.update_of_ne hs]
    exact hfirst slot

/-- The simulator's new completion queue, in new memory. -/
theorem pristine_newCq (hd : Handles d) (hring : (d.host.rings.cqRing q.cqMem 0).SF.P = 0)
    (htail : d.host.rings.SQTAIL q.sqId = 0)
    (hmem : ∀ e ∈ d.nvsim.queueMgr.nvmeQueues.entries, ∀ b, e.2.2 = some b →
      (d.host.rings.simCq b).baseAddress ≠ q.cqMem) :
    Pristine (d.withSim (d.nvsim.newCq q.cqMem q.cqEntries q.cqId)) q d.nvsim.nextCq where
  simCq := newCq_self d _ _ _
  phase := by
    show ((d.nvsim.rings.checkCqAccess q.cqMem q.cqEntries).cqRing q.cqMem 0).SF.P = 0
    rw [checkCqAccess_P, d.shared]
    exact hring
  tail := by
    rw [← d.shared] at htail
    exact htail
  apart e he b hb := by
    have hlt := Nat.ne_of_lt (hd.simCqs e he b hb).1
    refine Or.inl ⟨hlt, ?_⟩
    show (Function.update d.nvsim.rings.simCq d.nvsim.nextCq _ b).baseAddress ≠ _
    rw [Function.update_of_ne hlt, d.shared]
    exact hmem e he b hb

theorem Quiet.cqsWithId (h : Quiet d d') (x : Nat) : d'.nvsim.cqsWithId x = d.nvsim.cqsWithId x := by
  unfold NVSim.cqsWithId
  rw [h.completionQueues]
  refine List.filter_congr fun b _ => ?_
  have hqid : (d'.host.rings.simCq b).qid = (d.host.rings.simCq b).qid :=
    congrArg QueuePlace.qid (h.simCq b)
  rw [d'.shared, d.shared, hqid]

/-- The new completion queue comes last. -/
theorem cqsWithId_newCq (hd : Handles d) (base entries qid : Nat) :
    (d.nvsim.newCq base entries qid).cqsWithId qid = d.nvsim.cqsWithId qid ++ [d.nvsim.nextCq] := by
  have hself : ((d.nvsim.newCq base entries qid).rings.simCq d.nvsim.nextCq).qid = qid :=
    congrArg NVMeCompletionQueue.qid (newCq_self d base entries qid)
  show (d.nvsim.completionQueues ++ [d.nvsim.nextCq]).filter _ = _
  rw [List.filter_append, List.filter_cons_of_pos (by simpa using hself), List.filter_nil]
  refine congrArg (· ++ [d.nvsim.nextCq]) (List.filter_congr fun b hb => ?_)
  rw [NVSim.newCq_simCq _ _ _ (hd.completionQueues b hb).1]

theorem mem_cqsWithId {x b : Nat} (h : b ∈ d.nvsim.cqsWithId x) :
    b ∈ d.nvsim.completionQueues ∧ (d.host.rings.simCq b).qid = x := by
  obtain ⟨hb, hqid⟩ := List.mem_filter.mp h
  rw [← d.shared]
  exact ⟨hb, of_decide_eq_true hqid⟩

theorem mem_cqIds {x : Nat} : x ∈ d.cqIds ↔ ∃ b, b ∈ d.nvsim.cqsWithId x := by
  constructor
  · intro h
    obtain ⟨b, hb, hqid⟩ := List.mem_map.mp h
    refine ⟨b, List.mem_filter.mpr ⟨hb, ?_⟩⟩
    rw [d.shared]
    exact decide_eq_true hqid
  · rintro ⟨b, hb⟩
    obtain ⟨hb, hqid⟩ := mem_cqsWithId hb
    rw [← hqid]
    exact List.mem_map_of_mem hb

/-- The first queue with an id is the one made last only if there was none before. -/
theorem first_cqWithId {x : Nat} (hfind : d'.nvsim.cqsWithId x = d.nvsim.cqsWithId x ++ [n]) :
    ∃ m rest, d'.nvsim.cqsWithId x = m :: rest ∧ (x ∉ d.cqIds → m = n)
      ∧ (x ∈ d.cqIds → m ∈ d.nvsim.completionQueues) := by
  rw [hfind]
  cases hold : d.nvsim.cqsWithId x with
  | nil =>
      refine ⟨n, [], rfl, fun _ => rfl, fun h => ?_⟩
      obtain ⟨b, hb⟩ := mem_cqIds.mp h
      rw [hold] at hb
      exact absurd hb List.not_mem_nil
  | cons m rest =>
      have hm : m ∈ d.nvsim.cqsWithId x := hold ▸ List.mem_cons_self
      exact ⟨m, rest ++ [n], rfl, fun h => absurd (mem_cqIds.mpr ⟨m, hm⟩) h,
        fun _ => (mem_cqsWithId hm).1⟩

/--
**What the first half of a creation leaves.** The simulator made its completion queue `n`;
`m` is the one that a submission queue of the pair would get.
-/
structure CqMade (d d' : GenericNVMeNVSimDevice) (q : QueuePair) (n m : Nat) : Prop where
  found : ∃ rest, d'.nvsim.cqsWithId q.cqId = m :: rest
  memory : m < d'.nvsim.nextCq ∧ (d'.host.rings.simCq m).baseAddress ∈ d'.allocated
  tail : d'.host.rings.SQTAIL q.sqId = d.host.rings.SQTAIL q.sqId
  pristine : d.host.rings.SQTAIL q.sqId = 0 → Pristine d' q n
  new : q.cqId ∉ d.cqIds → m = n
  /-- An older one has other memory. -/
  old : q.cqId ∈ d.cqIds → (d'.host.rings.simCq m).baseAddress ∈ d.allocated

theorem Ready.createIocq (h : Ready d i c i' c' hv sv ids U) (hq : q.Fits) (hlt : q.cqMem < 2 ^ 64)
    (hfresh : q.cqMem ∉ d.allocated) {fuel : Nat}
    (hs : (d.malloc q.cqMem).syncCmd q.createIocqCmd fuel = some (.ok d')) :
    ∃ n m, Ready d' i c i' c' hv sv (ids ++ [q.cqId]) U ∧ CqMade d d' q n m := by
  have hmalloc := h.malloc q.cqMem
  obtain ⟨d₁, cid, nvsim, hfetched, h₁, hhandler, hserved⟩ := hmalloc.syncCmd hs
  have hquiet := (quiet_malloc h.handles q.cqMem).trans hfetched.quiet
  have hmade := h₁.newCq (hfetched.quiet.allocated _ List.mem_cons_self) q.cqEntries q.cqId
  have hframe : NVSim.Frame (fun _ => False) (· = c') _ nvsim :=
    NVSim.createIocq_handled hq hlt hhandler
  have hanswer := quiet_frame hmade.handles hframe
  have hdone : Ready (d₁.withSim nvsim) i c i' c' hv sv (ids ++ [q.cqId]) U := hmade.completed hframe
  have hserved := hserved hdone.handles
  -- the state with the new completion queue, up to what is quiet
  generalize hd₂ : d₁.withSim (d₁.nvsim.newCq q.cqMem q.cqEntries q.cqId) = d₂ at hmade hanswer
  have hsim : d₁.nvsim.newCq q.cqMem q.cqEntries q.cqId = d₂.nvsim := by
    rw [← hd₂]
    rfl
  have hsame : d₂.withSim nvsim = d₁.withSim nvsim := by
    rw [← hd₂]
    rfl
  rw [hsim] at hframe
  rw [hsame] at hanswer
  have hlast : Quiet d₂ d' := hanswer.trans hserved.quiet
  have hfind : d'.nvsim.cqsWithId q.cqId = d.nvsim.cqsWithId q.cqId ++ [d₁.nvsim.nextCq] := by
    rw [hlast.cqsWithId, ← hsim, cqsWithId_newCq h₁.handles, hquiet.cqsWithId]
  have htail : d'.host.rings.SQTAIL q.sqId = d.host.rings.SQTAIL q.sqId := by
    rw [hserved.SQTAIL]
    show nvsim.rings.SQTAIL q.sqId = _
    rw [hframe.SQTAIL, ← hsim]
    show d₁.nvsim.rings.SQTAIL q.sqId = _
    rw [d₁.shared]
    exact hfetched.SQTAIL q.sqId (Nat.ne_of_gt hq.sqId.1)
  have hpristine : d.host.rings.SQTAIL q.sqId = 0 → Pristine d' q d₁.nvsim.nextCq := by
    intro h0
    have hp₂ : Pristine d₂ q d₁.nvsim.nextCq := by
      rw [← hd₂]
      refine pristine_newCq h₁.handles ?_ ?_ fun e he b hb => ?_
      · rw [hfetched.cqRing]
        show (Function.update d.host.rings.cqRing q.cqMem (fun _ => {}) q.cqMem 0).SF.P = 0
        rw [Function.update_self]
      · rw [hfetched.SQTAIL q.sqId (Nat.ne_of_gt hq.sqId.1)]
        exact h0
      · rw [hquiet.simQueues] at he
        have hbase : (d₁.host.rings.simCq b).baseAddress = (d.host.rings.simCq b).baseAddress :=
          congrArg QueuePlace.baseAddress (hquiet.simCq b)
        rw [hbase]
        exact fun hmem => hfresh (hmem ▸ (h.handles.simCqs e he b hb).2)
    have hp₃ := hp₂.completed hq hmade.admin hframe
    rw [hsame] at hp₃
    exact hp₃.served hq hserved
  have hready := hdone.served hserved
  obtain ⟨m, rest, hm, hnew, hold⟩ := first_cqWithId hfind
  have hmem := mem_cqsWithId (hm ▸ List.mem_cons_self)
  refine ⟨d₁.nvsim.nextCq, m, hready, ⟨rest, hm⟩, hready.handles.completionQueues m hmem.1, htail,
    hpristine, hnew, fun hid => ?_⟩
  -- an older one is where it was
  have hlt' := h.handles.completionQueues m (hold hid)
  have hne : m ≠ d₁.nvsim.nextCq := by
    rw [hquiet.simNextCq]
    exact Nat.ne_of_lt hlt'.1
  have hplace : (d₂.host.rings.simCq m).place = (d.host.rings.simCq m).place := by
    rw [← hquiet.simCq m, ← d₁.shared, ← hd₂]
    exact congrArg NVMeCompletionQueue.place (Function.update_of_ne hne _ _)
  have hbase : (d'.host.rings.simCq m).baseAddress = (d.host.rings.simCq m).baseAddress :=
    congrArg QueuePlace.baseAddress ((hlast.simCq m).trans hplace)
  rw [hbase]
  exact hlt'.2

/-- The new submission queue, in a pair with the new completion queue. -/
theorem Pristine.newSq (h : Pristine d q n) (hd : Handles d) :
    Pristine (d.withSim { d.nvsim.newSq q.sqMem q.sqEntries q.sqId with
      queueMgr := d.nvsim.queueMgr.add q.sqId d.nvsim.nextSq q.cqId n }) q n where
  simCq := by
    rw [← h.simCq, ← d.shared]
    rfl
  phase := by
    rw [← h.phase, ← d.shared]
    rfl
  tail := by
    rw [← h.tail, ← d.shared]
    rfl
  apart e he b hb := by
    rcases Dict.mem_entries_set.mp he with ⟨_, hv⟩ | ⟨_, hold⟩
    · exact Or.inr ⟨d.nvsim.nextSq, by rw [hv], Function.update_self ..⟩
    · rcases h.apart e hold b hb with hne | ⟨j, hj, hsq⟩
      · rw [← d.shared] at hne
        exact Or.inl hne
      · refine Or.inr ⟨j, hj, ?_⟩
        rw [← d.shared] at hsq
        exact (Function.update_of_ne (Nat.ne_of_lt (hd.simSqs e hold j hj)) _ _).trans hsq

/-- **What the second half leaves**: the simulator's pair of the new queue `j` and of `m`. -/
structure SqMade (d d' : GenericNVMeNVSimDevice) (q : QueuePair) (m j : Nat) : Prop where
  pair : ((q.sqId, q.cqId), (some j, some m)) ∈ d'.nvsim.queueMgr.nvmeQueues.entries
  tail : d'.host.rings.SQTAIL q.sqId = d.host.rings.SQTAIL q.sqId
  pristine : Pristine d q m → Pristine d' q m ∧ d'.host.rings.simSq j = q.simSq

theorem Ready.createIosq (h : Ready d i c i' c' hv sv ids U) (hq : q.Fits) (hlt : q.sqMem < 2 ^ 64)
    (hmem : q.sqMem ≠ q.cqMem) {m : Nat} {rest : List Nat} (hfound : d.nvsim.cqsWithId q.cqId = m :: rest)
    (hm : m < d.nvsim.nextCq ∧ (d.host.rings.simCq m).baseAddress ∈ d.allocated) {fuel : Nat}
    (hs : (d.malloc q.sqMem).syncCmd q.createIosqCmd fuel = some (.ok d')) :
    ∃ j, Ready d' i c i' c' hv (sv.add q.sqId q.simSq.place q.cqId (d.host.rings.simCq m).place) ids U
      ∧ SqMade d d' q m j := by
  have hmalloc := h.malloc q.sqMem
  obtain ⟨d₁, cid, nvsim, hfetched, h₁, hhandler, hserved⟩ := hmalloc.syncCmd hs
  have hquiet := (quiet_malloc h.handles q.sqMem).trans hfetched.quiet
  have hframe : NVSim.Frame (fun _ => False) (· = c') _ nvsim :=
    NVSim.createIosq_handled hq hlt ((hquiet.cqsWithId q.cqId).trans hfound) hhandler
  have hm₁ := hquiet.memory hm
  have hmade := h₁.newSq q.sqMem q.sqEntries q.cqId (Nat.ne_of_gt hq.sqId.1) hm₁.1 hm₁.2
  rw [hquiet.simCq m] at hmade
  -- the handler makes the queue, and then completes the command: `d₂` is in between
  have hself : (d₁.withSim { d₁.nvsim.newSq q.sqMem q.sqEntries q.sqId with
      queueMgr := d₁.nvsim.queueMgr.add q.sqId d₁.nvsim.nextSq q.cqId m }).host.rings.simSq
        d₁.nvsim.nextSq = q.simSq := Function.update_self ..
  generalize hd₂ : d₁.withSim { d₁.nvsim.newSq q.sqMem q.sqEntries q.sqId with
    queueMgr := d₁.nvsim.queueMgr.add q.sqId d₁.nvsim.nextSq q.cqId m } = d₂ at hmade hself
  have hsim : { d₁.nvsim.newSq q.sqMem q.sqEntries q.sqId with
      queueMgr := d₁.nvsim.queueMgr.add q.sqId d₁.nvsim.nextSq q.cqId m } = d₂.nvsim := by
    rw [← hd₂]
    rfl
  have hsame : d₁.withSim nvsim = d₂.withSim nvsim := by
    rw [← hd₂]
    rfl
  rw [hsim] at hframe
  rw [hsame] at hserved
  have hdone : Ready (d₂.withSim nvsim) i c i' c' hv _ ids U := hmade.completed hframe
  have hserved := hserved hdone.handles
  have hsq : (d₂.withSim nvsim).host.rings.simSq d₁.nvsim.nextSq = q.simSq := by
    have hkept := hframe.simSq d₁.nvsim.nextSq id
    rw [d₂.shared] at hkept
    exact hkept.trans hself
  refine ⟨d₁.nvsim.nextSq, hdone.served hserved, ?_, ?_, fun hp => ?_⟩
  · rw [hserved.quiet.simQueues]
    show _ ∈ nvsim.queueMgr.nvmeQueues.entries
    rw [hframe.queueMgr, ← hsim]
    exact Dict.mem_entries_set.mpr (Or.inl ⟨rfl, rfl⟩)
  · rw [hserved.SQTAIL]
    show nvsim.rings.SQTAIL q.sqId = _
    rw [hframe.SQTAIL, ← hsim]
    show d₁.nvsim.rings.SQTAIL q.sqId = _
    rw [d₁.shared]
    exact hfetched.SQTAIL q.sqId (Nat.ne_of_gt hq.sqId.1)
  · -- nothing on the way rings the doorbell of the new queue
    have hp₁ : Pristine d₁ q m := (hp.malloc hmem).fetched hq hmalloc.admin hfetched
    have hp₂ := hp₁.newSq h₁.handles
    rw [hd₂] at hp₂
    have hp₃ := hp₂.completed hq hmade.admin hframe
    refine ⟨hp₃.served hq hserved, (hserved.simSq _ fun hpos => ?_).trans hsq⟩
    exact absurd hpos (by rw [hp₃.numEntries hq hsq]; omega)

end GenericNVMeNVSimDevice

end LoneNvme
