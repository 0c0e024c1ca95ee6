import LoneNvme.NewPairs
import LoneNvme.QueueReset

/-!
# Host and simulator agree on the queues

`create_io_queue_pair` has the simulator make a completion queue and a submission queue,
and then makes its own objects for the pair; `delete_io_queues` removes both sides' pairs.
The managers stay alike as long as no completion queue id is used again: the simulator
keeps every completion queue it ever made in `completion_queues`, and a new submission
queue gets the first with the id. The new pair is empty if the tail doorbell of its
submission queue, which no deletion clears, is at 0.
-/

namespace LoneNvme

open Lib

namespace GenericNVMeNVSimDevice

variable {d d' : GenericNVMeNVSimDevice} {i c i' c' : Nat} {q : QueuePair}
variable {hv sv : QueueMgr QueuePlace QueuePlace} {ids : List Nat} {U : Nat → Prop}

/-! ## Creations -/

/-- A pair of the host and one of the simulator, with nothing in any of the four queues. -/
structure PairEmpty (d : GenericNVMeNVSimDevice) (sq cq sq' cq' : Nat) : Prop where
  hostSq : (d.host.rings.hostSq sq).numEntries (d.host.rings.SQTAIL (d.host.rings.hostSq sq).qid) = 0
  simSq : d.nvsim.numEntries sq' = 0
  hostCq : d.host.rings.phaseMatch cq = false
  simCq : (d.nvsim.rings.simCq cq').numEntries
    (d.nvsim.rings.CQHEAD (d.nvsim.rings.simCq cq').qid) = 0

/-- Right after its creation the pair is empty on both sides. -/
def NewPairEmpty (d : GenericNVMeNVSimDevice) (q : QueuePair) : Prop :=
  ∃ sq cq sq' cq', d.host.queueMgr.nvmeQueues.get? (q.sqId, q.cqId) = some (some sq, some cq)
    ∧ d.nvsim.queueMgr.nvmeQueues.get? (q.sqId, q.cqId) = some (some sq', some cq')
    ∧ d.PairEmpty sq cq sq' cq'

theorem Ready.mono (h : Ready d i c i' c' hv sv ids U) {U' : Nat → Prop} (hU : ∀ q, U' q → U q) :
    Ready d i c i' c' hv sv ids U' :=
  { h with unused := fun q hq => h.unused q (hU q hq) }

/--
What a creation leaves: new objects of the host, and in the simulator a pair with the new
submission queue and a completion queue that looks like `p`.
-/
structure Created (d d' : GenericNVMeNVSimDevice) (q : QueuePair) (p : QueuePlace) : Prop where
  hostPair : ∃ sq cq, d'.host.queueMgr.nvmeQueues.get? (q.sqId, q.cqId) = some (some sq, some cq)
    ∧ d'.host.rings.hostSq sq = q.sq ∧ d'.host.rings.hostCq cq = q.cq
  SQTAIL : d'.host.rings.SQTAIL q.sqId = d.host.rings.SQTAIL q.sqId
  /-- Only new things. -/
  new : d.host.rings.SQTAIL q.sqId = 0 → q.cqId ∉ d.cqIds → p = q.simCq.place
    ∧ ∃ j n, d'.nvsim.queueMgr.nvmeQueues.get? (q.sqId, q.cqId) = some (some j, some n)
      ∧ Pristine d' q n ∧ d'.host.rings.simSq j = q.simSq
  /-- A completion queue of before, in other memory. -/
  old : q.cqId ∈ d.cqIds → p.baseAddress ∈ d.allocated

/-- **`create_io_queue_pair`** makes the pair on both sides. -/
theorem Ready.create (h : Ready d i c i' c' hv sv ids U) (hq : q.Fits)
    (hfresh : d.Fresh [q.cqMem, q.sqMem]) {fuel : Nat}
    (hs : d.createIoQueuePair q fuel = some (.ok d')) :
    ∃ p, Created d d' q p ∧ (U q.cqId → d'.host.rings.CQHEAD q.cqId = 0)
      ∧ Ready d' i c i' c' (hv.add q.sqId q.simSq.place q.cqId q.simCq.place)
        (sv.add q.sqId q.simSq.place q.cqId p) (ids ++ [q.cqId]) fun x => U x ∧ x ≠ q.cqId := by
  obtain ⟨hnodup, hall⟩ := hfresh
  have hcqMem := hall q.cqMem List.mem_cons_self
  have hsqMem := hall q.sqMem (List.mem_cons_of_mem _ List.mem_cons_self)
  have hdistinct : q.sqMem ≠ q.cqMem := fun he =>
    (List.nodup_cons.mp hnodup).1 (he ▸ List.mem_cons_self)
  unfold createIoQueuePair at hs
  obtain ⟨d₁, hcq, hs⟩ := bind_eq_some_ok hs
  obtain ⟨d₂, hsq, hs⟩ := bind_eq_some_ok hs
  have hd' := Except.ok.inj (Option.some.inj hs)
  subst hd'
  -- the completion queue first, then the submission queue that names it
  obtain ⟨n, m, h₁, hcqMade⟩ := h.createIocq hq hcqMem.1 hcqMem.2 hcq
  obtain ⟨rest, hfound⟩ := hcqMade.found
  obtain ⟨j, h₂, hsqMade⟩ := h₁.createIosq hq hsqMem.1 hdistinct hfound hcqMade.memory hsq
  refine ⟨_, ⟨⟨d₂.nextSq, d₂.nextCq, Dict.get?_set_self _ _ _, Function.update_self ..,
    Function.update_self ..⟩, hsqMade.tail.trans hcqMade.tail, fun htail hnew => ?_, hcqMade.old⟩,
    fun hunused => (h₂.unused q.cqId hunused).CQHEAD, h₂.addPair hq.sqId hq.cqId⟩
  have hp := hcqMade.pristine htail
  rw [← hcqMade.new hnew] at hp
  obtain ⟨hp₂, hsimSq⟩ := hsqMade.pristine hp
  refine ⟨?_, j, m, Dict.get?_eq_some_iff.mpr hsqMade.pair,
    ⟨hp₂.simCq, hp₂.phase, hp₂.tail, hp₂.apart⟩, hsimSq⟩
  rw [hp.simCq]

/-- A pair of new things only is empty. -/
theorem Created.newPairEmpty {p : QueuePlace} (h : Created d d' q p) (hq : q.Fits)
    (htail : d.host.rings.SQTAIL q.sqId = 0) (hnew : q.cqId ∉ d.cqIds)
    (hhead : d'.host.rings.CQHEAD q.cqId = 0) : NewPairEmpty d' q := by
  obtain ⟨sq, cq, hpair, hsq, hcq⟩ := h.hostPair
  obtain ⟨_, j, n, hsimPair, hp, hsimSq⟩ := h.new htail hnew
  refine ⟨sq, cq, j, n, hpair, hsimPair, ?_, hp.numEntries hq hsimSq, ?_, ?_⟩
  · rw [hsq]
    show NVMeQueue.numEntries q.sqEntries 0 (d'.host.rings.SQTAIL q.sqId) = 0
    exact NVMeQueue.numEntries_zero_iff.mpr hp.tail
  · unfold Rings.phaseMatch Rings.nextCompletion
    rw [hcq]
    show ((d'.host.rings.cqRing q.cqMem (d'.host.rings.CQHEAD q.cqId)).SF.P == 1) = false
    rw [hhead, hp.phase]
    rfl
  · rw [d'.shared, hp.simCq]
    show NVMeQueue.numEntries q.cqEntries (d'.host.rings.CQHEAD q.cqId) 0 = 0
    rw [hhead]
    exact NVMeQueue.numEntries_self hq.cqEntries.1

/-- The host's new submission queue is not empty where an old doorbell is not at 0. -/
theorem Created.tail {p : QueuePlace} (h : Created d d' q p) (hempty : NewPairEmpty d' q) :
    d.host.rings.SQTAIL q.sqId = 0 := by
  obtain ⟨sq, cq, hpair, hsq, _⟩ := h.hostPair
  obtain ⟨sq₁, cq₁, _, _, hpair₁, _, hempty, _⟩ := hempty
  have hsame : sq₁ = sq :=
    Option.some.inj (congrArg Prod.fst (Option.some.inj (hpair₁.symm.trans hpair)))
  rw [hsame, hsq] at hempty
  exact h.SQTAIL.symm.trans (NVMeQueue.numEntries_zero_iff.mp hempty)

/-! ## Deletions -/

/-- **One deletion**: both sides remove the queue, and still look alike. -/
theorem Ready.delete {v : QueueMgr QueuePlace QueuePlace} (h : Ready d i c i' c' v v ids U)
    {opc : BitVec 8} {qid : Nat} (remove : QueueMgr Nat Nat → Except Exc (QueueMgr Nat Nat))
    (removeView : QueueMgr QueuePlace QueuePlace → Except Exc (QueueMgr QueuePlace QueuePlace))
    (hview : ∀ f g qm, (remove qm).map (QueueMgr.view f g) = removeView (qm.view f g))
    (hshrunk : qid ≠ 0 → ∀ {qm qm'}, remove qm = .ok qm' → qm.Shrunk qm')
    (hhandled : ∀ {nvsim nvsim' cid}, NVSim.adminCmdHandler opc nvsim
      { deleteCmd opc qid with CID := cid } i' c' = .ok nvsim' → qid ≠ 0
        ∧ ∃ queueMgr, remove nvsim.queueMgr = .ok queueMgr
          ∧ NVSim.Frame (fun _ => False) (· = c') { nvsim with queueMgr } nvsim')
    {fuel : Nat} {d₁ : GenericNVMeNVSimDevice}
    (hs : d.syncCmd (deleteCmd opc qid) fuel = some (.ok d₁)) (hr : d₁.removeQueue remove = .ok d') :
    ∃ v', Ready d' i c i' c' v' v' ids U := by
  obtain ⟨d₂, cid, nvsim, hfetched, h₂, hhandler, hserved⟩ := h.syncCmd hs
  obtain ⟨h0, simQm, hsim, hframe⟩ := hhandled hhandler
  have hremoved := h₂.simRemoved (hshrunk h0 hsim)
  have hdone : Ready (d₂.withSim nvsim) i c i' c' v _ ids U := hremoved.completed hframe
  have h₁ := hdone.served (hserved hdone.handles)
  unfold removeQueue at hr
  obtain ⟨hostQm, hhost, hr⟩ := bind_eq_ok hr
  have hlast := h₁.hostRemoved (hshrunk h0 hhost)
  rw [Except.ok.inj hr] at hlast
  have hsame : d₁.hostView = d₂.simView := h₁.hostView.trans h₂.simView.symm
  rw [QueueMgr.view_removed (hview _ _) (hview _ _) hsame hhost hsim] at hlast
  exact ⟨_, hlast⟩

theorem Ready.deleteSqs {fuel : Nat} :
    ∀ {keys : List (Nat × Nat)} {d d' : GenericNVMeNVSimDevice} {v : QueueMgr QueuePlace QueuePlace},
      Ready d i c i' c' v v ids U → (∀ k ∈ keys, k.1 < 1024) →
      GenericNVMeNVSimDevice.deleteSqs fuel keys d = some (.ok d') →
      ∃ v', Ready d' i c i' c' v' v' ids U := by
  intro keys
  induction keys with
  | nil => exact fun {d d' v} h _ hs => ⟨v, Except.ok.inj (Option.some.inj hs) ▸ h⟩
  | cons k keys ih =>
      intro d d' v h hkeys hs
      have hrest : ∀ k' ∈ keys, k'.1 < 1024 := fun k' hk' => hkeys k' (List.mem_cons_of_mem _ hk')
      have hlt := hkeys k List.mem_cons_self
      unfold GenericNVMeNVSimDevice.deleteSqs at hs
      split at hs
      · exact ih h hrest hs
      · obtain ⟨d₁, hsync, hs⟩ := bind_eq_some_ok hs
        obtain ⟨d₂, hremove, hs⟩ := bind_eq_some_ok hs
        obtain ⟨v', h'⟩ := h.delete (fun qm => qm.removeSq k.1) (fun qm => qm.removeSq k.1)
          (fun f g qm => QueueMgr.view_removeSq k.1)
          (fun h0 {_ _} => QueueMgr.removeSq_shrunk h0)
          (fun {_ _ _} => NVSim.deleteIosq_handled (by omega)) hsync (Option.some.inj hremove)
        exact ih h' hrest hs

theorem Ready.deleteCqs {fuel : Nat} :
    ∀ {keys : List (Nat × Nat)} {d d' : GenericNVMeNVSimDevice} {v : QueueMgr QueuePlace QueuePlace},
      Ready d i c i' c' v v ids U → (∀ k ∈ keys, k.2 < 1024) →
      GenericNVMeNVSimDevice.deleteCqs fuel keys d = some (.ok d') →
      ∃ v', Ready d' i c i' c' v' v' ids U := by
  intro keys
  induction keys with
  | nil => exact fun {d d' v} h _ hs => ⟨v, Except.ok.inj (Option.some.inj hs) ▸ h⟩
  | cons k keys ih =>
      intro d d' v h hkeys hs
      have hrest : ∀ k' ∈ keys, k'.2 < 1024 := fun k' hk' => hkeys k' (List.mem_cons_of_mem _ hk')
      have hlt := hkeys k List.mem_cons_self
      unfold GenericNVMeNVSimDevice.deleteCqs at hs
      split at hs
      · exact ih h hrest hs
      · obtain ⟨d₁, hsync, hs⟩ := bind_eq_some_ok hs
        obtain ⟨d₂, hremove, hs⟩ := bind_eq_some_ok hs
        obtain ⟨v', h'⟩ := h.delete (fun qm => qm.removeCq k.2) (fun qm => qm.removeCq k.2)
          (fun f g qm => QueueMgr.view_removeCq k.2)
          (fun h0 {_ _} => QueueMgr.removeCq_shrunk h0)
          (fun {_ _ _} => NVSim.deleteIocq_handled (by omega)) hsync (Option.some.inj hremove)
        exact ih h' hrest hs

/-- **`delete_io_queues`**. -/
theorem Ready.deleteIoQueues {v : QueueMgr QueuePlace QueuePlace} (h : Ready d i c i' c' v v ids U)
    {fuel : Nat} (hs : d.deleteIoQueues fuel = some (.ok d')) :
    ∃ v', Ready d' i c i' c' v' v' ids U := by
  unfold GenericNVMeNVSimDevice.deleteIoQueues at hs
  obtain ⟨d₁, hsqs, hs⟩ := bind_eq_some_ok hs
  obtain ⟨v₁, h₁⟩ := h.deleteSqs (fun k hk => (h.handles.keys k hk).1) hsqs
  exact h₁.deleteCqs (fun k hk => (h₁.handles.keys k hk).2) hs

end GenericNVMeNVSimDevice

end LoneNvme
