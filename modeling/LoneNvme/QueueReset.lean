import LoneNvme.NVSimDevice

/-!
# What a reset leaves

`cc_disable` clears the doorbells and the host's queue manager, and expects all queues of
the controller to be gone. The simulator's `disable` only takes `CSTS.RDY` back: its
manager keeps every pair it had. So a reset is complete exactly if the simulator had no
IO queues. The submission queue of a pair it keeps looks empty only if its head happens
to be where the cleared doorbell is; otherwise old commands are executed once more.
-/

namespace LoneNvme

open Lib

namespace GenericNVMeNVSimDevice

variable {d d' : GenericNVMeNVSimDevice} {q : AdminQueues} {i c : Nat}

/-- The simulator has no pair but the admin pair. -/
def OnlyAdmin (d : GenericNVMeNVSimDevice) : Prop :=
  ∀ k ∈ d.nvsim.queueMgr.nvmeQueues.keys, k = (0, 0)

instance (d : GenericNVMeNVSimDevice) : Decidable d.OnlyAdmin :=
  inferInstanceAs (Decidable (∀ k ∈ d.nvsim.queueMgr.nvmeQueues.keys, k = (0, 0)))

/-- The host posts nothing: it polls, or the simulator looks at its queues. -/
inductive Idles : GenericNVMeNVSimDevice → GenericNVMeNVSimDevice → Prop where
  | poll (d : GenericNVMeNVSimDevice) (cqid : Nat) (dataIn : Except Exc (List (BitVec 8))) :
      Idles d (d.withHost (d.host.getCompletion cqid dataIn).1)
  | check {d d' : GenericNVMeNVSimDevice} {fuel : Nat} :
      d.checkCommands fuel = some (.ok d') → Idles d d'

/-- The admin pair of the simulator, as `enable` makes it: of the registers, and empty. -/
structure NewPair (d : GenericNVMeNVSimDevice) (i c : Nat) : Prop where
  sq : d.nvsim.rings.simSq i = d.nvmeRegs.asq
  cq : d.nvsim.rings.simCq c = d.nvmeRegs.acq
  sqEmpty : (d.nvsim.rings.simSq i).numEntries (d.nvsim.rings.SQTAIL 0) = 0
  cqEmpty : (d.nvsim.rings.simCq c).numEntries (d.nvsim.rings.CQHEAD 0) = 0

/--
The queues were reset: the simulator has the new admin pair and nothing else, the pair is
empty, and until the host posts a command `check_commands` handles none.
-/
structure FullReset (d : GenericNVMeNVSimDevice) : Prop where
  onlyPair : ∃ i c, d.nvsim.queueMgr.nvmeQueues.entries = [((0, 0), some i, some c)]
    ∧ d.NewPair i c
  quiet : ∀ d', Relation.ReflTransGen Idles d d' → ∀ fuel,
    d'.nvsim.checkCommands fuel = some (.ok (d'.nvsim, []))

/-! ## The reset, call by call -/

theorem withHost_self (d : GenericNVMeNVSimDevice) : d.withHost d.host = d := by
  obtain ⟨host, ⟨rings, _, _, _, _, _, _, _, _, _, _⟩, _, _, _, _, _, _, hshared⟩ := d
  dsimp only at hshared
  subst hshared
  rfl

theorem withSim_self (d : GenericNVMeNVSimDevice) : d.withSim d.nvsim = d := by
  obtain ⟨⟨_, _, _, _, rings⟩, nvsim, _, _, _, _, _, _, hshared⟩ := d
  dsimp only at hshared
  subst hshared
  rfl

/-- Disabled, with the simulator's manager as it was. -/
structure Disabled (d d' : GenericNVMeNVSimDevice) : Prop where
  queueMgr : d'.nvsim.queueMgr = d.nvsim.queueMgr
  handles : d'.nvsim.nextSq = d.nvsim.nextSq ∧ d'.nvsim.nextCq = d.nvsim.nextCq
  snapshot : d'.oldEN = 0
  doorbells : ∀ id, id < 1024 → d'.nvsim.rings.SQTAIL id = 0 ∧ d'.nvsim.rings.CQHEAD id = 0
  simSq : d'.nvsim.rings.simSq = d.nvsim.rings.simSq
  outstanding : d'.host.outstandingCommands = Dict.empty

theorem ccDisable_spec (h : d.ccDisable = .ok d') : Disabled d d' := by
  unfold ccDisable at h
  obtain ⟨_, _, h⟩ := bind_eq_ok h
  rw [← Except.ok.inj h]
  -- `CC.EN` is 0 now, so nothing is enabled
  have hsame : (d.writeEN 0).nvsim = d.nvsim := by
    unfold writeEN regsChanged
    dsimp only
    rw [if_neg (by simp)]
    split <;> rfl
  refine ⟨?_, ?_, rfl, fun id hid => ⟨if_pos hid, if_pos hid⟩, ?_, rfl⟩
  · show (d.writeEN 0).nvsim.queueMgr = _
    rw [hsame]
  · show (d.writeEN 0).nvsim.nextSq = _ ∧ (d.writeEN 0).nvsim.nextCq = _
    rw [hsame]
    exact ⟨rfl, rfl⟩
  · show (d.writeEN 0).host.rings.simSq = _
    rw [← (d.writeEN 0).shared, hsame]

theorem initAdminQueues_spec (h : d.initAdminQueues q = .ok d') : Disabled d d' := by
  unfold initAdminQueues at h
  obtain ⟨d₁, hdisable, h⟩ := bind_eq_ok h
  have hd := ccDisable_spec hdisable
  rw [← Except.ok.inj h]
  have hdoorbells : ∀ id, id < 1024 →
      d₁.host.rings.SQTAIL id = 0 ∧ d₁.host.rings.CQHEAD id = 0 := by
    rw [← d₁.shared]
    exact hd.doorbells
  have hsimSq : d₁.host.rings.simSq = d.nvsim.rings.simSq := by
    rw [← d₁.shared]
    exact hd.simSq
  exact ⟨hd.queueMgr, hd.handles, hd.snapshot, hdoorbells, hsimSq, hd.outstanding⟩

/-- Enabled: the simulator has the pair of the registers now. -/
structure Enabled (d d' : GenericNVMeNVSimDevice) : Prop where
  queueMgr : d'.nvsim.queueMgr = d.nvsim.queueMgr.add 0 d.nvsim.nextSq 0 d.nvsim.nextCq
  pair : d'.NewPair d.nvsim.nextSq d.nvsim.nextCq
  SQTAIL : d'.nvsim.rings.SQTAIL = d.nvsim.rings.SQTAIL
  simSq : ∀ i, i ≠ d.nvsim.nextSq → d'.nvsim.rings.simSq i = d.nvsim.rings.simSq i
  outstanding : d'.host.outstandingCommands = Dict.empty

/-- **A new pair is empty** where the doorbells are cleared. -/
theorem newPair_enable (h : d.nvsim.rings.SQTAIL 0 = 0 ∧ d.nvsim.rings.CQHEAD 0 = 0) :
    d.enable.NewPair d.nvsim.nextSq d.nvsim.nextCq := by
  have hsq : d.enable.nvsim.rings.simSq d.nvsim.nextSq = d.nvmeRegs.asq := Function.update_self ..
  have hcq : d.enable.nvsim.rings.simCq d.nvsim.nextCq = d.nvmeRegs.acq := Function.update_self ..
  refine ⟨hsq, hcq, ?_, ?_⟩
  · rw [hsq]
    show NVMeSubmissionQueue.numEntries d.nvmeRegs.asq (d.nvsim.rings.SQTAIL 0) = 0
    rw [h.1]
    exact NVMeQueue.numEntries_zero_iff.mpr rfl
  · rw [hcq]
    show NVMeCompletionQueue.numEntries d.nvmeRegs.acq (d.nvsim.rings.CQHEAD 0) = 0
    rw [h.2]
    exact NVMeQueue.numEntries_zero_iff.mpr rfl

theorem ccEnable_spec {d₀ : GenericNVMeNVSimDevice} (hd : Disabled d₀ d)
    (h : d.ccEnable = .ok d') : Enabled d d' := by
  unfold ccEnable at h
  obtain ⟨_, _, h⟩ := bind_eq_ok h
  rw [← Except.ok.inj h]
  have henable : d.writeEN 1
      = { enable { d with nvmeRegs := { d.nvmeRegs with EN := 1 } } with oldEN := 1 } := by
    unfold writeEN regsChanged
    dsimp only
    rw [if_pos ⟨hd.snapshot, rfl⟩]
  have hpair := @newPair_enable { d with nvmeRegs := { d.nvmeRegs with EN := 1 } }
    (hd.doorbells 0 (by omega))
  rw [henable]
  exact ⟨rfl, ⟨hpair.sq, hpair.cq, hpair.sqEmpty, hpair.cqEmpty⟩, rfl,
    fun i hi => Function.update_of_ne hi _ _, hd.outstanding⟩

/-- What a reset does to the simulator. -/
structure Restarted (d d' : GenericNVMeNVSimDevice) : Prop where
  queueMgr : d'.nvsim.queueMgr = d.nvsim.queueMgr.add 0 d.nvsim.nextSq 0 d.nvsim.nextCq
  pair : d'.NewPair d.nvsim.nextSq d.nvsim.nextCq
  SQTAIL : ∀ id, id < 1024 → d'.nvsim.rings.SQTAIL id = 0
  simSq : ∀ i, i ≠ d.nvsim.nextSq → d'.nvsim.rings.simSq i = d.nvsim.rings.simSq i
  outstanding : d'.host.outstandingCommands = Dict.empty

theorem reset_spec (h : d.reset q = .ok d') : Restarted d d' := by
  unfold reset at h
  obtain ⟨d₁, h₁, h⟩ := bind_eq_ok h
  obtain ⟨d₂, h₂, h⟩ := bind_eq_ok h
  have hd₁ := ccDisable_spec h₁
  have hd₂ := initAdminQueues_spec h₂
  have hd := ccEnable_spec hd₂ h
  have hsq : d₂.nvsim.nextSq = d.nvsim.nextSq := hd₂.handles.1.trans hd₁.handles.1
  have hcq : d₂.nvsim.nextCq = d.nvsim.nextCq := hd₂.handles.2.trans hd₁.handles.2
  refine ⟨?_, ?_, fun id hid => ?_, fun i hi => ?_, hd.outstanding⟩
  · rw [hd.queueMgr, hd₂.queueMgr, hd₁.queueMgr, hsq, hcq]
  · rw [← hsq, ← hcq]
    exact hd.pair
  · rw [hd.SQTAIL]
    exact (hd₂.doorbells id hid).1
  · rw [hd.simSq i (hsq ▸ hi), hd₂.simSq, hd₁.simSq]

/-! ## Nothing to do -/

/-- **An empty admin pair alone** gives `check_commands` nothing to handle. -/
theorem checkCommands_quiet {nvsim : NVSim} {i c : Nat}
    (hpairs : nvsim.queueMgr.nvmeQueues.entries = [((0, 0), some i, some c)])
    (hqid : (nvsim.rings.simSq i).qid = 0)
    (hempty : (nvsim.rings.simSq i).numEntries (nvsim.rings.SQTAIL 0) = 0) (fuel : Nat) :
    nvsim.checkCommands fuel = some (.ok (nvsim, [])) := by
  have hget : nvsim.queueMgr.get (some 0) (some 0) = .ok (.queue i, .queue c) := by
    unfold QueueMgr.get Dict.get?
    rw [hpairs]
    rfl
  have hnone : nvsim.rings.getCommand i = none := by
    unfold Rings.getCommand NVMeSubmissionQueue.getCommand
    dsimp only
    rw [hqid, if_pos hempty]
  have hadmin : NVSim.adminCommands i c fuel nvsim [] = some (.ok (nvsim, [])) := by
    unfold NVSim.adminCommands
    rw [hnone]
    rfl
  -- the admin queue is no IO queue
  have hbusy : nvsim.busySqs = [] := by
    unfold NVSim.busySqs
    rw [hpairs, List.filterMap_cons_none]
    · rfl
    · dsimp only
      rw [if_neg (fun h => h.2 hqid)]
  have hio : nvsim.ioCommands fuel = some (.ok ⟨nvsim, 0, []⟩) := by
    unfold NVSim.ioCommands NVSim.ioStart
    rw [hbusy]
    cases fuel <;> rfl
  unfold NVSim.checkCommands
  rw [hget]
  show ExceptT.bind (ExceptT.mk (NVSim.adminCommands i c fuel nvsim [])) _ = _
  rw [hadmin]
  show ExceptT.bind (ExceptT.mk (nvsim.ioCommands fuel)) _ = _
  rw [hio]
  rfl

/-- With nothing outstanding, a poll finds nothing to complete. -/
theorem getCompletion_quiet {host : NVMeDeviceCommon} (h : host.outstandingCommands = Dict.empty)
    (cqid : Nat) (dataIn : Except Exc (List (BitVec 8))) :
    (host.getCompletion cqid dataIn).1 = host := by
  unfold NVMeDeviceCommon.getCompletion
  split
  · rfl
  · split
    · dsimp only
      rw [h]
      rfl
    · rfl
  · rfl

/-! ## The reset as a whole -/

theorem idles_quiet (hpairs : d.nvsim.queueMgr.nvmeQueues.entries = [((0, 0), some i, some c)])
    (hpair : d.NewPair i c) (hout : d.host.outstandingCommands = Dict.empty)
    (h : Relation.ReflTransGen Idles d d') : d' = d := by
  induction h with
  | refl => rfl
  | tail _ hstep ih =>
      subst ih
      cases hstep with
      | poll cqid dataIn => rw [getCompletion_quiet hout, withHost_self]
      | @check _ fuel hcheck =>
          have hqid := congrArg NVMeSubmissionQueue.qid hpair.sq
          unfold checkCommands at hcheck
          rw [checkCommands_quiet hpairs hqid hpair.sqEmpty fuel] at hcheck
          rw [← Except.ok.inj (Option.some.inj hcheck)]
          exact withSim_self _

/-- **Full resets** are those of a simulator with no IO queues. -/
theorem fullReset_iff_onlyAdmin (h : d.reset q = .ok d') : FullReset d' ↔ d.OnlyAdmin := by
  have hr := reset_spec h
  constructor
  · intro hfull k hk
    obtain ⟨i', c', hentries, _⟩ := hfull.onlyPair
    -- the simulator keeps the pair
    have hkept : k ∈ d'.nvsim.queueMgr.nvmeQueues.keys := by
      rw [hr.queueMgr]
      exact Dict.mem_keys_set.mpr (Or.inr hk)
    unfold Dict.keys at hkept
    rw [hentries] at hkept
    exact List.mem_singleton.mp hkept
  · intro honly
    have hentries : d'.nvsim.queueMgr.nvmeQueues.entries
        = [((0, 0), some d.nvsim.nextSq, some d.nvsim.nextCq)] := by
      rw [hr.queueMgr]
      exact Dict.entries_set_of_only honly _
    refine ⟨⟨_, _, hentries, hr.pair⟩, fun d'' hidles fuel => ?_⟩
    rw [idles_quiet hentries hr.pair hr.outstanding hidles]
    exact checkCommands_quiet hentries (congrArg NVMeSubmissionQueue.qid hr.pair.sq)
      hr.pair.sqEmpty fuel

/--
**What a queue that was kept does**: the simulator takes it for busy, and fetches what is
in its memory, unless its head stood at slot 0.
-/
theorem mem_busySqs_reset (h : d.reset q = .ok d') {k : Nat × Nat} {cq : Option Nat}
    (hmem : (k, some i, cq) ∈ d.nvsim.queueMgr.nvmeQueues.entries) (hk : k ≠ (0, 0))
    (hi : i < d.nvsim.nextSq) (hqid : (d.nvsim.rings.simSq i).qid ≠ 0)
    (hdoorbell : (d.nvsim.rings.simSq i).qid < 1024)
    (hhead : (d.nvsim.rings.simSq i).head < (d.nvsim.rings.simSq i).entries) :
    (i, cq) ∈ d'.nvsim.busySqs ↔ (d.nvsim.rings.simSq i).head ≠ 0 := by
  have hr := reset_spec h
  have hsame := hr.simSq i (Nat.ne_of_lt hi)
  have hkept : (k, some i, cq) ∈ d'.nvsim.queueMgr.nvmeQueues.entries := by
    rw [hr.queueMgr]
    exact Dict.mem_entries_set.mpr (Or.inr ⟨hk, hmem⟩)
  -- the doorbell was cleared and the head was not, so their distance is 0 only at head 0
  have hbusy : 0 < d'.nvsim.numEntries i ↔ (d.nvsim.rings.simSq i).head ≠ 0 := by
    have htail := hr.SQTAIL _ hdoorbell
    unfold NVSim.numEntries NVMeSubmissionQueue.numEntries
    dsimp only
    rw [hsame, htail]
    obtain ⟨n, hlt, hmod, hnum⟩ := NVMeQueue.numEntries_positions hhead
      (Nat.lt_of_le_of_lt (Nat.zero_le _) hhead)
    rw [hnum]
    constructor
    · intro hpos h0
      rw [h0, Nat.zero_add, Nat.mod_eq_of_lt hlt] at hmod
      omega
    · intro h0
      have hn : n ≠ 0 := by
        rintro rfl
        rw [Nat.add_zero, Nat.mod_eq_of_lt hhead] at hmod
        exact h0 hmod
      omega
  rw [← hbusy]
  constructor
  · exact fun hin => NVSim.mem_busySqs hin
  · intro hpos
    refine List.mem_filterMap.mpr ⟨_, hkept, ?_⟩
    dsimp only
    rw [if_pos ⟨hpos, by rw [hsame]; exact hqid⟩]

/-- Every reset finds a simulator without IO queues. -/
def ResetsBare (d : GenericNVMeNVSimDevice) : DeviceOp → Prop
  | .reset _ => d.OnlyAdmin
  | _ => True

instance (d : GenericNVMeNVSimDevice) : (a : DeviceOp) → Decidable (ResetsBare d a)
  | .reset _ => inferInstanceAs (Decidable d.OnlyAdmin)
  | .start .. | .poll .. | .check _ | .sync .. | .create .. | .delete _ =>
      inferInstanceAs (Decidable True)

/--
**When a reset is full**: exactly if the simulator has no IO queues. So in a run all of
whose resets find none, every reset is full.

The simulator adds the new admin pair under the key of the old one, which replaces it. That is
why admin queues alone are reset although `disable` clears no queue.
-/
theorem fullReset_iff (d d' : GenericNVMeNVSimDevice) (q : AdminQueues) :
    (d.reset q = .ok d' → (FullReset d' ↔ d.OnlyAdmin))
    ∧ (machine.ReachableBy ResetsBare d → ResetsBare d (.reset q) →
        step d (.reset q) = some d' → FullReset d') := by
  refine ⟨fun h => fullReset_iff_onlyAdmin h, fun _ hbare hstep => ?_⟩
  obtain ⟨_, hstep⟩ := Option.ite_none_right_eq_some.mp hstep
  exact (fullReset_iff_onlyAdmin (toOption_eq_some hstep)).mpr hbare

/-- Admin queues of four entries. -/
def fourEntries (asqMem acqMem : Nat) : AdminQueues where
  asqEntries := 4
  acqEntries := 4
  asqMem := asqMem
  acqMem := acqMem

theorem fullReset_iff_blank : ∃ d d', blank.reset (fourEntries 0x1000 0x2000) = .ok d
    ∧ machine.ReachableBy ResetsBare d ∧ step d (.reset (fourEntries 0x3000 0x4000)) = some d'
    ∧ FullReset d ∧ FullReset d' := by
  have hok : (blank.reset (fourEntries 0x1000 0x2000)).toOption.map (fun d =>
      ((step d (.reset (fourEntries 0x3000 0x4000))).isSome, decide d.OnlyAdmin))
      = some (true, true) := by decide +kernel
  obtain ⟨d, hd, hnext⟩ := Option.map_eq_some_iff.mp hok
  obtain ⟨d', hd'⟩ := Option.isSome_iff_exists.mp (congrArg Prod.fst hnext)
  have honly : d.OnlyAdmin := of_decide_eq_true (congrArg Prod.snd hnext)
  have hreset := toOption_eq_some hd
  have hbare : blank.OnlyAdmin := fun k hk => absurd hk (by simp [blank, Dict.keys, Dict.empty])
  have hfresh : blank.Fresh [0x1000, 0x2000] := by decide
  have hstep : machine.step blank (.reset (fourEntries 0x1000 0x2000)) = some d :=
    Option.ite_none_right_eq_some.mpr ⟨hfresh, hd⟩
  have hr : machine.ReachableBy ResetsBare d :=
    @Machine.ReachableBy.tail _ _ _ _ _ _ (.reset _) (.init init_blank) hbare hstep
  exact ⟨d, d', hreset, hr, hd', ((fullReset_iff _ _ _).1 hreset).mpr hbare,
    (fullReset_iff d d' _).2 hr honly hd'⟩

/-- One IO queue pair, never used. -/
def onePair : QueuePair where
  cqEntries := 4
  cqId := 1
  sqEntries := 4
  sqId := 1
  cqMem := 0x3000
  sqMem := 0x4000

/-- The simulator keeps the pair. -/
theorem not_fullReset_onePair : ¬ ∀ (d d' : GenericNVMeNVSimDevice) (q : AdminQueues),
    machine.Reachable d → step d (.reset q) = some d' → FullReset d' := by
  intro hall
  have hok : (machine.run blank [.reset (fourEntries 0x1000 0x2000), .create onePair 1]).map
      (fun d => ((step d (.reset (fourEntries 0x5000 0x6000))).isSome, decide d.OnlyAdmin))
      = some (true, false) := by decide +kernel
  obtain ⟨d, hd, hnext⟩ := Option.map_eq_some_iff.mp hok
  obtain ⟨d', hd'⟩ := Option.isSome_iff_exists.mp (congrArg Prod.fst hnext)
  have hfull := hall d d' _ ((Machine.Reachable.start init_blank).run _ hd) hd'
  obtain ⟨_, hreset⟩ := Option.ite_none_right_eq_some.mp hd'
  have honly := (fullReset_iff_onlyAdmin (toOption_eq_some hreset)).mp hfull
  exact of_decide_eq_false (congrArg Prod.snd hnext) honly

end GenericNVMeNVSimDevice

end LoneNvme
