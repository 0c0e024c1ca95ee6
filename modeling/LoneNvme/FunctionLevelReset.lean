import LoneNvme.QueueReset
import LoneNvme.SimConfig

/-!
# A function level reset

`initiate_flr` has the simulator make itself a new configuration: registers and doorbells
are cleared, and no queue is left. So here the reset that comes after is a full one, whatever
queues there were, and the device goes on as if it had just been made.

`Reconfigured` is what such a reset leaves. The main step is `Reconfigured.eq_reset`: the calls
that bring the controller up from there end as `reset` does on a device that was just made. So
a run with function level resets in it is, from the last of them on, a run without any.
-/

namespace LoneNvme

open Lib

namespace GenericNVMeNVSimDevice

variable {d d' : GenericNVMeNVSimDevice} {namespaces : List NVSimNamespace} {q : AdminQueues}

/-- The registers cleared, the doorbells among them, and a new configuration. -/
def newConfig (d : GenericNVMeNVSimDevice) (namespaces : List NVSimNamespace) :
    Except Exc GenericNVMeNVSimDevice := do
  let d := { d.withHost { d.host with rings := d.host.rings.clearDoorbells } with nvmeRegs := {} }
  let nvsim ← GenericNVMeNVSimConfig.init d.nvsim namespaces
  return d.withSim nvsim

/-- `nvsim_pcie_regs_changed`, with `PXDC.IFLR` of the last copy and of the register. -/
def pcieRegsChanged (d : GenericNVMeNVSimDevice) (namespaces : List NVSimNamespace)
    (oldIFLR IFLR : BitVec 1) : Except Exc GenericNVMeNVSimDevice :=
  if oldIFLR = 0 ∧ IFLR = 1 then d.newConfig namespaces else .ok d

/--
`initiate_flr`, and the simulator handling the change of both sets of registers. A new
configuration clears `IFLR` as well, so its last copy is always 0.
-/
def initiateFlr (d : GenericNVMeNVSimDevice) (namespaces : List NVSimNamespace) :
    Except Exc GenericNVMeNVSimDevice := do
  let d ← d.pcieRegsChanged namespaces 0 1
  return d.regsChanged

/-- The program of `flr.py`: reset the function, then bring the device up again. -/
def flr (d : GenericNVMeNVSimDevice) (namespaces : List NVSimNamespace) (q : AdminQueues) :
    Except Exc GenericNVMeNVSimDevice := do
  let d ← d.initiateFlr namespaces
  let d ← d.initAdminQueues q
  d.ccEnable

/-! ## What is left after it -/

/-- The simulator as its constructor leaves it, on the doorbells and queues in memory. -/
structure Reconfigured (namespaces : List NVSimNamespace) (d d' : GenericNVMeNVSimDevice) : Prop where
  nvmeRegs : d'.nvmeRegs = {}
  oldEN : d'.oldEN = 0
  simQueues : d'.nvsim.queueMgr = {} ∧ d'.nvsim.completionQueues = []
  powerState : d'.nvsim.powerState = 0
  stored : d'.nvsim.namespaces = namespaces.map NVSimNamespace.identified
  doorbells : d'.host.rings = d.host.rings.clearDoorbells
  allocated : d'.allocated = d.allocated

theorem newConfig_eq_ok (h : d.newConfig namespaces = .ok d') :
    ∃ idNsListData, IdentifyNamespaceList.listNamespaces 0 namespaces (List.replicate 4096 0)
        = .ok idNsListData
      ∧ d' = { d with
          nvsim := GenericNVMeNVSimConfig.new
            { d.nvsim with rings := d.host.rings.clearDoorbells } namespaces idNsListData
          host := { d.host with rings := d.host.rings.clearDoorbells }
          nvmeRegs := {}
          shared := rfl } := by
  unfold newConfig at h
  obtain ⟨nvsim, hinit, h⟩ := bind_eq_ok h
  unfold GenericNVMeNVSimConfig.init at hinit
  obtain ⟨data, hdata, hnew⟩ := bind_eq_ok hinit
  refine ⟨data, hdata, ?_⟩
  rw [← Except.ok.inj h, ← Except.ok.inj hnew]
  rfl

/-- Nothing is enabled, so the change of the cleared registers only makes a new copy. -/
theorem regsChanged_cleared (h : d.nvmeRegs = {}) : d.regsChanged = { d with oldEN := 0 } := by
  unfold regsChanged
  rw [h, if_neg (by simp)]
  dsimp only
  split
  · unfold disable
    rw [h]
  · rw [h]

theorem initiateFlr_spec (h : d.initiateFlr namespaces = .ok d') :
    Reconfigured namespaces d d'
    ∧ (namespaces.length ≤ 1024 → GenericNVMeNVSimConfig.Configured namespaces d'.nvsim) := by
  unfold initiateFlr pcieRegsChanged at h
  obtain ⟨d₁, hconfig, h⟩ := bind_eq_ok h
  rw [if_pos ⟨rfl, rfl⟩] at hconfig
  obtain ⟨data, hdata, rfl⟩ := newConfig_eq_ok hconfig
  rw [regsChanged_cleared rfl] at h
  rw [← Except.ok.inj h]
  refine ⟨⟨rfl, rfl, ⟨rfl, rfl⟩, rfl, rfl, rfl, rfl⟩, fun hlen => ?_⟩
  obtain ⟨data', hinit, hconfigured⟩ := @GenericNVMeNVSimConfig.init_spec
    { d.nvsim with rings := d.host.rings.clearDoorbells } namespaces hlen
  unfold GenericNVMeNVSimConfig.init at hinit
  rw [hdata] at hinit
  rw [← Except.ok.inj hinit] at hconfigured
  exact hconfigured

/-! ## As if just made -/

/-- Nothing was enabled, so there is nothing to disable. -/
theorem writeEN_cleared (hregs : d.nvmeRegs = {}) (hold : d.oldEN = 0) : d.writeEN 0 = d := by
  obtain ⟨host, nvsim, regs, old, allocated, nextSq, nextCq, nextCommand, hshared⟩ := d
  dsimp only at hregs hold
  subst hregs hold
  exact regsChanged_cleared rfl

/-- `cc_disable` of a cleared device is only about the host. -/
theorem ccDisable_cleared (hregs : d.nvmeRegs = {}) (hold : d.oldEN = 0) :
    d.ccDisable = .ok (d.withHost { d.host with
      rings := d.host.rings.clearDoorbells
      queueMgr := {}
      outstandingCommands := Dict.empty }) := by
  unfold ccDisable
  rw [writeEN_cleared hregs hold]
  dsimp only
  rw [hregs]
  rfl

theorem clearDoorbells_idem (r : Rings) : r.clearDoorbells.clearDoorbells = r.clearDoorbells := by
  have hclear : ∀ doorbell : Nat → Nat, (fun id => if id < 1024 then 0 else
      (if id < 1024 then 0 else doorbell id)) = fun id => if id < 1024 then 0 else doorbell id := by
    intro doorbell
    funext id
    split <;> rfl
  unfold Rings.clearDoorbells
  dsimp only
  rw [hclear, hclear]

/-- To disable a cleared device once more changes nothing. -/
theorem ccDisable_again (hregs : d.nvmeRegs = {}) (hold : d.oldEN = 0) (h : d.ccDisable = .ok d') :
    d'.ccDisable = .ok d' := by
  rw [ccDisable_cleared hregs hold] at h
  have hd' := Except.ok.inj h
  have hhost : { d'.host with
      rings := d'.host.rings.clearDoorbells
      queueMgr := {}
      outstandingCommands := Dict.empty } = d'.host := by
    rw [← hd']
    exact congrArg (fun rings => { d.host with
      rings := rings, queueMgr := {}, outstandingCommands := Dict.empty })
      (clearDoorbells_idem d.host.rings)
  rw [ccDisable_cleared (by rw [← hd']; exact hregs) (by rw [← hd']; exact hold), hhost, withHost_self]

/-- Whether it was disabled before does not matter to `init_admin_queues`. -/
theorem reset_ccDisable (hregs : d.nvmeRegs = {}) (hold : d.oldEN = 0) (h : d.ccDisable = .ok d') :
    d'.reset q = d.initAdminQueues q >>= ccEnable := by
  have hagain := ccDisable_again hregs hold h
  have hinit : d.initAdminQueues q = d'.initAdminQueues q := by
    unfold initAdminQueues
    rw [h, hagain]
  rw [hinit]
  unfold reset
  rw [hagain]
  rfl

/-- The doorbells of ids that there are no registers for were never rung. -/
def InRegisters (d : GenericNVMeNVSimDevice) : Prop :=
  ∀ id, 1024 ≤ id → d.host.rings.SQTAIL id = 0 ∧ d.host.rings.CQHEAD id = 0

/-- **After a function level reset** the device comes up like one that was just made. -/
theorem Reconfigured.eq_reset (h : Reconfigured namespaces d d') (q : AdminQueues) :
    ∃ d₂, d₂.reset q = d'.initAdminQueues q >>= ccEnable ∧ (d.InRegisters → Init d₂)
      ∧ d₂.nvsim.queueMgr = {} ∧ d₂.nvsim.core = d'.nvsim.core ∧ d₂.allocated = d.allocated := by
  have hdisable := ccDisable_cleared h.nvmeRegs h.oldEN
  refine ⟨_, reset_ccDisable h.nvmeRegs h.oldEN hdisable, fun hin => ?_, h.simQueues.1, rfl, h.allocated⟩
  refine ⟨h.nvmeRegs, h.oldEN, rfl, h.simQueues, fun id => ?_, rfl⟩
  show d'.host.rings.clearDoorbells.SQTAIL id = 0 ∧ d'.host.rings.clearDoorbells.CQHEAD id = 0
  rw [h.doorbells, clearDoorbells_idem]
  unfold Rings.clearDoorbells
  dsimp only
  split
  · exact ⟨rfl, rfl⟩
  · next hid => exact hin id (Nat.le_of_not_lt hid)

/-! ## What any reset leaves alone -/

theorem core_writeEN (value : BitVec 1) : (d.writeEN value).nvsim.core = d.nvsim.core := by
  unfold writeEN regsChanged
  dsimp only
  split
  · rfl
  · split <;> rfl

theorem core_ccDisable (h : d.ccDisable = .ok d') : d'.nvsim.core = d.nvsim.core := by
  unfold ccDisable at h
  obtain ⟨_, _, h⟩ := bind_eq_ok h
  rw [← Except.ok.inj h]
  exact core_writeEN 0

/-- **A controller reset** keeps namespaces, identify data and the power state. -/
theorem core_reset (h : d.reset q = .ok d') : d'.nvsim.core = d.nvsim.core := by
  unfold reset initAdminQueues ccEnable at h
  obtain ⟨d₁, h₁, h⟩ := bind_eq_ok h
  obtain ⟨d₂, h₂, h⟩ := bind_eq_ok h
  obtain ⟨d₃, h₃, h₂⟩ := bind_eq_ok h₂
  obtain ⟨_, _, h⟩ := bind_eq_ok h
  rw [← Except.ok.inj h, core_writeEN, ← Except.ok.inj h₂]
  exact (core_ccDisable h₃).trans (core_ccDisable h₁)

theorem doorbells_writeEN (value : BitVec 1) :
    (d.writeEN value).host.rings.SQTAIL = d.host.rings.SQTAIL
    ∧ (d.writeEN value).host.rings.CQHEAD = d.host.rings.CQHEAD := by
  unfold writeEN regsChanged
  dsimp only
  split
  · have htail := congrArg Rings.SQTAIL d.shared
    have hhead := congrArg Rings.CQHEAD d.shared
    exact ⟨htail, hhead⟩
  · split <;> exact ⟨rfl, rfl⟩

theorem InRegisters.ccDisable (hin : d.InRegisters) (h : d.ccDisable = .ok d') : d'.InRegisters := by
  unfold GenericNVMeNVSimDevice.ccDisable at h
  obtain ⟨_, _, h⟩ := bind_eq_ok h
  rw [← Except.ok.inj h]
  obtain ⟨htail, hhead⟩ := @doorbells_writeEN d 0
  intro id hid
  show (if id < 1024 then 0 else (d.writeEN 0).host.rings.SQTAIL id) = 0
    ∧ (if id < 1024 then 0 else (d.writeEN 0).host.rings.CQHEAD id) = 0
  rw [htail, hhead, if_neg (Nat.not_lt.mpr hid), if_neg (Nat.not_lt.mpr hid)]
  exact hin id hid

theorem InRegisters.reset (hin : d.InRegisters) (h : d.reset q = .ok d') : d'.InRegisters := by
  unfold GenericNVMeNVSimDevice.reset initAdminQueues ccEnable at h
  obtain ⟨d₁, h₁, h⟩ := bind_eq_ok h
  obtain ⟨d₂, h₂, h⟩ := bind_eq_ok h
  obtain ⟨d₃, h₃, h₂⟩ := bind_eq_ok h₂
  obtain ⟨_, _, h⟩ := bind_eq_ok h
  have hin₃ := (hin.ccDisable h₁).ccDisable h₃
  obtain ⟨htail, hhead⟩ := @doorbells_writeEN d₂ 1
  rw [← Except.ok.inj h]
  intro id hid
  rw [htail, hhead, ← Except.ok.inj h₂]
  exact hin₃ id hid

/-! ## The whole program -/

theorem newConfig_returns (h : namespaces.length ≤ 1024) : ∃ d', d.newConfig namespaces = .ok d' := by
  obtain ⟨data, hinit, _⟩ := @GenericNVMeNVSimConfig.init_spec
    { d.nvsim with rings := d.host.rings.clearDoorbells } namespaces h
  unfold newConfig
  exact ⟨_, by dsimp only [withHost]; rw [hinit]; rfl⟩

/-- Nothing of a cleared device keeps it from coming up. -/
theorem Reconfigured.up_returns (h : Reconfigured namespaces d d') (q : AdminQueues) :
    ∃ d₂, (d'.initAdminQueues q >>= ccEnable) = .ok d₂ := by
  obtain ⟨d₁, hadmin⟩ : ∃ d₁, d'.initAdminQueues q = .ok d₁ := by
    unfold initAdminQueues
    rw [ccDisable_cleared h.nvmeRegs h.oldEN]
    exact ⟨_, rfl⟩
  have hold := (initAdminQueues_spec hadmin).snapshot
  rw [hadmin]
  show ∃ d₂, d₁.ccEnable = .ok d₂
  unfold ccEnable writeEN regsChanged
  dsimp only
  rw [if_pos ⟨hold, rfl⟩]
  exact ⟨_, rfl⟩

/--
**The program of `flr.py`**: whatever state the device was in, with whatever queues, it is
disabled after the function level reset, and the reset that follows is a full one. The
simulator describes the namespaces of the new configuration, and is in power state 0.

A controller reset in its place is a full one only where there were no IO queues: `disable`
keeps the simulator's queues, and only the new configuration drops them.
-/
theorem flr_fullReset (d : GenericNVMeNVSimDevice) (namespaces : List NVSimNamespace)
    (q : AdminQueues) (h : namespaces.length ≤ 1024) : (∃ d₁ d', d.initiateFlr namespaces = .ok d₁
    ∧ d₁.nvmeRegs.EN = 0 ∧ d₁.nvmeRegs.RDY = 0
    ∧ d.flr namespaces q = .ok d' ∧ FullReset d'
    ∧ GenericNVMeNVSimConfig.Configured namespaces d'.nvsim
    ∧ d'.nvsim.namespaces = namespaces.map NVSimNamespace.identified ∧ d'.nvsim.powerState = 0)
    ∧ ∀ d', d.reset q = .ok d' → (FullReset d' ↔ d.OnlyAdmin) := by
  refine ⟨?_, fun _ hplain => fullReset_iff_onlyAdmin hplain⟩
  obtain ⟨d₀, hconfig⟩ := @newConfig_returns d namespaces h
  have hinitiate : d.initiateFlr namespaces = .ok d₀.regsChanged := by
    unfold initiateFlr pcieRegsChanged
    rw [if_pos ⟨rfl, rfl⟩, hconfig]
    rfl
  obtain ⟨hre, hconfigured⟩ := initiateFlr_spec hinitiate
  obtain ⟨d', hup⟩ := hre.up_returns q
  -- coming up after it is a controller reset of some `d₂` whose simulator has no queues
  obtain ⟨d₂, hreset, _, hsim, hcore, _⟩ := hre.eq_reset q
  rw [hup] at hreset
  have hcore' : d'.nvsim.core = d₀.regsChanged.nvsim.core := (core_reset hreset).trans hcore
  have honly : d₂.OnlyAdmin := fun k hk => absurd hk (by rw [hsim]; simp [Dict.keys, Dict.empty])
  refine ⟨_, d', hinitiate, by rw [hre.nvmeRegs], by rw [hre.nvmeRegs], ?_,
    (fullReset_iff_onlyAdmin hreset).mpr honly, (hconfigured h).congr hcore' rfl, ?_, ?_⟩
  · unfold flr
    rw [hinitiate]
    exact hup
  · exact (congrArg NVSim.Core.namespaces hcore').trans hre.stored
  · exact (congrArg NVSim.Core.powerState hcore').trans hre.powerState

/-- With an IO queue pair, so that a plain reset is not a full one. -/
theorem flr_fullReset_onePair : ∃ d d₁ d',
    machine.run blank [.reset (fourEntries 0x1000 0x2000), .create onePair 1] = some d
    ∧ (∃ d₂, d.reset (fourEntries 0x5000 0x6000) = .ok d₂ ∧ ¬ FullReset d₂)
    ∧ d.initiateFlr [] = .ok d₁ ∧ d₁.nvmeRegs.EN = 0
    ∧ d.flr [] (fourEntries 0x5000 0x6000) = .ok d' ∧ FullReset d' := by
  have hok : (machine.run blank [.reset (fourEntries 0x1000 0x2000), .create onePair 1]).map
      (fun d => ((d.reset (fourEntries 0x5000 0x6000)).toOption.isSome, decide d.OnlyAdmin))
      = some (true, false) := by decide +kernel
  obtain ⟨d, hd, hpair⟩ := Option.map_eq_some_iff.mp hok
  obtain ⟨d₂, hplain⟩ := Option.isSome_iff_exists.mp (congrArg Prod.fst hpair)
  obtain ⟨⟨d₁, d', hinitiate, hen, _, hflr, hfull, _⟩, hiff⟩ :=
    flr_fullReset d [] (fourEntries 0x5000 0x6000) (Nat.zero_le 1024)
  have hnot : ¬ FullReset d₂ := fun hfull₂ =>
    of_decide_eq_false (congrArg Prod.snd hpair) ((hiff d₂ (toOption_eq_some hplain)).mp hfull₂)
  exact ⟨d, d₁, d', hd, ⟨d₂, toOption_eq_some hplain, hnot⟩, hinitiate, hen, hflr, hfull⟩

/-! ## Runs with function level resets -/

/-- A step of a run with function level resets. -/
def flrStep (d : GenericNVMeNVSimDevice) (op : List NVSimNamespace × AdminQueues) :
    Option GenericNVMeNVSimDevice :=
  if d.Fresh [op.2.asqMem, op.2.acqMem] then (d.flr op.1 op.2).toOption else none

/-- Each of them finds no doorbell rung beyond the registers. -/
def FlrInRegisters (d : GenericNVMeNVSimDevice) :
    DeviceOp ⊕ (List NVSimNamespace × AdminQueues) → Prop
  | .inl _ => True
  | .inr _ => d.InRegisters

/--
**Function level resets add no states**: what a run with them reaches, a run without
them reaches as well.

A device that was cleared may start a run, whatever it holds in memory; so the run without the
resets starts where the last of them left the device. No invariant is proved anew for it.
-/
theorem reachable_of_flrs (h : (machine.withSteps flrStep).ReachableBy FlrInRegisters d) :
    machine.Reachable d := by
  refine h.of_withSteps fun s t op _ hin hst => ?_
  obtain ⟨hfresh, hflr⟩ := Option.ite_none_right_eq_some.mp hst
  obtain ⟨s₁, hinitiate, hup⟩ := bind_eq_ok (toOption_eq_some hflr)
  obtain ⟨s₂, hreset, hinit, _, _, hallocated⟩ := (initiateFlr_spec hinitiate).1.eq_reset op.2
  have hfresh₂ : s₂.Fresh [op.2.asqMem, op.2.acqMem] := by
    unfold Fresh
    rw [hallocated]
    exact hfresh
  have hok : s₂.reset op.2 = .ok t := hreset.trans hup
  refine (Machine.Reachable.start (hinit hin)).next (a := .reset op.2) ?_
  exact Option.ite_none_right_eq_some.mpr ⟨hfresh₂, by rw [hok]; rfl⟩

theorem reachable_of_flrs_blank : ∃ d d', blank.reset (fourEntries 0x1000 0x2000) = .ok d
    ∧ flrStep d ([], fourEntries 0x3000 0x4000) = some d' ∧ machine.Reachable d' := by
  have hok : (blank.reset (fourEntries 0x1000 0x2000)).toOption.map (fun d =>
      (flrStep d ([], fourEntries 0x3000 0x4000)).isSome) = some true := by decide +kernel
  obtain ⟨d, hd, hnext⟩ := Option.map_eq_some_iff.mp hok
  obtain ⟨d', hd'⟩ := Option.isSome_iff_exists.mp hnext
  have hreset := toOption_eq_some hd
  have hfresh : blank.Fresh [0x1000, 0x2000] := by decide
  have hstep : (machine.withSteps flrStep).step blank (.inl (.reset (fourEntries 0x1000 0x2000)))
      = some d := Option.ite_none_right_eq_some.mpr ⟨hfresh, hd⟩
  have hin : blank.InRegisters := fun _ _ => ⟨rfl, rfl⟩
  have hr : (machine.withSteps flrStep).ReachableBy FlrInRegisters d :=
    .tail (a := .inl (.reset (fourEntries 0x1000 0x2000))) (.init init_blank) trivial hstep
  exact ⟨d, d', hreset, hd', reachable_of_flrs (.tail (a := .inr ([], fourEntries 0x3000 0x4000)) hr
    (hin.reset hreset) hd')⟩

end GenericNVMeNVSimDevice

end LoneNvme
