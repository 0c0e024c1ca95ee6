import LoneNvme.Features
import LoneNvme.Session

/-!
# Power states

The host asks for a power state with a set command, and for the current one with a get
command. In between it may send what it likes, on the admin queue and on IO queues, one
command after the other: the controller keeps the power state until it is set again.

`powerStateAfter` is the abstract controller, a function of a state and a command. The handlers
refine it (`adminCmdHandler_powerState`), a session does so by induction, and the two commands
at its ends are read on the wire, through the classes that the host uses to build and to read
them.
-/

namespace LoneNvme

open Lib

/-! ## The classes in use -/

/-- `FeatureGeneric`, which `GetFeature` and `SetFeature` are made of. -/
def FeatureGeneric.info : FeatureInfo where
  name := "FeatureGeneric"
  fid := 0x00
  fields := [⟨"RSVD_0", 4, none⟩]
  getFields := [⟨"DW11", 4, none⟩, ⟨"DW12", 4, none⟩, ⟨"DW13", 4, none⟩]
  setFields := [⟨"DW12", 4, none⟩, ⟨"DW13", 4, none⟩]
  valid := by decide

/-- `FeatureArbitration`. -/
def FeatureArbitration.info : FeatureInfo where
  name := "FeatureArbitration"
  fid := 0x01
  fields := [⟨"AB", 4, some 3⟩, ⟨"RSVD_0", 4, some 5⟩, ⟨"LPW", 4, some 8⟩, ⟨"MPW", 4, some 8⟩,
    ⟨"HPW", 4, some 8⟩]
  getFields := [⟨"DW11", 4, none⟩, ⟨"DW12", 4, none⟩, ⟨"DW13", 4, none⟩]
  setFields := [⟨"DW12", 4, none⟩, ⟨"DW13", 4, none⟩]
  valid := by decide

/-- `FeaturePowerManagement`. -/
def FeaturePowerManagement.info : FeatureInfo where
  name := "FeaturePowerManagement"
  fid := 0x02
  fields := [⟨"PS", 4, some 4⟩, ⟨"WH", 4, some 3⟩, ⟨"RSVD_0", 4, some 25⟩]
  getFields := [⟨"DW11", 4, none⟩, ⟨"DW12", 4, none⟩, ⟨"DW13", 4, none⟩]
  setFields := [⟨"DW12", 4, none⟩, ⟨"DW13", 4, none⟩]
  valid := by decide

/-- Weights above a byte are cut. -/
theorem FeatureInfo.response_roundTrip_arbitration : ∃ cqe : CQE,
    cqe.CMD_SPEC = (Generic.codec.decode
      (FeatureArbitration.info.setCls.new [("AB", 5), ("LPW", 300)]).buffer).DW11
    ∧ RegsStructAccess.objectGetattribute (FeatureArbitration.info.response cqe).1
      (FeatureArbitration.info.response cqe).2 "LPW" = .ok 44 :=
  ⟨{ CMD_SPEC := (Generic.codec.decode
      (FeatureArbitration.info.setCls.new [("AB", 5), ("LPW", 300)]).buffer).DW11 }, rfl,
    @FeatureInfo.response_roundTrip FeatureArbitration.info (by decide) "LPW" _ rfl (by decide)
      [("AB", 5), ("LPW", 300)] _ rfl⟩

/-! ## Their commands -/

/-- The fields of the classes that the host sets, and that the handlers read through a cast. -/
def featureViews : List View :=
  [⟨FeatureGeneric.info.getCls.cls, "FID", fun c => (GetFeature.FID c).toNat⟩,
    ⟨FeatureGeneric.info.setCls.cls, "FID", fun c => (SetFeature.FID c).toNat⟩,
    ⟨FeaturePowerManagement.info.getCls.cls, "FID", fun c => (GetFeature.FID c).toNat⟩,
    ⟨FeaturePowerManagement.info.setCls.cls, "FID", fun c => (SetFeature.FID c).toNat⟩,
    ⟨FeaturePowerManagement.info.setCls.cls, "SV", fun c => (SetFeature.SV c).toNat⟩,
    ⟨FeaturePowerManagement.info.setCls.cls, "PS", fun c => (FeaturePowerManagement.PS c).toNat⟩,
    ⟨FeaturePowerManagement.info.getCls.cls, "OPC", fun c => (c.OPC.extractLsb' 0 8).toNat⟩,
    ⟨FeaturePowerManagement.info.setCls.cls, "OPC", fun c => (c.OPC.extractLsb' 0 8).toNat⟩]

theorem featureViews_agree : ∀ v ∈ featureViews, v.Agrees := by
  have hopc : ∀ g : Generic, g.values[0]? = some g.OPC.toNat := fun _ => rfl
  have hdw10 : ∀ g : Generic, g.values[11]? = some g.DW10.toNat := fun _ => rfl
  have hdw11 : ∀ g : Generic, g.values[12]? = some g.DW11.toNat := fun _ => rfl
  simp only [featureViews, List.forall_mem_cons]
  refine ⟨?_, ?_, ?_, ?_, ?_, ?_, ?_, ?_, by simp⟩
  · exact View.agrees_inside (by decide) rfl rfl hdw10 (fun _ => rfl) rfl rfl (by decide)
  · exact View.agrees_inside (by decide) rfl rfl hdw10 (fun _ => rfl) rfl rfl (by decide)
  · exact View.agrees_inside (by decide) rfl rfl hdw10 (fun _ => rfl) rfl rfl (by decide)
  · exact View.agrees_inside (by decide) rfl rfl hdw10 (fun _ => rfl) rfl rfl (by decide)
  · exact View.agrees_inside (by decide) rfl rfl hdw10 (fun _ => rfl) rfl rfl (by decide)
  · exact View.agrees_inside (by decide) rfl rfl hdw11 (fun _ => rfl) rfl rfl (by decide)
  · exact View.agrees_inside (by decide) rfl rfl hopc (fun _ => rfl) rfl rfl (by decide)
  · exact View.agrees_inside (by decide) rfl rfl hopc (fun _ => rfl) rfl rfl (by decide)

/-- **What a command made of keyword arguments carries** in a field. -/
theorem View.value_new {v : View} (h : v.Agrees) {c : CommandClass} (hc : c.cls = v.cls)
    (hunits : c.cls.OwnUnits) (hsize : c.cls.size = 64) {p : Placed} (hp : v.cls.attr v.name = some p)
    (kwargs : List (String × Int)) : v.value (Generic.codec.decode (c.new kwargs).buffer)
      = (lastValue v.name (c.defaults.entries ++ kwargs)).elim 0
          fun x => (x % 2 ^ p.decl.width).toNat := by
  obtain ⟨q, hq, hvalue⟩ := h
  have hpq : p = q := Option.some.inj (hp.symm.trans hq)
  rw [← hc] at hp
  have hbytes : Generic.codec.encode (Generic.codec.decode (c.new kwargs).buffer)
      = (c.new kwargs).buffer :=
    Generic.codec.encode_decode _ ((c.length_new hunits kwargs).trans hsize)
  rw [← hvalue, hbytes, ← hpq]
  exact c.get_new hunits hp kwargs

/-- `GetFeaturePowerManagement()`, once it has an id. -/
def GetFeaturePowerManagement.command (cid : BitVec 16) : Generic :=
  { Generic.codec.decode (FeaturePowerManagement.info.getCls.new []).buffer with CID := cid }

/-- `SetFeaturePowerManagement(PS=ps, SV=sv)`. -/
def SetFeaturePowerManagement.command (ps sv : Int) (cid : BitVec 16) : Generic :=
  { Generic.codec.decode
      (FeaturePowerManagement.info.setCls.new [("PS", ps), ("SV", sv)]).buffer with CID := cid }

theorem GetFeaturePowerManagement.command_spec (cid : BitVec 16) :
    (GetFeaturePowerManagement.command cid).OPC = GetFeature.OPC
      ∧ GetFeature.FID (GetFeaturePowerManagement.command cid) = FeaturePowerManagement.fid := by
  have hopc := View.value_new (featureViews_agree ⟨FeaturePowerManagement.info.getCls.cls, "OPC",
    fun c => (c.OPC.extractLsb' 0 8).toNat⟩ (by simp [featureViews])) rfl FeatureInfo.ownUnits_getCls
    (by decide) rfl []
  have hfid := View.value_new (featureViews_agree ⟨FeaturePowerManagement.info.getCls.cls, "FID",
    fun c => (GetFeature.FID c).toNat⟩ (by simp [featureViews])) rfl FeatureInfo.ownUnits_getCls
    (by decide) rfl []
  dsimp only at hopc hfid
  rw [BitVec.extractLsb'_eq_self] at hopc
  exact ⟨BitVec.eq_of_toNat_eq hopc, BitVec.eq_of_toNat_eq hfid⟩

/-- The set command carries what the caller asked for, cut to the widths of the fields. -/
theorem SetFeaturePowerManagement.command_spec (ps sv : Int) (cid : BitVec 16) :
    (SetFeaturePowerManagement.command ps sv cid).OPC = SetFeature.OPC
      ∧ SetFeature.FID (SetFeaturePowerManagement.command ps sv cid) = FeaturePowerManagement.fid
      ∧ SetFeature.SV (SetFeaturePowerManagement.command ps sv cid) = BitVec.ofInt 1 sv
      ∧ FeaturePowerManagement.PS (SetFeaturePowerManagement.command ps sv cid)
        = BitVec.ofInt 4 ps := by
  -- the fields of the command that was built, read where the handler reads them
  have hopc := View.value_new (featureViews_agree ⟨FeaturePowerManagement.info.setCls.cls, "OPC",
    fun c => (c.OPC.extractLsb' 0 8).toNat⟩ (by simp [featureViews])) rfl FeatureInfo.ownUnits_setCls
    (by decide) rfl
    [("PS", ps), ("SV", sv)]
  have hfid := View.value_new (featureViews_agree ⟨FeaturePowerManagement.info.setCls.cls, "FID",
    fun c => (SetFeature.FID c).toNat⟩ (by simp [featureViews])) rfl FeatureInfo.ownUnits_setCls
    (by decide) rfl
    [("PS", ps), ("SV", sv)]
  have hsv := View.value_new (featureViews_agree ⟨FeaturePowerManagement.info.setCls.cls, "SV",
    fun c => (SetFeature.SV c).toNat⟩ (by simp [featureViews])) rfl FeatureInfo.ownUnits_setCls
    (by decide) rfl
    [("PS", ps), ("SV", sv)]
  have hps := View.value_new (featureViews_agree ⟨FeaturePowerManagement.info.setCls.cls, "PS",
    fun c => (FeaturePowerManagement.PS c).toNat⟩ (by simp [featureViews])) rfl FeatureInfo.ownUnits_setCls
    (by decide) rfl
    [("PS", ps), ("SV", sv)]
  dsimp only at hopc hfid
  rw [BitVec.extractLsb'_eq_self] at hopc
  exact ⟨BitVec.eq_of_toNat_eq hopc, BitVec.eq_of_toNat_eq hfid,
    BitVec.eq_of_toNat_eq (hsv.trans (BitVec.toNat_ofInt sv).symm),
    BitVec.eq_of_toNat_eq (hps.trans (BitVec.toNat_ofInt ps).symm)⟩

/-! ## What changes the power state -/

namespace NVSim

variable {cfg : RingsConfig} {nvsim nvsim' : NVSim} {command : Generic} {i c : Nat}

/-- The power state after a command that was handled. -/
def powerStateAfter (ps : BitVec 4) (command : Generic) : BitVec 4 :=
  if SetsPowerState command then FeaturePowerManagement.PS command else ps

/-- **Of the admin commands one alone changes it.** -/
theorem adminCmdHandler_powerState (h : adminCmdHandler command.OPC nvsim command i c = .ok nvsim') :
    nvsim'.powerState = powerStateAfter nvsim.powerState command := by
  have hcore := congrArg Core.powerState (adminCmdHandler_core h)
  unfold powerStateAfter
  by_cases hset : SetsPowerState command
  · rw [if_pos hset] at hcore ⊢
    exact hcore
  · rw [if_neg hset] at hcore ⊢
    exact hcore

/-- What an operation of a session makes of the power state. -/
def SessionOp.powerStateAfter (ps : BitVec 4) : SessionOp → BitVec 4
  | .admin command => NVSim.powerStateAfter ps command
  | .io _ _ => ps
  | .memory _ => ps

/-- Anything but setting the power state. -/
def SessionOp.Other : SessionOp → Prop
  | .admin command => ¬ SetsPowerState command
  | .io _ _ => True
  | .memory _ => True

theorem SessionOp.Other.powerStateAfter {op : SessionOp} (h : op.Other) (ps : BitVec 4) :
    op.powerStateAfter ps = ps := by
  cases op with
  | admin command => exact if_neg h
  | io _ _ => rfl
  | memory _ => rfl

theorem Synced.powerState
    {handlers : BitVec 8 → NVSim → Generic → Nat → Nat → Except Exc NVSim} {cqe : CQE}
    {f : BitVec 4 → BitVec 4} (h : Synced cfg handlers nvsim nvsim' i command cqe)
    (hf : ∀ w w', handlers command.OPC w command i (cfg.cqOf i) = .ok w' →
      w'.powerState = f w.powerState) : nvsim'.powerState = f nvsim.powerState := by
  obtain ⟨rings, after, hafter, hcore⟩ := h.core_eq
  exact (congrArg Core.powerState hcore).trans (hf { nvsim with rings } after hafter)

/-- **After any session the power state is the last one that was set.** -/
theorem Idle.run_powerState (hcfg : cfg.Operable) (h : Idle cfg nvsim) (ops : List SessionOp)
    (hrun : (session cfg).run nvsim ops = some nvsim') :
    Idle cfg nvsim' ∧ nvsim'.powerState = ops.foldl SessionOp.powerStateAfter nvsim.powerState := by
  refine Machine.run_observed (fun s t op hs hst => ⟨hs.step hcfg hst, ?_⟩) h ops hrun
  cases op with
  | admin command =>
      obtain ⟨cqe, hsynced⟩ := hs.admin_synced hcfg hst
      exact hsynced.powerState fun _ _ => adminCmdHandler_powerState
  | io j command =>
      obtain ⟨cqe, hsynced⟩ := hs.io_synced hcfg hst
      refine hsynced.powerState (f := id) fun w w' hw => ?_
      obtain ⟨namespaces, hcore, _⟩ := nvmCmdHandler_core hw
      exact congrArg Core.powerState hcore
  | memory mem =>
      rw [← Option.some.inj hst]
      rfl

/-! ## Set, and get later -/

/-- The completion of command `cid`, with the generic status of success. -/
structure Succeeds (cqe : CQE) (cid : BitVec 16) : Prop where
  cid : cqe.CID = cid
  status : cqe.SF.SC = BitVec.ofNat 8 StatusCodes.successfulCompletion
  statusType : cqe.SF.SCT = 0

/-- What the host reads of the answer to a get command. -/
structure ShowsPowerState (cqe : CQE) (cid : BitVec 16) (ps : Int) : Prop extends
    Succeeds cqe cid where
  ps : RegsStructAccess.objectGetattribute (FeaturePowerManagement.info.response cqe).1
    (FeaturePowerManagement.info.response cqe).2 "PS" = .ok ps
  /-- No workload hint is ever kept. -/
  wh : RegsStructAccess.objectGetattribute (FeaturePowerManagement.info.response cqe).1
    (FeaturePowerManagement.info.response cqe).2 "WH" = .ok 0

/-- The answer to a get command, decoded. -/
theorem showsPowerState {cqe : CQE} {cid : BitVec 16} {ps : BitVec 4}
    (hsucceeds : Succeeds cqe cid) (hspec : cqe.CMD_SPEC = ps.setWidth 32) :
    ShowsPowerState cqe cid ps.toNat := by
  have hfits : FeaturePowerManagement.info.Fits := by decide
  obtain ⟨p, hp⟩ : ∃ p, FeaturePowerManagement.info.cls.attr "PS" = some p := ⟨_, rfl⟩
  obtain ⟨q, hq⟩ : ∃ q, FeaturePowerManagement.info.cls.attr "WH" = some q := ⟨_, rfl⟩
  have hps := FeatureInfo.get_response hfits hp cqe
  have hwh := FeatureInfo.get_response hfits hq cqe
  have hlt := ps.isLt
  have hvalue : cqe.CMD_SPEC.toNat = ps.toNat := by
    rw [hspec, BitVec.toNat_setWidth]
    omega
  rw [hvalue] at hps hwh
  cases hp
  cases hq
  refine ⟨hsucceeds, ?_, ?_⟩
  · refine congrArg (fun n : Nat => Except.ok (n : Int)) (hps.trans ?_)
    show (ps.toNat >>> 0) % 2 ^ 4 = ps.toNat
    rw [Nat.shiftRight_zero, Nat.mod_eq_of_lt hlt]
  · refine congrArg (fun n : Nat => Except.ok (n : Int)) (hwh.trans ?_)
    show (ps.toNat >>> 4) % 2 ^ 3 = 0
    rw [Nat.shiftRight_eq_div_pow, Nat.div_eq_of_lt hlt, Nat.zero_mod]

/-- **A get command is always answered**, with the power state there is. -/
theorem Idle.getPowerState (hcfg : cfg.Operable) (h : Idle cfg nvsim) (cid : BitVec 16) :
    ∃ nvsim' cqe, nvsim.syncCmd adminCmdHandler 0 0 (GetFeaturePowerManagement.command cid)
        = .ok (nvsim', cqe) ∧ ShowsPowerState cqe cid nvsim.powerState.toNat := by
  obtain ⟨hopc, hfid⟩ := GetFeaturePowerManagement.command_spec cid
  have hhandler : ∀ w : NVSim, adminCmdHandler (GetFeaturePowerManagement.command cid).OPC w
      (GetFeaturePowerManagement.command cid) 0 (cfg.cqOf 0)
        = w.complete cid 0 (cfg.cqOf 0) StatusCodes.successfulCompletion
            (w.powerState.setWidth 32) := fun w => by
    rw [hopc]
    show w.NVSimGetFeature (GetFeaturePowerManagement.command cid) 0 (cfg.cqOf 0) = _
    unfold NVSimGetFeature
    rw [if_pos hfid]
    rfl
  obtain ⟨rings, _, hanswer⟩ := @syncCmd_answer cfg nvsim 0 adminCmdHandler h.idle hcfg.usable
    hcfg.headsFit h.rings hcfg.admin (GetFeaturePowerManagement.command cid)
  obtain ⟨rings', cqe, hsync, _, _, hcid, hsc, hspec, hsct⟩ := hanswer nvsim _ _ (hhandler _)
  rw [hcfg.adminCq] at hsync
  exact ⟨_, cqe, hsync, showsPowerState ⟨hcid, hsc, hsct⟩ hspec⟩

/-- A set command that is not to be saved is always done. -/
theorem Idle.setPowerState (hcfg : cfg.Operable) (h : Idle cfg nvsim) (ps : Int) {sv : Int}
    (hsv : sv % 2 = 0) (cid : BitVec 16) : ∃ set answer,
      nvsim.syncCmd adminCmdHandler 0 0 (SetFeaturePowerManagement.command ps sv cid)
          = .ok (set, answer)
        ∧ Succeeds answer cid ∧ Idle cfg set ∧ set.powerState = BitVec.ofInt 4 ps := by
  obtain ⟨hopc, hfid, hsvBit, hps⟩ := SetFeaturePowerManagement.command_spec ps sv cid
  have hunsaved : SetFeature.SV (SetFeaturePowerManagement.command ps sv cid) = 0 := by
    rw [hsvBit]
    refine BitVec.eq_of_toNat_eq ?_
    rw [BitVec.toNat_ofInt]
    show (sv % 2 ^ 1).toNat = 0
    omega
  -- the handler does not save, and sets the power state before it answers
  have hhandler : ∀ w : NVSim, adminCmdHandler (SetFeaturePowerManagement.command ps sv cid).OPC w
      (SetFeaturePowerManagement.command ps sv cid) 0 (cfg.cqOf 0)
        = { w with powerState := BitVec.ofInt 4 ps }.complete cid 0 (cfg.cqOf 0)
            StatusCodes.successfulCompletion := fun w => by
    rw [hopc]
    show w.NVSimSetFeature (SetFeaturePowerManagement.command ps sv cid) 0 (cfg.cqOf 0) = _
    unfold NVSimSetFeature
    rw [if_pos hfid, hps, hunsaved]
    rfl
  obtain ⟨rings, _, hanswer⟩ := @syncCmd_answer cfg nvsim 0 adminCmdHandler h.idle hcfg.usable
    hcfg.headsFit h.rings hcfg.admin (SetFeaturePowerManagement.command ps sv cid)
  obtain ⟨rings', answer, hsync, hinv, hidle, hcid, hsc, _, hsct⟩ :=
    hanswer { nvsim with powerState := BitVec.ofInt 4 ps } _ _ (hhandler _)
  rw [hcfg.adminCq] at hsync
  exact ⟨_, answer, hsync, ⟨hcid, hsc, hsct⟩, ⟨hinv, hidle⟩, rfl⟩

/--
**A power state that is set is the one that is got**, whatever commands come in between: in
every session the set command succeeds, and every get command after it succeeds and is
answered with the lower four bits of what was asked for, until the power state is set again.
-/
theorem setPowerState_getPowerState (hcfg : cfg.Operable) (h : (session cfg).Reachable nvsim)
    (ps : Int) {sv : Int} (hsv : sv % 2 = 0) (cid : BitVec 16) : ∃ set answer,
    nvsim.syncCmd adminCmdHandler 0 0 (SetFeaturePowerManagement.command ps sv cid)
        = .ok (set, answer)
      ∧ Succeeds answer cid
      ∧ ∀ (ops : List SessionOp) (after : NVSim), (∀ op ∈ ops, op.Other) →
        (session cfg).run set ops = some after → ∀ cid', ∃ result cqe,
          after.syncCmd adminCmdHandler 0 0 (GetFeaturePowerManagement.command cid')
              = .ok (result, cqe) ∧ ShowsPowerState cqe cid' (ps % 16) := by
  obtain ⟨set, answer, hsync, hsucceeds, hidle, hset⟩ :=
    (idle_reachable hcfg h).setPowerState hcfg ps hsv cid
  refine ⟨set, answer, hsync, hsucceeds, fun ops after hother hrun cid' => ?_⟩
  obtain ⟨hafter, hlast⟩ := hidle.run_powerState hcfg ops hrun
  -- nothing in between sets it
  have hkept : ops.foldl SessionOp.powerStateAfter set.powerState = set.powerState := by
    clear hrun hlast
    induction ops with
    | nil => rfl
    | cons op ops ih =>
        rw [List.foldl_cons, (hother op List.mem_cons_self).powerStateAfter]
        exact ih fun o ho => hother o (List.mem_cons_of_mem _ ho)
  obtain ⟨result, cqe, hget, hshows⟩ := hafter.getPowerState hcfg cid'
  rw [hlast, hkept, hset, BitVec.toNat_ofInt, Int.toNat_of_nonneg (by omega)] at hshows
  exact ⟨result, cqe, hget, hshows⟩

/-- State 3 is asked for; a flush and an identify command come in between. -/
theorem setPowerState_getPowerState_flush : ∃ set answer after result cqe,
    sessionStart.syncCmd adminCmdHandler 0 0 (SetFeaturePowerManagement.command 3 0 7)
        = .ok (set, answer)
      ∧ Succeeds answer 7
      ∧ (session twoPairs).run set [.io 1 { OPC := Flush.OPC, NSID := 0xFFFFFFFF },
        .admin { OPC := Identify.OPC, PRP1 := 0x9000, DW10 := 0x05 }] = some after
      ∧ after.syncCmd adminCmdHandler 0 0 (GetFeaturePowerManagement.command 8) = .ok (result, cqe)
      ∧ ShowsPowerState cqe 8 3 := by
  obtain ⟨set, answer, hset, hsucceeds, hlater⟩ := setPowerState_getPowerState operable_twoPairs
    reachable_sessionStart 3 (by decide : (0 : Int) % 2 = 0) 7
  have hok : ((sessionStart.syncCmd adminCmdHandler 0 0
      (SetFeaturePowerManagement.command 3 0 7)).toOption.bind fun set =>
        (session twoPairs).run set.1 [.io 1 { OPC := Flush.OPC, NSID := 0xFFFFFFFF },
          .admin { OPC := Identify.OPC, PRP1 := 0x9000, DW10 := 0x05 }]).isSome = true := by decide +kernel
  rw [hset] at hok
  obtain ⟨after, hafter⟩ := Option.isSome_iff_exists.mp hok
  obtain ⟨result, cqe, hget, hshows⟩ := hlater _ after (by simp [SessionOp.Other, SetsPowerState,
    Identify.OPC, SetFeature.OPC]) hafter 8
  exact ⟨set, answer, after, result, cqe, hset, hsucceeds, hafter, hget, hshows⟩

end NVSim

end LoneNvme
