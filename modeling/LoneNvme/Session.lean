import LoneNvme.ReadWrite
import LoneNvme.SimFrame

/-!
# One command after the other

A session of a host with the simulated controller: commands on the admin queue and on IO
queues, each sent and waited for on queues that are idle otherwise, and in between
whatever the host does to its own memory. The queues are idle again after every command.

The invariant is `Idle`, and every kind of operation keeps it; `Synced` is what one command
leaves. `Core` is the controller apart from its queues and from memory. The handlers are gone
through once for what they do to it, and what a session says about the controller's own state
is said about `Core`.
-/

namespace LoneNvme

open Lib

namespace RingsConfig

/-- Queues that can hold an entry, heads that fit their field, and the admin pair. -/
structure Operable (cfg : RingsConfig) : Prop where
  usable : cfg.Usable
  headsFit : cfg.HeadsFit
  admin : 0 ∈ cfg.sqs
  adminCq : cfg.cqOf 0 = 0

end RingsConfig

/-- What a namespace is, whatever is stored in it. -/
def NVSimNamespace.description (ns : NVSimNamespace) : Nat × Nat × List (BitVec 8) :=
  (ns.blockSize, ns.numLbas, ns.idNsData)

namespace NVSim

/-! ## What a command leaves of the controller -/

/-- A controller apart from its queues and from memory. -/
structure Core where
  namespaces : List NVSimNamespace
  idCtrlData : List (BitVec 8)
  idNsListData : List (BitVec 8)
  idUuidListData : List (BitVec 8)
  powerState : BitVec 4

def core (nvsim : NVSim) : Core :=
  ⟨nvsim.namespaces, nvsim.idCtrlData, nvsim.idNsListData, nvsim.idUuidListData, nvsim.powerState⟩

/-- Set Features of power management. -/
def SetsPowerState (command : Generic) : Prop :=
  command.OPC = SetFeature.OPC ∧ SetFeature.FID command = FeaturePowerManagement.fid

instance (command : Generic) : Decidable (SetsPowerState command) :=
  inferInstanceAs (Decidable (_ ∧ _))

section

variable {nvsim nvsim' : NVSim} {command : Generic} {i c : Nat}

theorem complete_core {cid : BitVec 16} {statusCode : Nat} {cmdSpec : BitVec 32}
    (h : nvsim.complete cid i c statusCode cmdSpec = .ok nvsim') : nvsim'.core = nvsim.core := by
  unfold complete at h
  split at h
  · rw [← Except.ok.inj h]
    rfl
  · exact absurd h (by simp)

theorem transferNamespace_spec {ns : NVSimNamespace} (h : nvsim.transferNamespace command = .ok ns) :
    nvsim.namespaces[command.NSID.toNat - 1]? = some ns := by
  unfold transferNamespace at h
  obtain ⟨found, hfound, h⟩ := bind_eq_ok h
  cases found with
  | none => exact absurd h (by simp)
  | some ns' =>
      rw [← Except.ok.inj h]
      exact (namespaceAt_iff.mp hfound).2

/-- **An IO command** changes nothing but what is stored in the namespaces. -/
theorem nvmCmdHandler_core {opc : BitVec 8} (h : nvmCmdHandler opc nvsim command i c = .ok nvsim') :
    ∃ namespaces, nvsim'.core = { nvsim.core with namespaces }
      ∧ namespaces.map NVSimNamespace.description
        = nvsim.namespaces.map NVSimNamespace.description := by
  unfold nvmCmdHandler at h
  split at h
  · unfold NVSimWrite at h
    obtain ⟨ns, hns, h⟩ := bind_eq_ok h
    dsimp only at h
    split at h
    · exact ⟨nvsim.namespaces, complete_core h, rfl⟩
    · obtain ⟨prp, _, h⟩ := bind_eq_ok h
      obtain ⟨ns', hwrite, h⟩ := bind_eq_ok h
      refine ⟨nvsim.namespaces.set (command.NSID.toNat - 1) ns', (complete_core h).trans rfl, ?_⟩
      -- the namespace written to is what it was
      unfold NVSimNamespace.write at hwrite
      obtain ⟨data, _, hwrite⟩ := bind_eq_ok hwrite
      unfold NVSimNamespace.setSlice at hwrite
      split at hwrite
      · have hsame : ns'.description = ns.description := by
          rw [← Except.ok.inj hwrite]
          rfl
        have hget : (nvsim.namespaces.map NVSimNamespace.description)[command.NSID.toNat - 1]?
            = some ns.description := by
          rw [List.getElem?_map, transferNamespace_spec hns]
          rfl
        obtain ⟨hlt, hget⟩ := List.getElem?_eq_some_iff.mp hget
        rw [List.map_set, hsame, ← hget, List.set_getElem_self]
      · exact absurd hwrite (by simp)
  split at h
  · unfold NVSimRead at h
    obtain ⟨ns, _, h⟩ := bind_eq_ok h
    dsimp only at h
    split at h
    · exact ⟨nvsim.namespaces, complete_core h, rfl⟩
    · obtain ⟨prp, _, h⟩ := bind_eq_ok h
      obtain ⟨mem, _, h⟩ := bind_eq_ok h
      exact ⟨nvsim.namespaces, (complete_core h).trans rfl, rfl⟩
  split at h
  · unfold NVSimFlush at h
    dsimp only at h
    split at h <;> exact ⟨nvsim.namespaces, complete_core h, rfl⟩
  · exact ⟨nvsim.namespaces, complete_core h, rfl⟩

/-- **An admin command** changes nothing but the power state, if it is the command to set it. -/
theorem adminCmdHandler_core (h : adminCmdHandler command.OPC nvsim command i c = .ok nvsim') :
    nvsim'.core = if SetsPowerState command then
        { nvsim.core with powerState := FeaturePowerManagement.PS command }
      else nvsim.core := by
  -- only `Set Features` of the power state writes to the core
  by_cases hset : command.OPC = SetFeature.OPC
  · unfold adminCmdHandler at h
    rw [hset] at h
    change nvsim.NVSimSetFeature command i c = .ok nvsim' at h
    unfold NVSimSetFeature at h
    split at h
    · rename_i hfid
      obtain ⟨_, _, h⟩ := bind_eq_ok h
      rw [if_pos ⟨hset, hfid⟩]
      exact complete_core h
    · exact absurd h (by simp)
  · -- every other handler changes memory, queues or nothing, and completes
    rw [if_neg fun hs => hset hs.1]
    unfold adminCmdHandler at h
    split at h
    · unfold NVSimIdentify at h
      obtain ⟨prp, _, h⟩ := bind_eq_ok h
      split at h
      · obtain ⟨mem, _, h⟩ := bind_eq_ok h
        exact (complete_core h).trans rfl
      · exact complete_core h
    split at h
    · unfold NVSimCreateIOCompletionQueue at h
      split at h
      · exact complete_core h
      · exact (complete_core h).trans rfl
    split at h
    · unfold NVSimCreateIOSubmissionQueue at h
      dsimp only at h
      split at h
      · exact (complete_core h).trans rfl
      · exact (complete_core h).trans rfl
    split at h
    · unfold NVSimDeleteIOCompletionQueue at h
      obtain ⟨_, _, h⟩ := bind_eq_ok h
      obtain ⟨queueMgr, _, h⟩ := bind_eq_ok h
      exact (complete_core h).trans rfl
    split at h
    · unfold NVSimDeleteIOSubmissionQueue at h
      obtain ⟨_, _, h⟩ := bind_eq_ok h
      obtain ⟨queueMgr, _, h⟩ := bind_eq_ok h
      exact (complete_core h).trans rfl
    split at h
    · unfold NVSimGetLogPage at h
      split at h
      · split at h
        · exact absurd h (by simp)
        · exact complete_core h
      · exact complete_core h
    split at h
    · exact absurd h (by simp [NVSimFormat])
    split at h
    · unfold NVSimGetFeature at h
      split at h
      · exact complete_core h
      · exact absurd h (by simp)
    · exact complete_core h

end

/-! ## The session -/

/-- What a host does in a session. -/
inductive SessionOp where
  /-- `sync_cmd` of an admin command that is not about queues. -/
  | admin (command : Generic)
  /-- `sync_cmd` of an IO command on the submission queue `i`. -/
  | io (i : Nat) (command : Generic)
  /-- The host's own reads and writes, and its memory manager. -/
  | memory (mem : Mem)

variable {cfg : RingsConfig} {nvsim nvsim' : NVSim} {i : Nat} {command : Generic}

/-- The queues are as they should be, and nothing is in them. -/
structure Idle (cfg : RingsConfig) (nvsim : NVSim) : Prop where
  rings : nvsim.rings.Inv cfg
  idle : nvsim.rings.Idle cfg

def sessionStep (cfg : RingsConfig) (nvsim : NVSim) : SessionOp → Option NVSim
  | .admin command =>
      if GenericNVMeNVSimDevice.IsQueueCommand command then none
      else (nvsim.syncCmd adminCmdHandler 0 0 command).toOption.map Prod.fst
  | .io i command =>
      if i ∈ cfg.sqs ∧ i ≠ 0 then
        (nvsim.syncCmd nvmCmdHandler i (cfg.cqOf i) command).toOption.map Prod.fst
      else none
  | .memory mem => some { nvsim with mem }

def session (cfg : RingsConfig) : Machine NVSim SessionOp :=
  ⟨fun nvsim => Rings.Init cfg nvsim.rings, sessionStep cfg⟩

theorem idle_init (h : Rings.Init cfg nvsim.rings) : Idle cfg nvsim where
  rings := Rings.inv_init h
  idle i _ := by rw [(h.posted i).1, (h.posted i).2.2]; rfl

theorem with_rings {data : NVSim} {rings : Rings} (h : data.rings = rings) :
    { data with rings } = data := by
  subst h
  rfl

/-- A command that was answered: what its handler did, and what the caller got. -/
structure Synced (cfg : RingsConfig)
    (handlers : BitVec 8 → NVSim → Generic → Nat → Nat → Except Exc NVSim) (nvsim nvsim' : NVSim)
    (i : Nat) (command : Generic) (cqe : CQE) : Prop where
  idle : Idle cfg nvsim'
  cid : cqe.CID = command.CID
  handled : ∃ rings data after statusCode cmdSpec, Moved { nvsim with rings } data
    ∧ handlers command.OPC { nvsim with rings } command i (cfg.cqOf i) = .ok after
    ∧ data.complete command.CID i (cfg.cqOf i) statusCode cmdSpec = .ok after
    ∧ nvsim' = { data with rings := nvsim'.rings }
    ∧ cqe.SF.SC = BitVec.ofNat 8 statusCode ∧ cqe.CMD_SPEC = cmdSpec ∧ cqe.SF.SCT = 0

section

variable {handlers : BitVec 8 → NVSim → Generic → Nat → Nat → Except Exc NVSim}

/-- Nothing but the handler changes what a controller keeps. -/
theorem Synced.core_eq {cqe : CQE} (h : Synced cfg handlers nvsim nvsim' i command cqe) :
    ∃ rings after, handlers command.OPC { nvsim with rings } command i (cfg.cqOf i) = .ok after
      ∧ nvsim'.core = after.core := by
  obtain ⟨rings, data, after, statusCode, cmdSpec, _, hafter, hdata, hsame, _⟩ := h.handled
  refine ⟨rings, after, hafter, ?_⟩
  rw [hsame]
  exact (complete_core hdata).symm

/-- **Whatever `sync_cmd` returns is the answer of the handler.** -/
theorem Idle.synced_of_ok (hcfg : cfg.Operable) (h : Idle cfg nvsim) (hi : i ∈ cfg.sqs)
    (hcompletes : ∀ rings after,
      handlers command.OPC { nvsim with rings } command i (cfg.cqOf i) = .ok after →
        Completes { nvsim with rings } command i (cfg.cqOf i) after) {cqe : CQE}
    (hok : nvsim.syncCmd handlers i (cfg.cqOf i) command = .ok (nvsim', cqe)) :
    Synced cfg handlers nvsim nvsim' i command cqe := by
  obtain ⟨rings, hreturns, hanswer⟩ := @syncCmd_answer cfg nvsim i handlers h.idle hcfg.usable
    hcfg.headsFit h.rings hi command
  obtain ⟨after, hafter⟩ := hreturns _ hok
  obtain ⟨data, statusCode, cmdSpec, hmoved, hdata⟩ := hcompletes rings after hafter
  have hsame : { data with rings } = data := with_rings hmoved.rings
  obtain ⟨rings', cqe', hsync, hinv, hidle, hcid, hsc, hspec, hsct⟩ := hanswer data statusCode cmdSpec
    (by rw [hsame, hdata]; exact hafter)
  obtain ⟨rfl, rfl⟩ := Prod.mk.inj (Except.ok.inj (hsync.symm.trans hok))
  exact ⟨⟨hinv, hidle⟩, hcid, rings, data, after, statusCode, cmdSpec, hmoved, hafter, hdata, rfl,
    hsc, hspec, hsct⟩

end

/-- What an admin command that returns was. -/
theorem Idle.admin_synced (hcfg : cfg.Operable) (h : Idle cfg nvsim) {w : NVSim}
    (hs : sessionStep cfg nvsim (.admin command) = some w) :
    ∃ cqe, Synced cfg adminCmdHandler nvsim w 0 command cqe := by
  obtain ⟨hother, hsync⟩ := Option.ite_none_left_eq_some.mp hs
  obtain ⟨⟨w', cqe⟩, hok, rfl⟩ := Option.map_eq_some_iff.mp hsync
  have hok' : nvsim.syncCmd adminCmdHandler 0 (cfg.cqOf 0) command = .ok (w', cqe) := by
    rw [hcfg.adminCq]
    exact toOption_eq_some hok
  exact ⟨cqe, h.synced_of_ok hcfg hcfg.admin (fun _ _ => adminCmdHandler_completes hother) hok'⟩

theorem Idle.io_synced (hcfg : cfg.Operable) (h : Idle cfg nvsim) {w : NVSim}
    (hs : sessionStep cfg nvsim (.io i command) = some w) :
    ∃ cqe, Synced cfg nvmCmdHandler nvsim w i command cqe := by
  obtain ⟨⟨hi, _⟩, hsync⟩ := Option.ite_none_right_eq_some.mp hs
  obtain ⟨⟨w', cqe⟩, hok, rfl⟩ := Option.map_eq_some_iff.mp hsync
  exact ⟨cqe, h.synced_of_ok hcfg hi (fun _ _ => nvmCmdHandler_completes) (toOption_eq_some hok)⟩

/-- **The queues are idle after every operation.** -/
theorem Idle.step (hcfg : cfg.Operable) (h : Idle cfg nvsim) {op : SessionOp}
    (hs : sessionStep cfg nvsim op = some nvsim') : Idle cfg nvsim' := by
  cases op with
  | admin command =>
      obtain ⟨_, hsynced⟩ := h.admin_synced hcfg hs
      exact hsynced.idle
  | io i command =>
      obtain ⟨_, hsynced⟩ := h.io_synced hcfg hs
      exact hsynced.idle
  | memory mem =>
      rw [← Option.some.inj hs]
      exact ⟨h.rings, h.idle⟩

theorem idle_reachable (hcfg : cfg.Operable) (h : (session cfg).Reachable nvsim) : Idle cfg nvsim :=
  h.invariant (fun _ => idle_init) fun _ _ _ _ hi hs => hi.step hcfg hs

/-! ### An admin pair and an IO pair -/

def twoPairs : RingsConfig where
  sqs := {0, 1}
  cqOf i := i
  sqEntries _ := 4
  cqEntries _ := 4
  sqBase i := i
  cqBase c := c
  sqEntries_pos := by decide
  cqEntries_pos := by decide
  sqEntries_le := by decide
  cqEntries_le := by decide
  sqid_lt := by decide
  sqBase_inj := by decide
  cqBase_inj := by decide

theorem operable_twoPairs : twoPairs.Operable := ⟨by decide, by decide, by decide, rfl⟩

/-- A controller without namespaces, nothing sent yet. -/
def sessionStart : NVSim where
  rings := Rings.start twoPairs
  mem := fun _ => 0
  namespaces := []

theorem reachable_sessionStart : (session twoPairs).Reachable sessionStart :=
  Machine.Reachable.start (Rings.init_start twoPairs)

end NVSim

end LoneNvme
