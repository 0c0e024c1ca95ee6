import LoneNvme.Bookkeeping

/-!
# When a CID comes round again

`CidMgr` hands out `init_value, …, max_value - 1` in turn and starts over. It does
not look at what is outstanding, so a command that stays outstanding while the
counter goes once around loses its entry in `outstanding_commands` to the next
command on its queue that gets the same CID, however few commands are outstanding.

Nothing here depends on what the device does: the completion rings may change in
any way between two calls of the host.
-/

namespace LoneNvme

open Lib

namespace CidMgr

/-- How many values there are. -/
def period (m : CidMgr) : Nat := m.maxValue - m.initValue

/-- The values fit a CID, and `value` is where that many allocations lead. -/
structure Counts (m : CidMgr) : Prop where
  lt : m.initValue < m.maxValue
  le : m.maxValue ≤ 2 ^ 16
  value : m.value = m.initValue + m.allocs % m.period

theorem Counts.alloc {m : CidMgr} (h : m.Counts) : m.alloc.2.Counts := by
  have hlt := h.lt
  have hv := h.value
  refine ⟨hlt, h.le, ?_⟩
  have hpos : 0 < m.period := Nat.sub_pos_of_lt hlt
  have hmod := Nat.mod_lt m.allocs hpos
  have hnext := Ring.next_mod hpos m.allocs
  show (if m.value + 1 ≥ m.maxValue then m.initValue else m.value + 1)
    = m.initValue + (m.allocs + 1) % m.period
  rw [← hnext, Ring.next]
  unfold period at hmod ⊢ hv
  split <;> split <;> omega

/-- Two allocations give the same CID exactly when whole rounds lie between them. -/
theorem Counts.ofNat_eq_iff {m : CidMgr} (h : m.Counts) {j : Nat} (hj : j ≤ m.allocs) :
    BitVec.ofNat 16 (m.initValue + j % m.period) = BitVec.ofNat 16 m.alloc.1
      ↔ (m.allocs - j) % m.period = 0 := by
  have hlt := h.lt
  have hle := h.le
  have hpos : 0 < m.period := Nat.sub_pos_of_lt hlt
  have h1 := Nat.mod_lt j hpos
  have h2 := Nat.mod_lt m.allocs hpos
  have hsum : m.initValue + m.period = m.maxValue := by unfold period; omega
  have hfit1 : m.initValue + j % m.period < 2 ^ 16 := by omega
  have hfit2 : m.initValue + m.allocs % m.period < 2 ^ 16 := by omega
  -- both values fit in 16 bits, so equal identifiers are equal turns
  have hone : BitVec.ofNat 16 (m.initValue + j % m.period) = BitVec.ofNat 16 m.alloc.1
      ↔ j % m.period = m.allocs % m.period := by
    show _ = BitVec.ofNat 16 m.value ↔ _
    rw [h.value]
    constructor
    · intro he
      have := congrArg BitVec.toNat he
      rw [BitVec.toNat_ofNat, BitVec.toNat_ofNat, Nat.mod_eq_of_lt hfit1,
        Nat.mod_eq_of_lt hfit2] at this
      omega
    · intro he
      rw [he]
  rw [hone]
  constructor
  · intro he
    exact Nat.sub_mod_eq_zero_of_mod_eq he.symm
  · intro he
    exact ((Nat.modEq_iff_dvd' hj).mpr (Nat.dvd_of_mod_eq_zero he))

end CidMgr

namespace NVMeDeviceCommon

/-- The calls of the host, and whatever the device writes into the completion rings. -/
inductive CidOp where
  | call (a : Op)
  | completions (cqRing : Nat → Nat → CQE)

def cidStep (cfg : RingsConfig) (d : NVMeDeviceCommon) : CidOp → Option NVMeDeviceCommon
  | .call a => step cfg d a
  | .completions cqRing => some { d with rings := { d.rings with cqRing } }

/-- A CID manager as constructed, nothing outstanding. -/
structure CidInit (d : NVMeDeviceCommon) : Prop where
  counts : d.cidMgr.Counts
  outstanding : d.outstandingCommands.entries = []
  commands : ∀ c, (d.commands c).posted = false

def cidMachine (cfg : RingsConfig) : Machine NVMeDeviceCommon CidOp := ⟨CidInit, cidStep cfg⟩

/--
If the command is posted, no command outstanding on its queue had its CID allocated
whole rounds of the counter ago.
-/
def NoLap (d : NVMeDeviceCommon) (c : Nat) (sqid cqid : Option Nat) : Prop :=
  match d.lookup c sqid cqid with
  | .ok (.queue i, _) => d.canPost c i = true → ∀ c', (d.commands c').posted = true →
      (d.commands c').home = (d.rings.hostSq i).qid →
      (d.cidMgr.allocs - (d.commands c').stamp) % d.cidMgr.period ≠ 0
  | _ => True

/-- **The invariant of the map as a map**: it holds the posted commands under their own keys. -/
structure KeyInv (d : NVMeDeviceCommon) : Prop where
  counts : d.cidMgr.Counts
  stamp : ∀ c, (d.commands c).posted = true → (d.commands c).stamp < d.cidMgr.allocs
    ∧ (d.commands c).sqe.CID
      = BitVec.ofNat 16 (d.cidMgr.initValue + (d.commands c).stamp % d.cidMgr.period)
  found : ∀ c, (d.commands c).posted = true →
    (((d.commands c).sqe.CID, (d.commands c).home), c) ∈ d.outstandingCommands.entries
  entry : ∀ k c, (k, c) ∈ d.outstandingCommands.entries →
    (d.commands c).posted = true ∧ k = ((d.commands c).sqe.CID, (d.commands c).home)

variable {cfg : RingsConfig} {d : NVMeDeviceCommon}

/-- **A new key is free exactly when no command of the queue has been lapped.** -/
theorem KeyInv.mem_keys_iff (h : KeyInv d) (q : Nat) :
    (BitVec.ofNat 16 d.cidMgr.alloc.1, q) ∈ d.outstandingCommands.keys
      ↔ ∃ c', (d.commands c').posted = true ∧ (d.commands c').home = q
        ∧ (d.cidMgr.allocs - (d.commands c').stamp) % d.cidMgr.period = 0 := by
  rw [Dict.mem_keys]
  constructor
  · rintro ⟨c', hm⟩
    obtain ⟨hp, hk⟩ := h.entry _ c' hm
    obtain ⟨hlt, hcid⟩ := h.stamp c' hp
    injection hk with hk₁ hk₂
    refine ⟨c', hp, hk₂.symm, ?_⟩
    rw [hcid] at hk₁
    exact (h.counts.ofNat_eq_iff (Nat.le_of_lt hlt)).mp hk₁.symm
  · rintro ⟨c', hp, rfl, hz⟩
    obtain ⟨hlt, hcid⟩ := h.stamp c' hp
    have hm := h.found c' hp
    rw [hcid, (h.counts.ofNat_eq_iff (Nat.le_of_lt hlt)).mpr hz] at hm
    exact ⟨c', hm⟩

/-- Changing only the command `c`, which is not posted before or after, is harmless. -/
theorem KeyInv.setCommand (h : KeyInv d) {c : Nat} {command : Command}
    (hfree : (d.commands c).posted = false) (hcommand : command.posted = false) :
    KeyInv (d.setCommand c command) := by
  -- the command changed is not posted, before or after
  have hne : ∀ c', ((d.setCommand c command).commands c').posted = true → c' ≠ c := by
    rintro c' hp rfl
    rw [setCommand_self, hcommand] at hp
    exact absurd hp (by simp)
  refine ⟨h.counts, ?_, ?_, ?_⟩
  · intro c' hp
    have hc := hne c' hp
    rw [setCommand_of_ne d hc] at hp ⊢
    exact h.stamp c' hp
  · intro c' hp
    have hc := hne c' hp
    rw [setCommand_of_ne d hc] at hp ⊢
    exact h.found c' hp
  · intro k c' hm
    obtain ⟨hp, hk⟩ := h.entry k c' hm
    have hc : c' ≠ c := by
      rintro rfl
      rw [hfree] at hp
      exact absurd hp (by simp)
    rw [setCommand_of_ne d hc]
    exact ⟨hp, hk⟩

/-- Assigning queues changes nothing the map depends on. -/
theorem KeyInv.assignQueues (h : KeyInv d) (c : Nat) (sq cq : QueueRef Nat) :
    KeyInv (d.assignQueues c sq cq) := by
  -- queues are assigned before the checks, but no key depends on them
  have hsame : ∀ c', ((d.assignQueues c sq cq).commands c').posted = (d.commands c').posted
      ∧ ((d.assignQueues c sq cq).commands c').sqe = (d.commands c').sqe
      ∧ ((d.assignQueues c sq cq).commands c').stamp = (d.commands c').stamp
      ∧ ((d.assignQueues c sq cq).commands c').home = (d.commands c').home := by
    intro c'
    unfold NVMeDeviceCommon.assignQueues
    by_cases hc : c' = c
    · subst hc
      rw [setCommand_self]
      exact ⟨rfl, rfl, rfl, rfl⟩
    · rw [setCommand_of_ne d hc]
      exact ⟨rfl, rfl, rfl, rfl⟩
  refine ⟨h.counts, ?_, ?_, ?_⟩
  · intro c' hp
    obtain ⟨h₁, h₂, h₃, _⟩ := hsame c'
    rw [h₂, h₃]
    exact h.stamp c' (h₁ ▸ hp)
  · intro c' hp
    obtain ⟨h₁, h₂, _, h₄⟩ := hsame c'
    rw [h₂, h₄]
    exact h.found c' (h₁ ▸ hp)
  · intro k c' hm
    obtain ⟨h₁, h₂, _, h₄⟩ := hsame c'
    rw [h₁, h₂, h₄]
    exact h.entry k c' hm

/-- **A new CID** for a command that is not outstanding. -/
theorem KeyInv.allocCid (h : KeyInv d) {c : Nat} (hfree : (d.commands c).posted = false) :
    KeyInv (d.allocCid c) := by
  have h' : KeyInv { d with cidMgr := d.cidMgr.alloc.2 } := by
    refine ⟨h.counts.alloc, ?_, h.found, h.entry⟩
    intro c' hp
    obtain ⟨hlt, hcid⟩ := h.stamp c' hp
    exact ⟨Nat.lt_succ_of_lt hlt, hcid⟩
  exact h'.setCommand hfree hfree

/-- **A post under a free key.** -/
theorem KeyInv.started (h : KeyInv d) {c i : Nat} {rings : Rings}
    (hfree : (d.commands c).posted = false)
    (hstamp : (d.commands c).stamp < d.cidMgr.allocs ∧ (d.commands c).sqe.CID
      = BitVec.ofNat 16 (d.cidMgr.initValue + (d.commands c).stamp % d.cidMgr.period))
    (hnew : ((d.commands c).sqe.CID, (d.rings.hostSq i).qid) ∉ d.outstandingCommands.keys)
    (hok : d.rings.postCommand i (d.commands c).sqe = .ok rings) : KeyInv (d.started c i rings) := by
  have hqid : (rings.hostSq i).qid = (d.rings.hostSq i).qid := by rw [Rings.postCommand_hostSq hok]
  unfold NVMeDeviceCommon.started
  refine ⟨h.counts, ?_, ?_, ?_⟩
  · intro c' hp
    by_cases hc : c' = c
    · subst hc
      rw [setCommand_self]
      exact hstamp
    · rw [setCommand_of_ne _ hc] at hp ⊢
      exact h.stamp c' hp
  · intro c' hp
    by_cases hc : c' = c
    · subst hc
      rw [setCommand_self, hqid]
      exact Dict.mem_entries_set.mpr (Or.inl ⟨rfl, rfl⟩)
    · -- the others keep their keys: the new one was free
      rw [setCommand_of_ne _ hc] at hp ⊢
      have hm := h.found c' hp
      exact Dict.mem_entries_set.mpr (Or.inr ⟨fun hk => hnew (hk ▸ Dict.mem_keys.mpr ⟨c', hm⟩), hm⟩)
  · intro k c' hm
    rcases Dict.mem_entries_set.mp hm with ⟨rfl, rfl⟩ | ⟨_, hm⟩
    · rw [setCommand_self, hqid]
      exact ⟨rfl, rfl⟩
    · obtain ⟨hp, hk⟩ := h.entry k c' hm
      have hc : c' ≠ c := by
        rintro rfl
        rw [hfree] at hp
        exact absurd hp (by simp)
      rw [setCommand_of_ne _ hc]
      exact ⟨hp, hk⟩

/-- **`start_cmd` keeps the keys** where it laps nobody. -/
theorem KeyInv.startCmd (h : KeyInv d) {c : Nat} {sqid cqid : Option Nat}
    (hok : d.NoLap c sqid cqid) : KeyInv (d.startCmd c sqid cqid).1 := by
  obtain ⟨qm, _, ⟨e, he⟩ | ⟨sq, cq, sqid', hl, _, _, he⟩⟩ := startCmd_cases d c sqid cqid
  · rw [he]
    exact ⟨h.counts, h.stamp, h.found, h.entry⟩
  · have h₀ : KeyInv { d with queueMgr := qm } := ⟨h.counts, h.stamp, h.found, h.entry⟩
    have h₁ := h₀.assignQueues c sq cq
    rw [he]
    rcases startAssigned_cases (d := ({ d with queueMgr := qm }).assignQueues c sq cq) (c := c) sqid'
      with ⟨e, he'⟩ | ⟨i, hsqi, _, hfree, hcomplete, ⟨e, he'⟩ | ⟨rings, r, hpost, he', _⟩⟩
    · rw [he']
      exact h₁
    · rw [he']
      exact h₁.allocCid hfree
    · rw [he']
      refine (h₁.allocCid hfree).started ?_ ?_ ?_ hpost
      · rw [NVMeDeviceCommon.allocCid, setCommand_self]; exact hfree
      · rw [NVMeDeviceCommon.allocCid, setCommand_self]
        exact ⟨Nat.lt_succ_self _, congrArg (BitVec.ofNat 16) h.counts.value⟩
      · rw [NVMeDeviceCommon.allocCid, setCommand_self]
        rw [NVMeDeviceCommon.assignQueues, setCommand_self] at hsqi hfree hcomplete
        have hcan := canPost_of_postCommand (d := d) hfree hcomplete hpost
        dsimp only at hsqi
        rw [NoLap, hl, hsqi] at hok
        -- a key in use would be one of an outstanding command, a lap behind
        intro hmem
        obtain ⟨c', hp, hhome, hz⟩ := (h.mem_keys_iff _).mp hmem
        exact hok hcan c' hp hhome hz

/-- Two states with the same CID manager, map and commands. -/
def SameMap (d d' : NVMeDeviceCommon) : Prop :=
  d'.cidMgr = d.cidMgr ∧ d'.outstandingCommands = d.outstandingCommands ∧ d'.commands = d.commands

/-- From `d` to `d'` the entry of `key` has gone, and its command is no longer posted. -/
def Removes (d d' : NVMeDeviceCommon) (key : BitVec 16 × Nat) (c : Nat) : Prop :=
  d'.cidMgr = d.cidMgr ∧ d'.outstandingCommands = d.outstandingCommands.erase key
    ∧ ∃ command : Command, command.posted = false
      ∧ d'.commands = Function.update d.commands c command

/-- However `complete_command` ends, the entry has gone. -/
theorem removes_finishCommand {c : Nat} (command : Command) (hposted : command.posted = false)
    (key : BitVec 16 × Nat) (cq : QueueRef Nat) (cqe : CQE) {i : Nat} :
    Removes d (({ d with outstandingCommands := d.outstandingCommands.erase key }.setCommand c
      command).finishCommand i cq cqe).1 key c := by
  cases cq with
  | queue h => exact ⟨rfl, rfl, command, hposted, rfl⟩
  | id n => exact ⟨rfl, rfl, command, hposted, rfl⟩
  | none => exact ⟨rfl, rfl, command, hposted, rfl⟩

/-- `complete_command` on the command found under the entry's key, with any outcome. -/
theorem completeCommand_effect {c : Nat} {cqe : CQE} (dataIn : Except Exc (List (BitVec 8)))
    (hkey : (cqe.CID, cqe.SQID.toNat) ∈ d.outstandingCommands.keys) :
    SameMap d (d.completeCommand c cqe dataIn).1
      ∨ Removes d (d.completeCommand c cqe dataIn).1 (cqe.CID, cqe.SQID.toNat) c := by
  unfold completeCommand
  dsimp only
  by_cases hposted : (d.commands c).posted = false
  · rw [if_pos hposted]; exact Or.inl ⟨rfl, rfl, rfl⟩
  rw [if_neg hposted]
  by_cases hcid : (d.commands c).sqe.CID ≠ cqe.CID
  · rw [if_pos hcid]; exact Or.inl ⟨rfl, rfl, rfl⟩
  rw [if_neg hcid]
  cases hsq : (d.commands c).sq with
  | id n => exact Or.inl ⟨rfl, rfl, rfl⟩
  | none => exact Or.inl ⟨rfl, rfl, rfl⟩
  | queue i =>
      dsimp only
      by_cases hqid : (d.rings.hostSq i).qid ≠ cqe.SQID.toNat
      · rw [if_pos hqid]; exact Or.inl ⟨rfl, rfl, rfl⟩
      rw [if_neg hqid, not_not.mp hcid, not_not.mp hqid, if_neg (fun hn => hn hkey)]
      -- past the checks the entry goes, even if what comes after it raises
      refine Or.inr ?_
      split
      · exact ⟨rfl, rfl, _, rfl, rfl⟩
      · exact removes_finishCommand _ rfl _ _ _
      · exact removes_finishCommand _ rfl _ _ _

/--
**What `get_completion` can do to the map**, whatever the rings hold: nothing, or one
entry goes and its command is no longer posted.
-/
theorem getCompletion_effect (d : NVMeDeviceCommon) (cqid : Nat)
    (dataIn : Except Exc (List (BitVec 8))) :
    SameMap d (d.getCompletion cqid dataIn).1
      ∨ ∃ key c, (key, c) ∈ d.outstandingCommands.entries
        ∧ Removes d (d.getCompletion cqid dataIn).1 key c := by
  unfold getCompletion
  split
  · exact Or.inl ⟨rfl, rfl, rfl⟩
  · rename_i h _
    -- only a command found under the key of a new entry can be changed
    by_cases hm : d.rings.phaseMatch h = true
    · rw [if_pos hm]
      generalize d.rings.nextCompletion h = cqe
      dsimp only
      split
      · exact Or.inl ⟨rfl, rfl, rfl⟩
      · rename_i c hg
        have hentry := Dict.get?_eq_some_iff.mp hg
        have heffect := completeCommand_effect (c := c) dataIn (Dict.mem_keys.mpr ⟨c, hentry⟩)
        cases hx : d.completeCommand c cqe dataIn with
        | mk d' r =>
            rw [hx] at heffect
            cases r with
            | ok _ => exact heffect.imp id fun hrem => ⟨_, c, hentry, hrem⟩
            | error e => exact heffect.imp id fun hrem => ⟨_, c, hentry, hrem⟩
    · rw [if_neg hm]
      exact Or.inl ⟨rfl, rfl, rfl⟩
  · exact Or.inl ⟨rfl, rfl, rfl⟩

/-- **`get_completion` keeps the keys.** -/
theorem KeyInv.getCompletion (h : KeyInv d) (cqid : Nat) (dataIn : Except Exc (List (BitVec 8))) :
    KeyInv (d.getCompletion cqid dataIn).1 := by
  rcases getCompletion_effect d cqid dataIn with
    ⟨hm, ho, hc⟩ | ⟨key, c, hentry, hm, ho, command, hposted, hc⟩
  · refine ⟨by rw [hm]; exact h.counts, ?_, ?_, ?_⟩
    · rw [hm, hc]; exact h.stamp
    · rw [ho, hc]; exact h.found
    · rw [ho, hc]; exact h.entry
  · -- what is still posted was posted before, and is another command
    have hother : ∀ c', (Function.update d.commands c command c').posted = true →
        c' ≠ c ∧ (d.commands c').posted = true := by
      intro c' hp
      by_cases hcc : c' = c
      · subst hcc; rw [Function.update_self, hposted] at hp; exact absurd hp (by simp)
      · rw [Function.update_of_ne hcc] at hp; exact ⟨hcc, hp⟩
    refine ⟨by rw [hm]; exact h.counts, ?_, ?_, ?_⟩
    · rw [hm, hc]
      intro c' hp
      obtain ⟨hcc, hp'⟩ := hother c' hp
      rw [Function.update_of_ne hcc]
      exact h.stamp c' hp'
    · rw [ho, hc]
      intro c' hp
      obtain ⟨hcc, hp'⟩ := hother c' hp
      rw [Function.update_of_ne hcc]
      -- no two commands stand under one key, so the key taken out is not its own
      have hfound := h.found c' hp'
      refine Dict.mem_entries_erase.mpr ⟨?_, hfound⟩
      rintro rfl
      exact hcc (Dict.entries_inj hfound hentry)
    · rw [ho, hc]
      intro k c' hm'
      obtain ⟨hne, hm'⟩ := Dict.mem_entries_erase.mp hm'
      have hcc : c' ≠ c := by
        rintro rfl
        exact hne ((h.entry k c' hm').2.trans (h.entry key c' hentry).2.symm)
      rw [Function.update_of_ne hcc]
      exact h.entry k c' hm'

/-! ## Every run -/

/-- Every post laps nobody on its queue. -/
def NoLaps (d : NVMeDeviceCommon) : CidOp → Prop
  | .call (.startCmd c sqid cqid) => d.NoLap c sqid cqid
  | _ => True

/-- Before a start, fewer commands are outstanding than there are CIDs. -/
def WithinLimit (d : NVMeDeviceCommon) : CidOp → Prop
  | .call (.startCmd ..) => d.outstandingCommands.entries.length < d.cidMgr.period
  | _ => True

theorem keyInv_init (h : CidInit d) : KeyInv d := by
  refine ⟨h.counts, ?_, ?_, ?_⟩
  · intro c hp
    rw [h.commands c] at hp; exact absurd hp (by simp)
  · intro c hp
    rw [h.commands c] at hp; exact absurd hp (by simp)
  · intro k c hm
    rw [h.outstanding] at hm; exact absurd hm (by simp)

theorem keyInv_step {d' : NVMeDeviceCommon} {a : CidOp} (h : KeyInv d) (hok : d.NoLaps a)
    (hs : cidStep cfg d a = some d') : KeyInv d' := by
  cases a with
  | completions cqRing =>
      rw [← Option.some.inj hs]
      exact ⟨h.counts, h.stamp, h.found, h.entry⟩
  | call a =>
      cases a with
      | startCmd c sqid cqid =>
          rw [← Option.some.inj hs]
          exact h.startCmd hok
      | fetchComplete i statusCode cmdSpec =>
          obtain ⟨_, hp⟩ := Option.ite_none_right_eq_some.mp hs
          obtain ⟨rings, _, rfl⟩ := Option.map_eq_some_iff.mp hp
          exact ⟨h.counts, h.stamp, h.found, h.entry⟩
      | getCompletion cqid dataIn =>
          rw [← Option.some.inj hs]
          exact h.getCompletion cqid dataIn

/-- A completion that names a posted command by CID and queue finds it. -/
def Keyed (d : NVMeDeviceCommon) : Prop :=
  ∀ c, (d.commands c).posted = true →
    d.outstandingCommands.get? ((d.commands c).sqe.CID, (d.commands c).home) = some c

/--
**No CID is reused while outstanding** in a run that laps no outstanding command:
every completion finds its command, and a post takes a free key exactly when it laps
nobody.

CIDs come in a cycle, so an allocation repeats the CID of another exactly if their numbers
differ by a multiple of the period. How many commands are outstanding does not matter: it is
one long outstanding command that the others lap.
-/
theorem keyed_of_noLaps (h : (cidMachine cfg).ReachableBy NoLaps d) :
    Keyed d ∧ ∀ c sqid cqid i cq, d.lookup c sqid cqid = .ok (.queue i, cq) →
      d.canPost c i = true →
      ((BitVec.ofNat 16 d.cidMgr.alloc.1, (d.rings.hostSq i).qid) ∉ d.outstandingCommands.keys
        ↔ d.NoLap c sqid cqid) := by
  have hi : KeyInv d := Machine.ReachableBy.invariant (I := KeyInv) (fun _ h0 => keyInv_init h0)
    (fun _ _ _ _ hi hok hs => keyInv_step hi hok hs) h
  refine ⟨fun c hp => Dict.get?_eq_some_iff.mpr (hi.found c hp), ?_⟩
  intro c sqid cqid i cq hl hcan
  rw [hi.mem_keys_iff, NoLap, hl]
  constructor
  · intro hno _ c' hp hhome hz
    exact hno ⟨c', hp, hhome, hz⟩
  · rintro hno ⟨c', hp, hhome, hz⟩
    exact hno hcan c' hp hhome hz


theorem cidInit_sharedDevice : CidInit sharedDevice :=
  ⟨⟨by decide, by decide, rfl⟩, rfl, fun _ => rfl⟩

/-- Two commands on one queue, both outstanding. -/
theorem keyed_of_noLaps_started :
    ∃ d, (cidMachine sharedPairs).run sharedDevice
        [.call (.startCmd 0 (some 1) none), .call (.startCmd 1 (some 1) none)] = some d
      ∧ (d.commands 0).posted = true ∧ (d.commands 1).posted = true ∧ Keyed d := by
  have h0 : (cidMachine sharedPairs).ReachableBy NoLaps sharedDevice :=
    Machine.ReachableBy.init cidInit_sharedDevice
  have hlap0 : sharedDevice.NoLap 0 (some 1) none := by
    show _ → ∀ c', (false = true) → _
    intro _ c' hp
    exact absurd hp Bool.false_ne_true
  have h1 : (cidMachine sharedPairs).ReachableBy NoLaps (sharedDevice.startCmd 0 (some 1) none).1 :=
    h0.tail (a := .call (.startCmd 0 (some 1) none)) hlap0 rfl
  -- the first command is one allocation behind, not a whole lap
  have hlap1 : (sharedDevice.startCmd 0 (some 1) none).1.NoLap 1 (some 1) none := by
    show _ → ∀ c', Command.posted (Function.update
      (Function.update (Function.update sharedDevice.commands 0 _) 0 _) 0 _ c') = true → _
    intro _ c' hp _
    by_cases hc : c' = 0
    · subst hc
      decide
    · rw [Function.update_of_ne hc, Function.update_of_ne hc, Function.update_of_ne hc] at hp
      exact absurd hp Bool.false_ne_true
  have h2 : (cidMachine sharedPairs).ReachableBy NoLaps
      ((sharedDevice.startCmd 0 (some 1) none).1.startCmd 1 (some 1) none).1 :=
    h1.tail (a := .call (.startCmd 1 (some 1) none)) hlap1 rfl
  exact ⟨_, rfl, rfl, rfl, (keyed_of_noLaps h2).1⟩

instance (d : NVMeDeviceCommon) : (a : CidOp) → Decidable (d.WithinLimit a)
  | .call (.startCmd ..) =>
      inferInstanceAs (Decidable (d.outstandingCommands.entries.length < d.cidMgr.period))
  | .call (.fetchComplete ..) => inferInstanceAs (Decidable True)
  | .call (.getCompletion ..) => inferInstanceAs (Decidable True)
  | .completions _ => inferInstanceAs (Decidable True)

/-! ### A full queue, retried until the counter has gone around

One command is outstanding on the first IO queue and the second one is full. Every
further start on the full queue takes a CID before the ring refuses the command.
-/

/-- One command on the first IO queue, three on the second, which is then full. -/
def fillRun : List CidOp :=
  [.call (.startCmd 0 (some 1) none), .call (.startCmd 1 (some 2) none),
    .call (.startCmd 2 (some 2) none), .call (.startCmd 3 (some 2) none)]

def filled : NVMeDeviceCommon := ((cidMachine sharedPairs).run sharedDevice fillRun).getD sharedDevice

/-- What is left of `filled` after `k` refused starts: the CID counter and command 4 differ. -/
structure Retried (k : Nat) (d : NVMeDeviceCommon) : Prop where
  cidMgr : d.cidMgr = { value := 0x1000 + (4 + k) % 61438, allocs := 4 + k }
  queueMgr : d.queueMgr = filled.queueMgr
  outstanding : d.outstandingCommands = filled.outstandingCommands
  rings : d.rings = filled.rings
  others : ∀ c, c ≠ 4 → d.commands c = filled.commands c
  free : (d.commands 4).posted = false ∧ (d.commands 4).complete = false
  cid : (d.commands 4).sqe.CID = if k = 0 then 0 else BitVec.ofNat 16 (0x1003 + k)

theorem reachableBy_filled : (cidMachine sharedPairs).ReachableBy WithinLimit filled := by
  refine (Machine.ReachableBy.init cidInit_sharedDevice).run fillRun ?_
  rfl

theorem retried_filled : Retried 0 filled :=
  ⟨rfl, rfl, rfl, rfl, fun _ _ => rfl, ⟨rfl, rfl⟩, rfl⟩

/-- A start that only the full ring refuses takes a CID and leaves the rest as it is. -/
theorem startAssigned_full {c i : Nat} (sqid : Option Nat) (hsq : (d.commands c).sq = .queue i)
    (hkey : ((d.commands c).sqe.CID, (d.rings.hostSq i).qid) ∉ d.outstandingCommands.keys)
    (hfree : (d.commands c).posted = false) (hcomplete : (d.commands c).complete = false)
    (hfull : (d.rings.hostSq i).isFull (d.rings.SQTAIL (d.rings.hostSq i).qid) = true) :
    (d.startAssigned c sqid).1 = d.allocCid c := by
  unfold startAssigned
  dsimp only
  rw [hsq]
  dsimp only
  rw [if_neg hkey, if_neg (by rw [hfree]; simp), if_neg (by rw [hcomplete]; simp)]
  rcases postCommand_cases hsq with ⟨e, he⟩ | ⟨rings, hpost, _⟩
  · rw [he]
  · obtain ⟨sqtail, ring, hpost, _⟩ := Rings.postCommand_spec hpost
    rw [NVMeSubmissionQueue.postCommand_room hpost] at hfull
    exact absurd hfull (by simp)

/-- A CID handed out after the queue was filled is none of the four outstanding ones. -/
theorem not_mem_keys_filled {k : Nat} (hk : k < 61434) {cid : BitVec 16}
    (hcid : cid = if k = 0 then 0 else BitVec.ofNat 16 (0x1003 + k)) :
    (cid, 2) ∉ filled.outstandingCommands.keys := by
  have hkeys : filled.outstandingCommands.keys = [(0x1000, 1), (0x1001, 2), (0x1002, 2), (0x1003, 2)] :=
    rfl
  rw [hkeys, hcid]
  by_cases h0 : k = 0
  · subst h0
    decide
  · rw [if_neg h0]
    have hmod : (0x1003 + k) % 2 ^ 16 = 0x1003 + k := Nat.mod_eq_of_lt (by omega)
    simp only [List.mem_cons, Prod.mk.injEq, BitVec.toNat_eq, BitVec.toNat_ofNat, hmod,
      List.not_mem_nil, or_false]
    rintro (⟨_, h⟩ | ⟨h, _⟩ | ⟨h, _⟩ | ⟨h, _⟩)
    · exact absurd h (by decide)
    · change 0x1003 + k = 0x1001 at h; omega
    · change 0x1003 + k = 0x1002 at h; omega
    · change 0x1003 + k = 0x1003 at h; omega

/-- **One more refused start.** -/
theorem Retried.retry {k : Nat} (h : Retried k d) (hk : k < 61434) :
    WithinLimit d (.call (.startCmd 4 (some 2) none))
      ∧ Retried (k + 1) (d.startCmd 4 (some 2) none).1 := by
  refine ⟨?_, ?_⟩
  · show d.outstandingCommands.entries.length < d.cidMgr.period
    rw [h.outstanding, h.cidMgr]
    show 4 < 0xFFFE - 0x1000
    omega
  have hget : d.queueMgr.get (some 2) none = .ok (.queue 2, .queue 1) := by rw [h.queueMgr]; rfl
  -- the queue is full: the call raises after it has taken an identifier
  have hstart : (d.startCmd 4 (some 2) none).1
      = (d.assignQueues 4 (.queue 2) (.queue 1)).allocCid 4 := by
    unfold startCmd pickIds
    dsimp only
    rw [hget]
    dsimp only
    rw [if_neg (by simp)]
    refine startAssigned_full (i := 2) _ (by rw [assignQueues, setCommand_self]) ?_ ?_ ?_ ?_
    · rw [assignQueues, setCommand_self]
      show (_, (d.rings.hostSq 2).qid) ∉ d.outstandingCommands.keys
      rw [h.outstanding, h.rings]
      exact not_mem_keys_filled hk h.cid
    · rw [assignQueues, setCommand_self]; exact h.free.1
    · rw [assignQueues, setCommand_self]; exact h.free.2
    · show (d.rings.hostSq 2).isFull (d.rings.SQTAIL (d.rings.hostSq 2).qid) = true
      rw [h.rings]; rfl
  rw [hstart]
  refine ⟨?_, h.queueMgr, h.outstanding, h.rings, ?_, ?_, ?_⟩
  · show d.cidMgr.alloc.2 = _
    rw [h.cidMgr]
    -- the counter goes on, and starts over at its end
    show CidMgr.mk 0x1000 0xFFFE (if 0x1000 + (4 + k) % 61438 + 1 ≥ 0xFFFE then 0x1000
      else 0x1000 + (4 + k) % 61438 + 1) (4 + k + 1) = _
    congr 1
    split <;> omega
  · intro c hc
    rw [allocCid, setCommand_of_ne _ hc]
    show (d.assignQueues 4 _ _).commands c = _
    rw [assignQueues, setCommand_of_ne _ hc]
    exact h.others c hc
  · rw [allocCid, setCommand_self, assignQueues, setCommand_self]
    exact h.free
  · rw [allocCid, setCommand_self, if_neg (Nat.succ_ne_zero k)]
    show BitVec.ofNat 16 d.cidMgr.value = _
    rw [h.cidMgr]
    show BitVec.ofNat 16 (0x1000 + (4 + k) % 61438) = BitVec.ofNat 16 (0x1003 + (k + 1))
    rw [Nat.mod_eq_of_lt (by omega)]
    congr 1
    omega

/-- The queue can be retried until the next CID is again the first one. -/
theorem reachable_retried :
    ∀ k, k ≤ 61434 → ∃ d, (cidMachine sharedPairs).ReachableBy WithinLimit d ∧ Retried k d := by
  intro k
  induction k with
  | zero => exact fun _ => ⟨filled, reachableBy_filled, retried_filled⟩
  | succ k ih =>
      intro hk
      obtain ⟨d, hd, hr⟩ := ih (by omega)
      obtain ⟨hok, hr'⟩ := hr.retry (by omega)
      exact ⟨_, hd.tail hok rfl, hr'⟩

theorem Retried.eq {k : Nat} (h : Retried k d) : d = { filled with
    cidMgr := { value := 0x1000 + (4 + k) % 61438, allocs := 4 + k }
    commands := Function.update filled.commands 4 (d.commands 4) } := by
  obtain ⟨hcid, hqm, ho, hr, hothers, _, _⟩ := h
  have hcommands : d.commands = Function.update filled.commands 4 (d.commands 4) := by
    funext c
    by_cases hc : c = 4
    · subst hc; rw [Function.update_self]
    · rw [Function.update_of_ne hc]; exact hothers c hc
  rw [← hcommands]
  cases d
  subst hcid hqm ho hr
  rfl

/--
**Within the limit a CID is reused while outstanding**: the next start, on the first
queue, takes over the entry of command 0.
-/
theorem not_keyed_retried :
    ¬ ∀ cfg d, (cidMachine cfg).ReachableBy WithinLimit d → Keyed d := by
  intro hall
  obtain ⟨d, hd, hr⟩ := reachable_retried 61434 (by omega)
  have hlimit : WithinLimit d (.call (.startCmd 5 (some 1) none)) := by
    show d.outstandingCommands.entries.length < d.cidMgr.period
    rw [hr.outstanding, hr.cidMgr]
    decide
  have hkeyed := hall sharedPairs _ (hd.tail hlimit rfl) 0
  rw [hr.eq] at hkeyed
  have hlost : some 5 = some 0 := hkeyed rfl
  exact absurd hlost (by decide)

end NVMeDeviceCommon

end LoneNvme
