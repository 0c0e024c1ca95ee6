import LoneNvme.Device

/-!
# The outstanding map matches the rings

Between the post of a command and the consumption of its completion the host keeps
it in `outstanding_commands` under `(CID, SQID)`. Restricted to one submission
queue, the map lists the CIDs of the ring's unacknowledged commands in the order
they were posted, and the completions on their way name them in the same order. So
the next completion always finds the oldest command of its queue.

`start_cmd` overwrites `command.sq` and `command.cq` before its sanity checks. A
refused restart of an outstanding command on another queue therefore breaks the
command's own completion later; `KeepsQueues` rules that step out.
-/

namespace LoneNvme

open Lib

namespace NVMeDeviceCommon

/-- The queues `start_cmd` would send the command to. -/
def lookup (d : NVMeDeviceCommon) (c : Nat) (sqid cqid : Option Nat) :
    Except Exc (QueueRef Nat × QueueRef Nat) :=
  match d.pickIds c sqid cqid with
  | .error e => .error e
  | .ok (d, sqid, cqid) => d.queueMgr.get sqid cqid

/-- The state after the post: rings, map, flag. -/
def started (d : NVMeDeviceCommon) (c i : Nat) (rings : Rings) : NVMeDeviceCommon :=
  { d with
    rings
    outstandingCommands := d.outstandingCommands.set
      ((d.commands c).sqe.CID, (d.rings.hostSq i).qid) c }.setCommand c
    { d.commands c with posted := true, home := (rings.hostSq i).qid }

theorem pickIds_spec {d d' : NVMeDeviceCommon} {c : Nat} {sqid cqid sqid' cqid' : Option Nat}
    (h : d.pickIds c sqid cqid = .ok (d', sqid', cqid')) :
    ∃ qm, d.queueMgr.Turned qm ∧ d' = { d with queueMgr := qm } := by
  unfold pickIds at h
  split at h
  · injection h with h; injection h with h _
    exact ⟨d.queueMgr, ⟨rfl, rfl, rfl⟩, h.symm⟩
  · split at h
    · injection h with h; injection h with h _
      exact ⟨d.queueMgr, ⟨rfl, rfl, rfl⟩, h.symm⟩
    · split at h
      · rename_i qm hq
        injection h with h; injection h with h _
        exact ⟨qm, (QueueMgr.nextIosqId_turned hq).1, h.symm⟩
      · exact absurd h (by simp)

/-- `post_command` on an assigned command: the new CID is in place whether the ring takes it or not. -/
theorem postCommand_cases {d : NVMeDeviceCommon} {c i : Nat} (hsq : (d.commands c).sq = .queue i) :
    (∃ e, d.postCommand c = (d.allocCid c, .error e))
      ∨ ∃ rings, d.rings.postCommand i ((d.allocCid c).commands c).sqe = .ok rings
        ∧ d.postCommand c = ({ d.allocCid c with
            rings
            outstandingCommands := d.outstandingCommands.set
              (((d.allocCid c).commands c).sqe.CID, (d.rings.hostSq i).qid) c }, .ok ()) := by
  have hsq' : ((d.allocCid c).commands c).sq = .queue i := by
    rw [allocCid, setCommand_self]; exact hsq
  unfold postCommand
  dsimp only
  rw [hsq']
  dsimp only
  cases hp : (d.allocCid c).rings.postCommand i ((d.allocCid c).commands c).sqe with
  | error e => exact Or.inl ⟨e, rfl⟩
  | ok rings =>
      refine Or.inr ⟨rings, hp, ?_⟩
      dsimp only
      rw [Rings.postCommand_hostSq hp]
      rfl

/--
**What `start_cmd` can do once the queues are assigned.** A sanity check refuses; or
the command is free, gets its new CID, and the ring takes it or not.
-/
theorem startAssigned_cases {d : NVMeDeviceCommon} {c : Nat} (sqid : Option Nat) :
    (∃ e, d.startAssigned c sqid = (d, .error e))
      ∨ ∃ i, (d.commands c).sq = .queue i
        ∧ ((d.commands c).sqe.CID, (d.rings.hostSq i).qid) ∉ d.outstandingCommands.keys
        ∧ (d.commands c).posted = false ∧ (d.commands c).complete = false
        ∧ ((∃ e, d.startAssigned c sqid = (d.allocCid c, .error e))
          ∨ ∃ rings r, d.rings.postCommand i ((d.allocCid c).commands c).sqe = .ok rings
            ∧ d.startAssigned c sqid = ((d.allocCid c).started c i rings, r)
            ∧ ∀ msg, r ≠ .error (.assertionError msg)) := by
  unfold startAssigned
  dsimp only
  cases hsq : (d.commands c).sq with
  | none => exact Or.inl ⟨_, rfl⟩
  | id n => exact Or.inl ⟨_, rfl⟩
  | queue i =>
      dsimp only
      -- the checks in the order of the source, then the post
      by_cases hkey : ((d.commands c).sqe.CID, (d.rings.hostSq i).qid) ∈ d.outstandingCommands.keys
      · rw [if_pos hkey]; exact Or.inl ⟨_, rfl⟩
      rw [if_neg hkey]
      by_cases hposted : (d.commands c).posted = true
      · rw [if_pos hposted]; exact Or.inl ⟨_, rfl⟩
      rw [if_neg hposted]
      by_cases hcomplete : (d.commands c).complete = true
      · rw [if_pos hcomplete]; exact Or.inl ⟨_, rfl⟩
      rw [if_neg hcomplete]
      refine Or.inr ⟨i, rfl, hkey, by simpa using hposted, by simpa using hcomplete, ?_⟩
      rcases postCommand_cases hsq with ⟨e, he⟩ | ⟨rings, hrings, he⟩
      · rw [he]; exact Or.inl ⟨e, rfl⟩
      · rw [he]
        refine Or.inr ⟨rings, ?_⟩
        dsimp only
        cases (d.commands c).cq with
        | queue h => exact ⟨_, hrings, rfl, by simp⟩
        | none => exact ⟨_, hrings, rfl, by simp⟩
        | id n => exact ⟨_, hrings, rfl, by simp⟩

/--
**What `start_cmd` can do.** It fails before it touches the command, or it has found
queues, assigned them, and goes on to the sanity checks. Either way the id of the
next IO queue may have moved on.
-/
theorem startCmd_cases (d : NVMeDeviceCommon) (c : Nat) (sqid cqid : Option Nat) :
    ∃ qm, d.queueMgr.Turned qm ∧
      ((∃ e, d.startCmd c sqid cqid = ({ d with queueMgr := qm }, .error e))
      ∨ ∃ sq cq sqid', d.lookup c sqid cqid = .ok (sq, cq) ∧ sq ≠ .none ∧ cq ≠ .none
        ∧ d.startCmd c sqid cqid
          = (({ d with queueMgr := qm }).assignQueues c sq cq).startAssigned c sqid') := by
  unfold startCmd lookup
  -- ids, then queues, then both are there: the order of the source
  cases hp : d.pickIds c sqid cqid with
  | error e => exact ⟨d.queueMgr, ⟨rfl, rfl, rfl⟩, Or.inl ⟨e, rfl⟩⟩
  | ok ids =>
      obtain ⟨d', sqid', cqid'⟩ := ids
      obtain ⟨qm, hqm, rfl⟩ := pickIds_spec hp
      refine ⟨qm, hqm, ?_⟩
      dsimp only
      cases hg : qm.get sqid' cqid' with
      | error e => exact Or.inl ⟨e, rfl⟩
      | ok queues =>
          obtain ⟨sq, cq⟩ := queues
          dsimp only
          by_cases hnone : sq = .none ∨ cq = .none
          · rw [if_pos hnone]; exact Or.inl ⟨_, rfl⟩
          · rw [if_neg hnone]
            exact Or.inr ⟨sq, cq, sqid', rfl, fun h => hnone (Or.inl h),
              fun h => hnone (Or.inr h), rfl⟩

/-! ## A device with a fixed set of queue pairs -/

/-- The queue manager of an initialised device: exactly the configured pairs. -/
def Serves (cfg : RingsConfig) (queues : Dict (Nat × Nat) (Option Nat × Option Nat)) : Prop :=
  ∀ k v, (k, v) ∈ queues.entries ↔ k.1 ∈ cfg.sqs ∧ k.2 = cfg.cqOf k.1 ∧ v = (some k.1, some k.2)

/-- A lookup that finds objects finds a configured pair. -/
theorem Serves.get_spec {cfg : RingsConfig} {qm : QueueMgr Nat Nat} (h : Serves cfg qm.nvmeQueues)
    {sqid cqid : Option Nat} {i : Nat} {cq : QueueRef Nat}
    (hg : qm.get sqid cqid = .ok (.queue i, cq)) :
    i ∈ cfg.sqs ∧ cq = .queue (cfg.cqOf i) := by
  -- whichever pair is found, it is one of the layout
  have hitem : ∀ k v, (k, v) ∈ qm.nvmeQueues.entries →
      (QueueRef.ofOption v.1, QueueRef.ofOption v.2) = (QueueRef.queue i, cq) →
      i ∈ cfg.sqs ∧ cq = .queue (cfg.cqOf i) := by
    rintro ⟨k₁, k₂⟩ v hm he
    obtain ⟨hi, hc, rfl⟩ := (h _ v).mp hm
    injection he with he₁ he₂
    injection he₁ with he₁
    subst he₁
    exact ⟨hi, by rw [← he₂, ← hc]; rfl⟩
  unfold QueueMgr.get at hg
  split at hg
  · split at hg
    · rename_i v hv
      exact hitem _ _ (Dict.get?_eq_some_iff.mp hv) (Except.ok.inj hg)
    · exact absurd hg (by simp)
  · rcases qm.firstPair_spec (fun k => k.1 == _) with ⟨k, v, hm, _, he⟩ | ⟨_, he⟩
    · exact hitem k v hm (by rw [← he]; exact Except.ok.inj hg)
    · rw [he] at hg; exact absurd (Except.ok.inj hg) (by simp)
  · rcases qm.firstPair_spec (fun k => k.2 == _) with ⟨k, v, hm, _, he⟩ | ⟨_, he⟩
    · exact hitem k v hm (by rw [← he]; exact Except.ok.inj hg)
    · rw [he] at hg; exact absurd (Except.ok.inj hg) (by simp)
  · split at hg
    · exact absurd (Except.ok.inj hg) (by simp)
    · exact absurd (Except.ok.inj hg) (by simp)

/-- The lookup of `get_completion` finds a completion queue in use, and nothing else. -/
theorem Serves.get_cq {cfg : RingsConfig} {qm : QueueMgr Nat Nat} (h : Serves cfg qm.nvmeQueues)
    (hadmin : 0 ∈ cfg.sqs ∧ cfg.cqOf 0 = 0) (cqid : Nat) :
    (cqid ∈ cfg.cqs ∧ ∃ sq, qm.get (if cqid = 0 then some 0 else none) (some cqid)
        = .ok (sq, .queue cqid))
      ∨ (cqid ∉ cfg.cqs ∧ qm.get (if cqid = 0 then some 0 else none) (some cqid)
        = .ok (.none, .none)) := by
  by_cases h0 : cqid = 0
  · subst h0
    have hm : ((0, 0), (some 0, some 0)) ∈ qm.nvmeQueues.entries :=
      (h (0, 0) _).mpr ⟨hadmin.1, hadmin.2.symm, rfl⟩
    refine Or.inl ⟨hadmin.2 ▸ RingsConfig.cqOf_mem hadmin.1, .queue 0, ?_⟩
    rw [if_pos rfl, QueueMgr.get, Dict.get?_eq_some_iff.mpr hm]
    rfl
  · rw [if_neg h0]
    -- the first pair with the queue, or none has it
    rcases qm.firstPair_spec (fun k => k.2 == cqid) with ⟨k, v, hm, hk, he⟩ | ⟨hk, he⟩
    · obtain ⟨hi, hc, rfl⟩ := (h k v).mp hm
      have hkc : k.2 = cqid := by simpa using hk
      refine Or.inl ⟨?_, .queue k.1, ?_⟩
      · rw [← hkc, hc]; exact RingsConfig.cqOf_mem hi
      · rw [QueueMgr.get, he, ← hkc]; rfl
    · refine Or.inr ⟨?_, by rw [QueueMgr.get, he]⟩
      intro hc
      obtain ⟨i, hi, hic⟩ := Finset.mem_image.mp hc
      have hm := (h (i, cqid) (some i, some cqid)).mpr ⟨hi, hic.symm, rfl⟩
      exact absurd (hk _ (Dict.mem_keys.mpr ⟨_, hm⟩)) (by simp)

/-- The keys of the map that belong to one submission queue, in order. -/
def keysOf (d : NVMeDeviceCommon) (i : Nat) : List (BitVec 16 × Nat) :=
  d.outstandingCommands.keys.filter fun k => k.2 = i

/-- **The invariant of the bookkeeping.** -/
structure Inv (cfg : RingsConfig) (d : NVMeDeviceCommon) : Prop where
  serves : Serves cfg d.queueMgr.nvmeQueues
  rings : Rings.Inv cfg d.rings
  /-- A command in the map is under its own CID and queue, and knows its queues. -/
  entry : ∀ cid i c, ((cid, i), c) ∈ d.outstandingCommands.entries → i ∈ cfg.sqs
    ∧ (d.commands c).sqe.CID = cid ∧ (d.commands c).sq = .queue i
    ∧ (d.commands c).cq = .queue (cfg.cqOf i)
    ∧ (d.commands c).posted = true ∧ (d.commands c).complete = false
  posted : ∀ c, (d.commands c).posted = true → ∃ k, (k, c) ∈ d.outstandingCommands.entries
  /-- The map lists the unacknowledged commands of each ring in order. -/
  order : ∀ i ∈ cfg.sqs, (d.keysOf i).map Prod.fst
    = ((d.rings.posted i).drop (d.rings.acked i)).map Generic.CID

variable {cfg : RingsConfig} {d : NVMeDeviceCommon}

theorem Inv.withQueueMgr (h : Inv cfg d) {qm : QueueMgr Nat Nat}
    (hqm : qm.nvmeQueues = d.queueMgr.nvmeQueues) : Inv cfg { d with queueMgr := qm } :=
  ⟨by rw [hqm]; exact h.serves, h.rings, h.entry, h.posted, h.order⟩

/-- Changing a command that is not in the map, without marking it posted, is harmless. -/
theorem Inv.setCommand (h : Inv cfg d) {c : Nat} {command : Command}
    (hfree : (d.commands c).posted = false) (hcommand : command.posted = false) :
    Inv cfg (d.setCommand c command) := by
  refine ⟨h.serves, h.rings, ?_, ?_, h.order⟩
  · intro cid i c' hm
    have hentry := h.entry cid i c' hm
    have hne : c' ≠ c := by
      rintro rfl
      rw [hfree] at hentry
      exact absurd hentry.2.2.2.2.1 (by simp)
    rw [setCommand_of_ne d hne]
    exact hentry
  · intro c' hp
    by_cases hc : c' = c
    · subst hc
      rw [setCommand_self, hcommand] at hp
      exact absurd hp (by simp)
    · rw [setCommand_of_ne d hc] at hp
      exact h.posted c' hp

/-- Assigning queues keeps the invariant if an outstanding command keeps its own. -/
theorem Inv.assignQueues (h : Inv cfg d) {c : Nat} {sq cq : QueueRef Nat}
    (hkeep : (d.commands c).posted = true → (d.commands c).sq = sq ∧ (d.commands c).cq = cq) :
    Inv cfg (d.assignQueues c sq cq) := by
  by_cases hp : (d.commands c).posted = true
  · obtain ⟨hsq, hcq⟩ := hkeep hp
    have hsame : d.assignQueues c sq cq = d := by
      unfold NVMeDeviceCommon.assignQueues NVMeDeviceCommon.setCommand
      rw [← hsq, ← hcq, Function.update_eq_self]
    rw [hsame]
    exact h
  · have hfree : (d.commands c).posted = false := by simpa using hp
    exact h.setCommand hfree hfree

theorem Inv.allocCid (h : Inv cfg d) {c : Nat} (hfree : (d.commands c).posted = false) :
    Inv cfg (d.allocCid c) :=
  have h' : Inv cfg { d with cidMgr := d.cidMgr.alloc.2 } :=
    ⟨h.serves, h.rings, h.entry, h.posted, h.order⟩
  h'.setCommand hfree hfree

/-- **A post the ring takes** adds the command at the end of its queue's share of the map. -/
theorem Inv.started (h : Inv cfg d) {c i : Nat} {rings : Rings} (hi : i ∈ cfg.sqs)
    (hsq : (d.commands c).sq = .queue i) (hcq : (d.commands c).cq = .queue (cfg.cqOf i))
    (hfree : (d.commands c).posted = false) (hcomplete : (d.commands c).complete = false)
    (hnew : ((d.commands c).sqe.CID, i) ∉ d.outstandingCommands.keys)
    (hok : d.rings.postCommand i (d.commands c).sqe = .ok rings) : Inv cfg (d.started c i rings) := by
  have hqid := (h.rings.hostSqAt i hi).1
  have hrings := h.rings.postCommand hi hok
  obtain ⟨sqtail, ring, _, rfl⟩ := Rings.postCommand_spec hok
  refine ⟨h.serves, hrings, ?_, ?_, ?_⟩
  · intro cid j c' hm
    change ((cid, j), c') ∈ (d.outstandingCommands.set _ c).entries at hm
    rw [hqid] at hm
    unfold NVMeDeviceCommon.started
    rcases Dict.mem_entries_set.mp hm with ⟨hk, rfl⟩ | ⟨_, hm⟩
    · injection hk with hcid hj
      subst hcid hj
      rw [setCommand_self]
      exact ⟨hi, rfl, hsq, hcq, rfl, hcomplete⟩
    · -- an entry from before is for another command, as this one was not posted
      have hentry := h.entry cid j c' hm
      have hne : c' ≠ c := by
        rintro rfl
        rw [hfree] at hentry
        exact absurd hentry.2.2.2.2.1 (by simp)
      rw [setCommand_of_ne _ hne]
      exact hentry
  · intro c' hp
    show ∃ k, (k, c') ∈ (d.outstandingCommands.set _ c).entries
    by_cases hc : c' = c
    · subst hc
      exact ⟨_, Dict.mem_entries_set.mpr (Or.inl ⟨rfl, rfl⟩)⟩
    · unfold NVMeDeviceCommon.started at hp
      rw [setCommand_of_ne _ hc] at hp
      obtain ⟨k, hm⟩ := h.posted c' hp
      rw [hqid]
      exact ⟨k, Dict.mem_entries_set.mpr (Or.inr
        ⟨fun hk => hnew (hk ▸ Dict.mem_keys.mpr ⟨c', hm⟩), hm⟩)⟩
  · intro j hj
    have horder := h.order j hj
    have hle := Nat.le_trans (h.rings.sq j hj).ackLe (h.rings.sq j hj).fetchLe
    show ((d.outstandingCommands.set _ c).keys.filter fun k => k.2 = j).map Prod.fst
      = ((Function.update d.rings.posted i (d.rings.posted i ++ [(d.commands c).sqe]) j).drop
          (d.rings.acked j)).map Generic.CID
    rw [hqid, Dict.keys_set_of_not_mem c hnew, List.filter_append, List.map_append]
    -- the new key comes last, as the command does
    by_cases hji : j = i
    · subst hji
      rw [Function.update_self, List.drop_append_of_le_length hle, List.map_append, ← horder,
        List.filter_cons_of_pos (by simp)]
      rfl
    · rw [Function.update_of_ne hji, ← horder,
        List.filter_cons_of_neg (by simpa using fun he => hji he.symm), List.filter_nil,
        List.map_nil, List.append_nil]
      rfl

/-! ### Starting a command -/

/-- Whether a command sent to queue `i` would get past the sanity checks and into the ring. -/
def canPost (d : NVMeDeviceCommon) (c i : Nat) : Bool :=
  (d.commands c).posted == false && (d.commands c).complete == false
    && (d.rings.hostSq i).isFull (d.rings.SQTAIL (d.rings.hostSq i).qid) == false

theorem canPost_of_postCommand {c i : Nat} {command : Generic} {rings : Rings}
    (hfree : (d.commands c).posted = false) (hcomplete : (d.commands c).complete = false)
    (hok : d.rings.postCommand i command = .ok rings) : d.canPost c i = true := by
  obtain ⟨sqtail, ring, hpost, _⟩ := Rings.postCommand_spec hok
  rw [canPost, hfree, hcomplete, NVMeSubmissionQueue.postCommand_room hpost]
  rfl

/-- If the command is posted, its new CID is not outstanding on the queue it goes to. -/
def DistinctCid (d : NVMeDeviceCommon) (c : Nat) (sqid cqid : Option Nat) : Prop :=
  match d.lookup c sqid cqid with
  | .ok (.queue i, _) => d.canPost c i = true →
      (BitVec.ofNat 16 d.cidMgr.alloc.1, (d.rings.hostSq i).qid) ∉ d.outstandingCommands.keys
  | _ => True

/-- A command that is outstanding is not sent to other queues than those it is on. -/
def KeepsQueues (d : NVMeDeviceCommon) (c : Nat) (sqid cqid : Option Nat) : Prop :=
  match d.lookup c sqid cqid with
  | .ok (sq, cq) => (d.commands c).posted = true → sq ≠ .none → cq ≠ .none →
      (d.commands c).sq = sq ∧ (d.commands c).cq = cq
  | .error _ => True

instance (d : NVMeDeviceCommon) (c : Nat) (sqid cqid : Option Nat) :
    Decidable (d.DistinctCid c sqid cqid) :=
  match hl : d.lookup c sqid cqid with
  | .ok (.queue i, _) => decidable_of_iff
      (d.canPost c i = true →
        (BitVec.ofNat 16 d.cidMgr.alloc.1, (d.rings.hostSq i).qid) ∉ d.outstandingCommands.keys)
      (by rw [DistinctCid, hl])
  | .ok (.none, _) => isTrue (by rw [DistinctCid, hl]; trivial)
  | .ok (.id _, _) => isTrue (by rw [DistinctCid, hl]; trivial)
  | .error _ => isTrue (by rw [DistinctCid, hl]; trivial)

instance (d : NVMeDeviceCommon) (c : Nat) (sqid cqid : Option Nat) :
    Decidable (d.KeepsQueues c sqid cqid) :=
  match hl : d.lookup c sqid cqid with
  | .ok (sq, cq) => decidable_of_iff
      ((d.commands c).posted = true → sq ≠ .none → cq ≠ .none →
        (d.commands c).sq = sq ∧ (d.commands c).cq = cq) (by rw [KeepsQueues, hl])
  | .error _ => isTrue (by rw [KeepsQueues, hl]; trivial)

/-- **`start_cmd` keeps the bookkeeping**, whether it raises or not. -/
theorem Inv.startCmd (h : Inv cfg d) {c : Nat} {sqid cqid : Option Nat}
    (hdist : d.DistinctCid c sqid cqid) (hkeep : d.KeepsQueues c sqid cqid) :
    Inv cfg (d.startCmd c sqid cqid).1 := by
  obtain ⟨qm, hqm, ⟨e, he⟩ | ⟨sq, cq, sqid', hl, hsq, hcq, he⟩⟩ := startCmd_cases d c sqid cqid
  · rw [he]
    exact h.withQueueMgr hqm.nvmeQueues
  · have h₁ : Inv cfg (({ d with queueMgr := qm }).assignQueues c sq cq) := by
      refine (h.withQueueMgr hqm.nvmeQueues).assignQueues fun hp => ?_
      rw [KeepsQueues, hl] at hkeep
      exact hkeep hp hsq hcq
    rw [he]
    rcases startAssigned_cases (d := ({ d with queueMgr := qm }).assignQueues c sq cq) (c := c) sqid'
      with ⟨e, he'⟩ | ⟨i, hsqi, _, hfree, hcomplete, ⟨e, he'⟩ | ⟨rings, r, hok, he', _⟩⟩
    · rw [he']
      exact h₁
    · rw [he']
      exact h₁.allocCid hfree
    · rw [he']
      -- the queues assigned are a configured pair
      have hsqi' : sq = .queue i := by
        rw [NVMeDeviceCommon.assignQueues, setCommand_self] at hsqi; exact hsqi
      subst hsqi'
      have hpair : i ∈ cfg.sqs ∧ cq = .queue (cfg.cqOf i) := by
        unfold NVMeDeviceCommon.lookup at hl
        split at hl
        · exact absurd hl (by simp)
        · rename_i d' _ _ hp
          obtain ⟨qm', hqm', rfl⟩ := pickIds_spec hp
          have hserves : Serves cfg qm'.nvmeQueues := by rw [hqm'.nvmeQueues]; exact h.serves
          exact hserves.get_spec hl
      rw [DistinctCid, hl] at hdist
      refine (h₁.allocCid hfree).started hpair.1 ?_ ?_ ?_ ?_ ?_ hok
      · rw [NVMeDeviceCommon.allocCid, setCommand_self]; exact hsqi
      · rw [NVMeDeviceCommon.allocCid, setCommand_self, NVMeDeviceCommon.assignQueues,
          setCommand_self]
        exact hpair.2
      · rw [NVMeDeviceCommon.allocCid, setCommand_self]; exact hfree
      · rw [NVMeDeviceCommon.allocCid, setCommand_self]; exact hcomplete
      · rw [NVMeDeviceCommon.allocCid, setCommand_self]
        rw [NVMeDeviceCommon.assignQueues, setCommand_self] at hfree hcomplete
        have hnew := hdist (canPost_of_postCommand hfree hcomplete hok)
        rw [(h.rings.hostSqAt i hpair.1).1] at hnew
        exact hnew

/-! ### Processing a completion -/

/-- The state after a completion has been processed. -/
def completed (d : NVMeDeviceCommon) (c i h : Nat) (cqe : CQE) (dataIn : List (BitVec 8)) :
    NVMeDeviceCommon :=
  let command := d.commands c
  let removed := { d with outstandingCommands := d.outstandingCommands.erase (cqe.CID, i) }
  (removed.setCommand c
    { command with
      posted := false
      complete := true
      cqe
      dataIn := command.dataIn.map fun _ => dataIn }).advanceQueues i h cqe

theorem completed_of_ne {c c' i h : Nat} (hc : c' ≠ c) (cqe : CQE) (dataIn : List (BitVec 8)) :
    (d.completed c i h cqe dataIn).commands c' = d.commands c' := Function.update_of_ne hc ..

theorem completed_self (c i h : Nat) (cqe : CQE) (dataIn : List (BitVec 8)) :
    ((d.completed c i h cqe dataIn).commands c).posted = false
      ∧ ((d.completed c i h cqe dataIn).commands c).complete = true := by
  have hself : (d.completed c i h cqe dataIn).commands c = { d.commands c with
      posted := false
      complete := true
      cqe
      dataIn := (d.commands c).dataIn.map fun _ => dataIn } := Function.update_self ..
  rw [hself]
  exact ⟨rfl, rfl⟩

/-- The keys of a queue after its first one is removed; other queues keep theirs. -/
theorem keysOf_completed {c i h : Nat} {cqe : CQE} {rest : List (BitVec 16 × Nat)}
    (dataIn : List (BitVec 8)) (hkeys : d.keysOf i = (cqe.CID, i) :: rest) (j : Nat) :
    (d.completed c i h cqe dataIn).keysOf j = if j = i then rest else d.keysOf j := by
  show (d.outstandingCommands.erase (cqe.CID, i)).keys.filter _ = _
  rw [Dict.keys_erase, List.filter_comm]
  by_cases hji : j = i
  · subst hji
    rw [if_pos rfl]
    change (d.keysOf j).filter _ = _
    have hnodup : (d.keysOf j).Nodup := d.outstandingCommands.nodup.filter _
    rw [hkeys] at hnodup ⊢
    exact filter_ne_head hnodup
  · rw [if_neg hji]
    refine List.filter_eq_self.mpr fun k hk => ?_
    have hk2 : k.2 = j := by simpa using (List.mem_filter.mp hk).2
    have hne : k ≠ (cqe.CID, i) := by
      rintro rfl
      exact hji hk2.symm
    simpa using hne

/-- `complete_command` on a command that is in the map under its own CID and queue. -/
theorem completeCommand_ok {c i h : Nat} {cqe : CQE} (dataIn : List (BitVec 8))
    (hposted : (d.commands c).posted = true) (hcid : (d.commands c).sqe.CID = cqe.CID)
    (hsq : (d.commands c).sq = .queue i) (hcq : (d.commands c).cq = .queue h)
    (hqid : (d.rings.hostSq i).qid = i) (hid : cqe.SQID.toNat = i)
    (hkey : (cqe.CID, i) ∈ d.outstandingCommands.keys) :
    d.completeCommand c cqe (.ok dataIn) = (d.completed c i h cqe dataIn, .ok ()) := by
  unfold completeCommand
  dsimp only
  rw [if_neg (by rw [hposted]; simp), if_neg (by rw [hcid]; simp), hsq, hcq]
  dsimp only
  rw [if_neg (by rw [hqid, hid]; simp), hqid, hcid,
    if_neg (show ¬ (cqe.CID, i) ∉ d.outstandingCommands.keys from fun hn => hn hkey)]
  unfold completed finishCommand
  cases hdata : (d.commands c).dataIn with
  | none => simp only [hdata, hsq, hcq, Option.map_none]
  | some old => simp only [hdata, hsq, hcq, Option.map_some]

/--
**The next completion finds its command.** On a queue in use `get_completion` finds
nothing new, or processes the oldest outstanding command of the queue the entry names.
-/
theorem Inv.getCompletion_cases (h : Inv cfg d) (hadmin : 0 ∈ cfg.sqs ∧ cfg.cqOf 0 = 0) (cqid : Nat)
    (dataIn : List (BitVec 8)) :
    (∃ r, d.getCompletion cqid (.ok dataIn) = (d, r)
        ∧ (cqid ∈ cfg.cqs → d.rings.phaseMatch cqid = false)
        ∧ ∀ msg, r ≠ .error (.keyError msg) ∧ r ≠ .error (.assertionError msg))
      ∨ ∃ c i, i ∈ cfg.sqs ∧ cqid = cfg.cqOf i ∧ d.rings.phaseMatch cqid = true
        ∧ (d.rings.nextCompletion cqid).SQID.toNat = i
        ∧ (((d.rings.nextCompletion cqid).CID, i), c) ∈ d.outstandingCommands.entries
        ∧ (∃ rest, d.keysOf i = ((d.rings.nextCompletion cqid).CID, i) :: rest)
        ∧ d.getCompletion cqid (.ok dataIn)
          = (d.completed c i cqid (d.rings.nextCompletion cqid) dataIn, .ok true) := by
  unfold getCompletion
  rcases h.serves.get_cq hadmin cqid with ⟨hc, sq, hg⟩ | ⟨hc, hg⟩
  · rw [hg]
    dsimp only
    by_cases hm : d.rings.phaseMatch cqid = true
    · rw [if_pos hm]
      have hcons := h.rings.pending_eq_cons hc hm
      obtain ⟨hi, hic⟩ := h.rings.origin cqid hc (d.rings.nextCompletion cqid)
        (by rw [hcons]; exact List.mem_cons_self)
      generalize d.rings.nextCompletion cqid = cqe at hcons hi hic ⊢
      generalize hid : cqe.SQID.toNat = i at hi hic ⊢
      -- its CID is that of the oldest unacknowledged command of queue `i`
      have hcids := h.rings.cids i hi
      rw [hic, Rings.pendingOf, hcons, List.filter_cons_of_pos (by simpa using hid), List.map_cons,
        ← h.order i hi] at hcids
      obtain ⟨key, rest, hkeys, hfst⟩ : ∃ key rest, d.keysOf i = key :: rest ∧ key.1 = cqe.CID := by
        obtain ⟨zs, hzs⟩ := hcids
        cases hk : d.keysOf i with
        | nil => rw [hk] at hzs; exact absurd hzs (by simp)
        | cons key rest =>
            rw [hk, List.map_cons] at hzs
            exact ⟨key, rest, rfl, (List.cons.inj hzs).1.symm⟩
      have hmem : key ∈ d.keysOf i := by rw [hkeys]; exact List.mem_cons_self
      obtain ⟨hkmem, hsnd⟩ := List.mem_filter.mp hmem
      have hkey : key = (cqe.CID, i) := Prod.ext hfst (by simpa using hsnd)
      subst hkey
      obtain ⟨c, hentry⟩ := Dict.mem_keys.mp hkmem
      obtain ⟨_, hcid, hsq, hcq, hposted, _⟩ := h.entry _ _ _ hentry
      rw [hic] at hcq
      refine Or.inr ⟨c, i, hi, hic.symm, hm, rfl, hentry, ⟨rest, hkeys⟩, ?_⟩
      rw [Dict.get?_eq_some_iff.mpr hentry]
      dsimp only
      rw [completeCommand_ok dataIn hposted hcid hsq hcq (h.rings.hostSqAt i hi).1 hid hkmem]
    · rw [if_neg hm]
      exact Or.inl ⟨_, rfl, fun _ => by simpa using hm, by simp⟩
  · rw [hg]
    exact Or.inl ⟨_, rfl, fun hmem => absurd hmem hc, by simp⟩

/-- **`get_completion` keeps the bookkeeping.** -/
theorem Inv.getCompletion (h : Inv cfg d) (hadmin : 0 ∈ cfg.sqs ∧ cfg.cqOf 0 = 0) (cqid : Nat)
    (dataIn : List (BitVec 8)) : Inv cfg (d.getCompletion cqid (.ok dataIn)).1 := by
  rcases h.getCompletion_cases hadmin cqid dataIn with
    ⟨r, he, _, _⟩ | ⟨c, i, hi, hc, hm, hid, hentry, ⟨rest, hkeys⟩, he⟩
  · rw [he]
    exact h
  · rw [he]
    have hcq : cqid ∈ cfg.cqs := hc ▸ RingsConfig.cqOf_mem hi
    have hrings : d.rings.getCompletion cqid = some ((d.rings.consumeCompletion cqid).setHead i
        (d.rings.nextCompletion cqid).SQHD.toNat) := by
      rw [Rings.getCompletion, if_pos hm, hid]
    generalize d.rings.nextCompletion cqid = cqe at hentry hkeys he hrings ⊢
    refine ⟨h.serves, h.rings.getCompletion hcq hrings, ?_, ?_, ?_⟩
    · intro cid j c' hm'
      obtain ⟨hne, hm'⟩ := Dict.mem_entries_erase.mp hm'
      have hentry' := h.entry cid j c' hm'
      -- another key of the map belongs to another command
      have hc' : c' ≠ c := by
        rintro rfl
        obtain ⟨_, hcid, hsq, _⟩ := h.entry _ _ _ hentry
        obtain ⟨_, hcid', hsq', _⟩ := hentry'
        rw [hsq] at hsq'
        injection hsq' with hij
        exact hne (Prod.ext (hcid'.symm.trans hcid) hij.symm)
      rw [completed_of_ne hc']
      exact hentry'
    · intro c' hp
      have hc' : c' ≠ c := by
        rintro rfl
        rw [(completed_self c' i cqid cqe dataIn).1] at hp
        exact absurd hp (by simp)
      rw [completed_of_ne hc'] at hp
      obtain ⟨k, hk⟩ := h.posted c' hp
      refine ⟨k, Dict.mem_entries_erase.mpr ⟨?_, hk⟩⟩
      rintro rfl
      exact hc' (Dict.entries_inj hk hentry)
    · intro j hj
      rw [keysOf_completed dataIn hkeys]
      show _ = ((d.rings.posted j).drop (Function.update d.rings.acked i _ j)).map Generic.CID
      by_cases hji : j = i
      · subst hji
        have horder := h.order j hj
        rw [hkeys, List.map_cons] at horder
        have htail := congrArg List.tail horder
        rw [List.tail_cons, ← List.map_tail, List.tail_drop] at htail
        rw [if_pos rfl, Function.update_self]
        exact htail
      · rw [if_neg hji, Function.update_of_ne hji]
        exact h.order j hj

/-! ## Every run -/

/-- The host's two calls and the device's fetch-and-complete. -/
inductive Op where
  | startCmd (c : Nat) (sqid cqid : Option Nat)
  | fetchComplete (i statusCode : Nat) (cmdSpec : BitVec 32)
  /-- Should a data-in copy be made, `dataIn` is its result. -/
  | getCompletion (cqid : Nat) (dataIn : Except Exc (List (BitVec 8)))

def step (cfg : RingsConfig) (d : NVMeDeviceCommon) : Op → Option NVMeDeviceCommon
  | .startCmd c sqid cqid => some (d.startCmd c sqid cqid).1
  | .fetchComplete i statusCode cmdSpec =>
      if i ∈ cfg.sqs then
        ((d.rings.fetchComplete i (cfg.cqOf i) statusCode cmdSpec).bind Except.toOption).map
          fun rings => { d with rings }
      else none
  | .getCompletion cqid dataIn => some (d.getCompletion cqid dataIn).1

/-- Empty queues, nothing outstanding, command objects as constructed. -/
structure Init (cfg : RingsConfig) (d : NVMeDeviceCommon) : Prop where
  serves : Serves cfg d.queueMgr.nvmeQueues
  rings : Rings.Init cfg d.rings
  outstanding : d.outstandingCommands.entries = []
  commands : ∀ c, (d.commands c).posted = false ∧ (d.commands c).complete = false

/-- One device with the given queue pairs. -/
def machine (cfg : RingsConfig) : Machine NVMeDeviceCommon Op := ⟨Init cfg, step cfg⟩

/-- Commands outstanding on one queue get different CIDs, and data-in copies succeed. -/
def DistinctCids (d : NVMeDeviceCommon) : Op → Prop
  | .startCmd c sqid cqid => d.DistinctCid c sqid cqid
  | .getCompletion _ dataIn => dataIn.isOk = true
  | .fetchComplete .. => True

/-- Besides, no outstanding command is sent to another queue. -/
def DistinctCidsKept (d : NVMeDeviceCommon) : Op → Prop
  | .startCmd c sqid cqid => d.DistinctCid c sqid cqid ∧ d.KeepsQueues c sqid cqid
  | .getCompletion _ dataIn => dataIn.isOk = true
  | .fetchComplete .. => True

instance (d : NVMeDeviceCommon) : (a : Op) → Decidable (d.DistinctCids a)
  | .startCmd c sqid cqid => inferInstanceAs (Decidable (d.DistinctCid c sqid cqid))
  | .getCompletion _ dataIn => inferInstanceAs (Decidable (dataIn.isOk = true))
  | .fetchComplete .. => inferInstanceAs (Decidable True)

instance (d : NVMeDeviceCommon) : (a : Op) → Decidable (d.DistinctCidsKept a)
  | .startCmd c sqid cqid =>
      inferInstanceAs (Decidable (d.DistinctCid c sqid cqid ∧ d.KeepsQueues c sqid cqid))
  | .getCompletion _ dataIn => inferInstanceAs (Decidable (dataIn.isOk = true))
  | .fetchComplete .. => inferInstanceAs (Decidable True)

theorem inv_init (h : Init cfg d) : Inv cfg d := by
  have hkeys : ∀ i, d.keysOf i = [] := fun i => by
    rw [keysOf, Dict.keys, h.outstanding]; rfl
  refine ⟨h.serves, Rings.inv_init h.rings, ?_, ?_, ?_⟩
  · intro cid i c hm
    rw [h.outstanding] at hm; exact absurd hm (by simp)
  · intro c hp
    rw [(h.commands c).1] at hp; exact absurd hp (by simp)
  · intro i _
    rw [hkeys, (h.rings.posted i).1, List.drop_nil]
    rfl

theorem inv_step (hfit : cfg.HeadsFit) (hadmin : 0 ∈ cfg.sqs ∧ cfg.cqOf 0 = 0)
    {d' : NVMeDeviceCommon} {a : Op} (h : Inv cfg d) (hok : d.DistinctCidsKept a)
    (hs : step cfg d a = some d') : Inv cfg d' := by
  cases a with
  | startCmd c sqid cqid =>
      rw [← Option.some.inj hs]
      exact h.startCmd hok.1 hok.2
  | fetchComplete i statusCode cmdSpec =>
      obtain ⟨hi, hp⟩ := Option.ite_none_right_eq_some.mp hs
      obtain ⟨rings, hr, rfl⟩ := Option.map_eq_some_iff.mp hp
      obtain ⟨x, hx, hr'⟩ := Option.bind_eq_some_iff.mp hr
      rw [toOption_eq_some hr'] at hx
      have hrings := h.rings.fetchComplete hfit hi hx
      obtain ⟨_, _, _, _, _, _, rfl⟩ := Rings.fetchComplete_spec hx
      -- the device moves neither the posted commands nor the acknowledged ones
      exact ⟨h.serves, hrings, h.entry, h.posted, h.order⟩
  | getCompletion cqid dataIn =>
      rw [← Option.some.inj hs]
      cases dataIn with
      | ok bytes => exact h.getCompletion hadmin cqid bytes
      | error e => exact absurd hok (by simp [DistinctCidsKept, Except.isOk, Except.toBool])

/-- **What the bookkeeping promises in a state.** -/
structure Booked (cfg : RingsConfig) (d : NVMeDeviceCommon) : Prop where
  /-- The map holds as many keys of a queue as its head lags behind its tail. -/
  count : ∀ i ∈ cfg.sqs, ((d.outstandingCommands.keys.filter fun k => k.2 = i).length : Int)
    = ((d.rings.SQTAIL i : Int) - (d.rings.hostSq i).head) % (d.rings.hostSq i).entries
  /-- A command is in the map exactly when it is posted and not complete. -/
  flags : ∀ c, (∃ k, (k, c) ∈ d.outstandingCommands.entries)
    ↔ (d.commands c).posted = true ∧ (d.commands c).complete = false
  /-- No completion misses its command or trips an assertion. -/
  completion : ∀ cqid dataIn msg,
    (d.getCompletion cqid (.ok dataIn)).2 ≠ .error (.keyError msg)
      ∧ (d.getCompletion cqid (.ok dataIn)).2 ≠ .error (.assertionError msg)
  /-- An asserting `start_cmd`, `SQ FULL` among them, leaves map, rings and flags alone. -/
  refused : ∀ c sqid cqid msg, (d.startCmd c sqid cqid).2 = .error (.assertionError msg) →
    (d.startCmd c sqid cqid).1.outstandingCommands = d.outstandingCommands
      ∧ (d.startCmd c sqid cqid).1.rings = d.rings
      ∧ ∀ c', ((d.startCmd c sqid cqid).1.commands c').posted = (d.commands c').posted

/-- A `start_cmd` that asserts has changed only ids, queues and the CID of its command. -/
theorem startCmd_refused (d : NVMeDeviceCommon) {c : Nat} {sqid cqid : Option Nat} {msg : String}
    (hr : (d.startCmd c sqid cqid).2 = .error (.assertionError msg)) :
    (d.startCmd c sqid cqid).1.outstandingCommands = d.outstandingCommands
      ∧ (d.startCmd c sqid cqid).1.rings = d.rings
      ∧ ∀ c', ((d.startCmd c sqid cqid).1.commands c').posted = (d.commands c').posted := by
  obtain ⟨qm, _, ⟨e, he⟩ | ⟨sq, cq, sqid', _, _, _, he⟩⟩ := startCmd_cases d c sqid cqid
  · rw [he]
    exact ⟨rfl, rfl, fun _ => rfl⟩
  · rw [he] at hr ⊢
    rcases startAssigned_cases (d := ({ d with queueMgr := qm }).assignQueues c sq cq) (c := c) sqid'
      with ⟨e, he'⟩ | ⟨i, _, _, _, _, ⟨e, he'⟩ | ⟨rings, r, _, he', hne⟩⟩
    · rw [he']
      exact ⟨rfl, rfl, posted_assignQueues { d with queueMgr := qm } c sq cq⟩
    · rw [he']
      refine ⟨rfl, rfl, fun c' => ?_⟩
      rw [posted_allocCid, posted_assignQueues]
    · rw [he'] at hr
      exact absurd hr (hne msg)

/--
**The bookkeeping matches the rings** in every run in which outstanding commands of
one queue have different CIDs and no outstanding command is sent to another queue.

The second condition is about starts that are refused: `start_cmd` writes the new queues into
the command before it looks whether the command is outstanding, and a completion is checked
against what it wrote.
-/
theorem booked_of_kept (hfit : cfg.HeadsFit) (hadmin : 0 ∈ cfg.sqs ∧ cfg.cqOf 0 = 0)
    (h : (machine cfg).ReachableBy DistinctCidsKept d) : Booked cfg d := by
  have hi : Inv cfg d := Machine.ReachableBy.invariant (I := Inv cfg) (fun _ h0 => inv_init h0)
    (fun _ _ _ _ hi hok hs => inv_step hfit hadmin hi hok hs) h
  refine ⟨?_, ?_, ?_, fun _ _ _ _ hr => startCmd_refused d hr⟩
  · intro i hmem
    have hsq := hi.rings.sq i hmem
    have hle := Nat.le_trans hsq.ackLe hsq.fetchLe
    have hlen := congrArg List.length (hi.order i hmem)
    rw [List.length_map, List.length_map, List.length_drop] at hlen
    rw [hsq.tail, hsq.hostHead, hsq.hostEntries, Ring.sub_window hle hsq.gap, ← hlen]
    rfl
  · intro c
    constructor
    · rintro ⟨⟨cid, i⟩, hm⟩
      exact (hi.entry cid i c hm).2.2.2.2
    · rintro ⟨hp, _⟩
      exact hi.posted c hp
  · intro cqid dataIn msg
    rcases hi.getCompletion_cases hadmin cqid dataIn with
      ⟨r, he, _, hr⟩ | ⟨_, _, _, _, _, _, _, _, he⟩
    · rw [he]; exact hr msg
    · rw [he]; simp

/-! ### A device with an admin pair and two IO queues on one completion queue -/

def sharedPairs : RingsConfig where
  sqs := {0, 1, 2}
  cqOf i := if i = 0 then 0 else 1
  sqEntries _ := 4
  cqEntries _ := 8
  sqBase i := i
  cqBase c := c
  sqEntries_pos := by decide
  cqEntries_pos := by decide
  sqEntries_le := by decide
  cqEntries_le := by decide
  sqid_lt := by decide
  sqBase_inj := by decide
  cqBase_inj := by decide

def sharedDevice : NVMeDeviceCommon where
  cidMgr := {}
  queueMgr := ((QueueMgr.add {} 0 0 0 0).add 1 1 1 1).add 2 2 1 1
  outstandingCommands := Dict.empty
  commands _ := {}
  rings := Rings.start sharedPairs

theorem serves_sharedDevice : Serves sharedPairs sharedDevice.queueMgr.nvmeQueues := by
  rintro ⟨i, c⟩ v
  show ((i, c), v) ∈ [((0, 0), (some 0, some 0)), ((1, 1), (some 1, some 1)),
    ((2, 1), (some 2, some 1))] ↔ i ∈ ({0, 1, 2} : Finset Nat) ∧ c = (if i = 0 then 0 else 1)
      ∧ v = (some i, some c)
  simp only [List.mem_cons, Prod.mk.injEq, List.not_mem_nil, or_false, Finset.mem_insert,
    Finset.mem_singleton]
  constructor
  · rintro (⟨⟨rfl, rfl⟩, rfl⟩ | ⟨⟨rfl, rfl⟩, rfl⟩ | ⟨⟨rfl, rfl⟩, rfl⟩) <;> simp
  · rintro ⟨rfl | rfl | rfl, rfl, rfl⟩ <;> simp

theorem init_sharedDevice : Init sharedPairs sharedDevice :=
  ⟨serves_sharedDevice, Rings.init_start sharedPairs, rfl, fun _ => ⟨rfl, rfl⟩⟩

/-- Two commands on the two queues; the second one is answered and processed first. -/
def crossedRun : List Op :=
  [.startCmd 0 (some 1) none, .startCmd 1 (some 2) none, .fetchComplete 2 0 0,
    .getCompletion 1 (.ok [])]

theorem booked_of_kept_crossedRun :
    ∃ d, (machine sharedPairs).runBy DistinctCidsKept sharedDevice crossedRun = some d
      ∧ (d.commands 1).complete = true ∧ Booked sharedPairs d :=
  ⟨_, rfl, rfl, @booked_of_kept sharedPairs _ (by decide) (by decide)
    ((Machine.ReachableBy.init init_sharedDevice).run crossedRun rfl)⟩

/-- An outstanding command is started again on the other queue, refused, and then answered. -/
def refusedRun : List Op :=
  [.startCmd 0 (some 1) none, .startCmd 0 (some 2) none, .fetchComplete 1 0 0]

/-- The refused start has put the wrong queue into the command; its completion asserts. -/
theorem not_booked_refusedRun :
    ¬ ∀ cfg : RingsConfig, cfg.HeadsFit → (0 ∈ cfg.sqs ∧ cfg.cqOf 0 = 0) →
      ∀ d, (machine cfg).ReachableBy DistinctCids d → Booked cfg d := by
  intro hall
  have hbooked := hall sharedPairs (by decide) (by decide) _
    ((Machine.ReachableBy.init init_sharedDevice).run refusedRun rfl)
  exact (hbooked.completion 1 [] "sqid mismatch").2 rfl

end NVMeDeviceCommon

end LoneNvme
