import LoneNvme.NVSim

/-!
# One command at a time

`sync_cmd` posts a command and polls its completion queue until it completed. On
queues that are idle otherwise the simulator fetches exactly that command, there is
room for its completion, and it is the next one the host sees. `syncCmd_eq` turns
what a handler answers into what the whole call returns.

`Idle` is kept, so calls can be put one behind the other. Everything that is said about whole
sessions is `syncCmd_eq` at a handler; what the handler does to the rest of the simulator is
all that is left to say there.
-/

namespace LoneNvme

open Lib

namespace RingsConfig

/-- Queues that can hold an entry: one slot always stays free. -/
def Usable (cfg : RingsConfig) : Prop :=
  ∀ i ∈ cfg.sqs, 2 ≤ cfg.sqEntries i ∧ 2 ≤ cfg.cqEntries (cfg.cqOf i)

instance (cfg : RingsConfig) : Decidable cfg.Usable :=
  inferInstanceAs (Decidable (∀ i ∈ cfg.sqs, 2 ≤ cfg.sqEntries i ∧ 2 ≤ cfg.cqEntries (cfg.cqOf i)))

end RingsConfig

namespace Rings

variable {cfg : RingsConfig} {r : Rings} {i : Nat}

/-- Every command posted was completed, and the completion consumed. -/
def Idle (cfg : RingsConfig) (r : Rings) : Prop :=
  ∀ i ∈ cfg.sqs, r.acked i = (r.posted i).length

/-- Then no completion is on its way. -/
theorem Idle.pending (hidle : Idle cfg r) (h : Inv cfg r) {c : Nat} (hc : c ∈ cfg.cqs) :
    r.pending c = [] := by
  cases hp : r.pending c with
  | nil => rfl
  | cons cqe rest =>
      exfalso
      have hmem : cqe ∈ r.pending c := by rw [hp]; exact List.mem_cons_self
      -- it would be in the flight of the queue it names, which is empty
      obtain ⟨hi, hic⟩ := h.origin c hc cqe hmem
      have hcount := h.count _ hi
      have hle := (h.sq _ hi).fetchLe
      have hack := hidle _ hi
      have hflight : r.pendingOf (cfg.cqOf cqe.SQID.toNat) cqe.SQID.toNat = [] :=
        List.length_eq_zero_iff.mp (by omega)
      rw [hic] at hflight
      have hin : cqe ∈ r.pendingOf c cqe.SQID.toNat :=
        List.mem_filter.mpr ⟨hmem, decide_eq_true rfl⟩
      rw [hflight] at hin
      exact absurd hin (by simp)

/-- **Posting** on an idle queue. -/
theorem Idle.post (hidle : Idle cfg r) (husable : cfg.Usable) (h : Inv cfg r) (hi : i ∈ cfg.sqs)
    (command : Generic) : ∃ r', r.postCommand i command = .ok r' ∧ Inv cfg r'
      ∧ r'.posted = Function.update r.posted i (r.posted i ++ [command])
      ∧ r'.fetched = r.fetched ∧ r'.acked = r.acked
      ∧ r'.cposted = r.cposted ∧ r'.consumed = r.consumed := by
  have hnf : (r.hostSq i).isFull (r.SQTAIL (r.hostSq i).qid) = false := by
    rw [(h.hostSqAt i hi).1, Bool.eq_false_iff, Ne, (h.sq i hi).isFull_iff, hidle i hi]
    have := (husable i hi).1
    omega
  obtain ⟨r', hok⟩ : ∃ r', r.postCommand i command = .ok r' := by
    unfold postCommand
    dsimp only
    rw [NVMeSubmissionQueue.postCommand_ok hnf]
    exact ⟨_, rfl⟩
  obtain ⟨_, _, _, rfl⟩ := postCommand_spec hok
  exact ⟨_, hok, h.postCommand hi hok, rfl, rfl, rfl, rfl, rfl⟩

/-- **Fetching** the only command there is. -/
theorem Inv.fetch_last (h : Inv cfg r) (hi : i ∈ cfg.sqs) {before : List Generic}
    {command : Generic} (hposted : r.posted i = before ++ [command])
    (hfetched : r.fetched i = before.length) : ∃ slot sq',
      (r.simSq i).getCommand (r.SQTAIL (r.simSq i).qid) = some (slot, sq')
        ∧ r.sqRing (r.simSq i).baseAddress slot = command := by
  have hsq := h.sq i hi
  rw [(h.simSqAt i hi).1, (h.simSqAt i hi).2]
  cases hget : (r.simSq i).getCommand (r.SQTAIL i) with
  | none =>
      have hall := hsq.getCommand_none_iff.mp hget
      rw [hposted, List.length_append, List.length_singleton] at hall
      omega
  | some after =>
      obtain ⟨slot, sq'⟩ := after
      obtain ⟨hlt, hslot, _⟩ := hsq.fetch (cfg.sqEntries_le i hi) hget
      refine ⟨slot, sq', rfl, ?_⟩
      have hlast : (r.posted i)[r.fetched i]? = some command := by
        rw [hposted, hfetched, List.getElem?_append_right (Nat.le_refl _), Nat.sub_self]
        rfl
      rw [hslot, hsq.slot hlt hsq.ackLe]
      exact Option.some.inj ((List.getElem?_eq_getElem hlt).symm.trans hlast)

/-- **Completing** when nothing else is on its way. -/
theorem Inv.room_of_empty (husable : cfg.Usable) (h : Inv cfg r) (hi : i ∈ cfg.sqs)
    (hempty : r.pending (cfg.cqOf i) = []) :
    (r.simCq (cfg.cqOf i)).isFull (r.CQHEAD (r.simCq (cfg.cqOf i)).qid) = false := by
  have hc := RingsConfig.cqOf_mem hi
  have hcq := h.cq _ hc
  have hle := hcq.le
  have hnone := List.drop_eq_nil_iff.mp hempty
  rw [(h.simCqAt _ hc).1, Bool.eq_false_iff, Ne, hcq.isFull_iff]
  have := (husable i hi).2
  omega

/-- The rings once the simulator's object `i` was moved on to `sq`. -/
def withFetch (r : Rings) (i : Nat) (sq : NVMeSubmissionQueue) : Rings :=
  { r with
    simSq := Function.update r.simSq i sq
    fetched := Function.update r.fetched i (r.fetched i + 1) }

theorem getCommand_eq {slot : Nat} {sq' : NVMeSubmissionQueue}
    (h : (r.simSq i).getCommand (r.SQTAIL (r.simSq i).qid) = some (slot, sq')) :
    r.getCommand i = some (r.sqRing (r.simSq i).baseAddress slot, r.withFetch i sq') := by
  unfold getCommand
  dsimp only
  rw [h]
  rfl

/-- Fetching and then completing is what `fetchComplete` does in one step. -/
theorem withFetch_complete {c statusCode : Nat} {sq' : NVMeSubmissionQueue} {cid : BitVec 16}
    {cmdSpec : BitVec 32} :
    (r.withFetch i sq').complete cid i c statusCode cmdSpec
      = (NVSimCmdHandlerInterface.complete cid sq' (r.simCq c) (r.CQHEAD (r.simCq c).qid)
          (r.cqRing (r.simCq c).baseAddress) statusCode cmdSpec).map fun after =>
            r.withCompletion i c sq' after.1 after.2
              (NVSimCmdHandlerInterface.completionEntry cid sq' statusCode cmdSpec) := by
  have hsq : (r.withFetch i sq').simSq i = sq' := Function.update_self ..
  unfold complete
  rw [hsq]
  dsimp only [withFetch]
  cases NVSimCmdHandlerInterface.complete cid sq' (r.simCq c) (r.CQHEAD (r.simCq c).qid)
    (r.cqRing (r.simCq c).baseAddress) statusCode cmdSpec <;> rfl

/-- **Answering** the command just fetched, nothing else being on its way. -/
theorem Inv.answer (husable : cfg.Usable) (hfit : cfg.HeadsFit) (h : Inv cfg r) (hi : i ∈ cfg.sqs)
    {slot : Nat} {sq' : NVMeSubmissionQueue}
    (hget : (r.simSq i).getCommand (r.SQTAIL (r.simSq i).qid) = some (slot, sq'))
    (hempty : r.pending (cfg.cqOf i) = []) (statusCode : Nat) (cmdSpec : BitVec 32) :
    ∃ r' cqe, (r.withFetch i sq').complete (r.sqRing (r.simSq i).baseAddress slot).CID i
          (cfg.cqOf i) statusCode cmdSpec = .ok r'
      ∧ Inv cfg r' ∧ r'.pending (cfg.cqOf i) = [cqe] ∧ r'.posted = r.posted ∧ r'.acked = r.acked
      ∧ cqe.CID = (r.sqRing (r.simSq i).baseAddress slot).CID ∧ cqe.SQID.toNat = i
      ∧ cqe.SF.SC = BitVec.ofNat 8 statusCode ∧ cqe.CMD_SPEC = cmdSpec ∧ cqe.SF.SCT = 0 := by
  have hc := RingsConfig.cqOf_mem hi
  have hroom := h.room_of_empty husable hi hempty
  have hqid : sq'.qid = i := by
    have hget' := hget
    rw [(h.simSqAt i hi).1] at hget'
    exact ((h.sq i hi).fetch (cfg.sqEntries_le i hi) hget').2.2.1.trans (h.simSqAt i hi).1
  have hpost := @NVMeCompletionQueue.postCompletion_ok _ _
    (r.cqRing (r.simCq (cfg.cqOf i)).baseAddress)
    (NVSimCmdHandlerInterface.completionEntry (r.sqRing (r.simSq i).baseAddress slot).CID sq'
      statusCode cmdSpec) hroom
  -- the entry as the simulator writes it
  have hlogged := slot_eq_logged hpost
  generalize hcqe : CQE.setP (NVSimCmdHandlerInterface.completionEntry _ _ _ _) _ = cqe at hpost hlogged
  have hfetch := fetchComplete_eq hget hpost
  refine ⟨_, cqe, ?_, h.fetchComplete hfit hi hfetch, ?_, rfl, rfl, ?_, ?_, ?_, ?_, ?_⟩
  · rw [withFetch_complete, NVSimCmdHandlerInterface.complete, hpost]
    rfl
  · have hpush := pending_push (h.cq _ hc).le (r.withCompletion i (cfg.cqOf i) sq'
      { r.simCq (cfg.cqOf i) with
        tail := NVMeHeadTail.advance (r.simCq (cfg.cqOf i)).entries (r.simCq (cfg.cqOf i)).tail }
      (Function.update (r.cqRing (r.simCq (cfg.cqOf i)).baseAddress) (r.simCq (cfg.cqOf i)).tail cqe)
      (NVSimCmdHandlerInterface.completionEntry (r.sqRing (r.simSq i).baseAddress slot).CID sq'
        statusCode cmdSpec))
      (by rw [withCompletion, ← hlogged, Function.update_self]) rfl (cfg.cqOf i)
    rw [if_pos rfl, hempty] at hpush
    exact hpush
  · rw [← hcqe]
    rfl
  · rw [← hcqe]
    show (BitVec.ofNat 16 sq'.qid).toNat = i
    rw [BitVec.toNat_ofNat, hqid, Nat.mod_eq_of_lt (cfg.sqid_lt i hi)]
  · rw [← hcqe]
    rfl
  · rw [← hcqe]
    rfl
  · rw [← hcqe]
    rfl

/-- **Consuming** the only completion on its way. -/
theorem Inv.consume_last (h : Inv cfg r) (hi : i ∈ cfg.sqs) {cqe : CQE}
    (hpending : r.pending (cfg.cqOf i) = [cqe]) (hsqid : cqe.SQID.toNat = i) :
    ∃ r', r.getCompletion (cfg.cqOf i) = some r' ∧ r.nextCompletion (cfg.cqOf i) = cqe
      ∧ Inv cfg r' ∧ r'.posted = r.posted
      ∧ r'.acked = Function.update r.acked i (r.acked i + 1) := by
  have hc := RingsConfig.cqOf_mem hi
  have hm : r.phaseMatch (cfg.cqOf i) = true := (h.phaseMatch_iff hc).mpr (by rw [hpending]; simp)
  have hnext : r.nextCompletion (cfg.cqOf i) = cqe := by
    have hcons := h.pending_eq_cons hc hm
    rw [hpending] at hcons
    exact (List.cons.inj hcons).1.symm
  have hok : r.getCompletion (cfg.cqOf i)
      = some ((r.consumeCompletion (cfg.cqOf i)).setHead i cqe.SQHD.toNat) := by
    unfold Rings.getCompletion
    dsimp only
    rw [hm, hnext, hsqid]
    rfl
  exact ⟨_, hok, hnext, h.getCompletion hc hok, rfl, rfl⟩

/--
**The round trip of one command**: it is what the simulator fetches, and whatever
status it is completed with reaches the host, as the answer to this command.
-/
theorem Idle.roundTrip (hidle : Idle cfg r) (husable : cfg.Usable) (hfit : cfg.HeadsFit)
    (h : Inv cfg r) (hi : i ∈ cfg.sqs) (command : Generic) :
    ∃ r₁ r₂, r.postCommand i command = .ok r₁ ∧ r₁.getCommand i = some (command, r₂)
      ∧ ∀ statusCode cmdSpec, ∃ r₃ r₄,
          r₂.complete command.CID i (cfg.cqOf i) statusCode cmdSpec = .ok r₃
            ∧ r₃.getCompletion (cfg.cqOf i) = some r₄ ∧ Inv cfg r₄ ∧ Idle cfg r₄
            ∧ (r₃.nextCompletion (cfg.cqOf i)).CID = command.CID
            ∧ (r₃.nextCompletion (cfg.cqOf i)).SF.SC = BitVec.ofNat 8 statusCode
            ∧ (r₃.nextCompletion (cfg.cqOf i)).CMD_SPEC = cmdSpec
            ∧ (r₃.nextCompletion (cfg.cqOf i)).SF.SCT = 0 := by
  obtain ⟨r₁, hpost, h₁, hposted, hfetched, hacked, hcposted, hconsumed⟩ :=
    hidle.post husable h hi command
  have hself : r₁.posted i = r.posted i ++ [command] := by rw [hposted, Function.update_self]
  -- nothing was waiting, so the command is the one to be fetched
  have hlen : r.fetched i = (r.posted i).length := by
    have hle := (h.sq i hi).fetchLe
    have hack := (h.sq i hi).ackLe
    have := hidle i hi
    omega
  obtain ⟨slot, sq', hget, hcommand⟩ := h₁.fetch_last hi hself (by rw [hfetched, hlen])
  have hempty : r₁.pending (cfg.cqOf i) = [] := by
    have hp := hidle.pending h (RingsConfig.cqOf_mem hi)
    rw [Rings.pending] at hp ⊢
    rw [hcposted, hconsumed]
    exact hp
  refine ⟨r₁, r₁.withFetch i sq', hpost, by rw [getCommand_eq hget, hcommand], ?_⟩
  intro statusCode cmdSpec
  obtain ⟨r₃, cqe, hcomplete, h₃, hpending, hposted₃, hacked₃, hcid, hsqid, hsc, hspec, hsct⟩ :=
    h₁.answer husable hfit hi hget hempty statusCode cmdSpec
  obtain ⟨r₄, hconsume, hnext, h₄, hposted₄, hacked₄⟩ := h₃.consume_last hi hpending hsqid
  rw [hcommand] at hcomplete hcid
  refine ⟨r₃, r₄, hcomplete, hconsume, h₄, ?_, by rw [hnext, hcid], by rw [hnext, hsc],
    by rw [hnext, hspec], by rw [hnext, hsct]⟩
  intro j hj
  rw [hposted₄, hposted₃, hposted, hacked₄, hacked₃, hacked]
  by_cases hji : j = i
  · subst hji
    rw [Function.update_self, Function.update_self, List.length_append, hidle j hj]
    rfl
  · rw [Function.update_of_ne hji, Function.update_of_ne hji]
    exact hidle j hj

end Rings

namespace NVSim

/--
`sync_cmd` on the pair `i`, `c`, without the final status check. The simulator serves
the queue meanwhile; if its thread ends, the polling runs out of time.
-/
def syncCmd (handlers : BitVec 8 → NVSim → Generic → Nat → Nat → Except Exc NVSim)
    (nvsim : NVSim) (i c : Nat) (command : Generic) : Except Exc (NVSim × CQE) := do
  let rings ← nvsim.rings.postCommand i command
  match { nvsim with rings }.serve handlers i c with
  | some (.ok nvsim) =>
      match nvsim.rings.getCompletion c with
      | some rings => .ok ({ nvsim with rings }, nvsim.rings.nextCompletion c)
      | none => .error (.assertionError "Command not complete at the end of sync_cmd")
  | _ => .error (.assertionError "Command not complete at the end of sync_cmd")

section

variable {cfg : RingsConfig} {nvsim : NVSim} {i : Nat}
  {handlers : BitVec 8 → NVSim → Generic → Nat → Nat → Except Exc NVSim}

/--
**One command on idle queues.** The simulator handles it, whatever the handler answers
reaches the caller, and the call fails if the handler does.
-/
theorem syncCmd_answer (hidle : nvsim.rings.Idle cfg) (husable : cfg.Usable) (hfit : cfg.HeadsFit)
    (h : nvsim.rings.Inv cfg) (hi : i ∈ cfg.sqs) (command : Generic) :
    ∃ rings : Rings,
      (∀ result, nvsim.syncCmd handlers i (cfg.cqOf i) command = .ok result →
        ∃ after, handlers command.OPC { nvsim with rings } command i (cfg.cqOf i) = .ok after)
      ∧ ∀ (after : NVSim) (statusCode : Nat) (cmdSpec : BitVec 32),
        handlers command.OPC { nvsim with rings } command i (cfg.cqOf i)
          = complete { after with rings } command.CID i (cfg.cqOf i) statusCode cmdSpec →
        ∃ rings' cqe, nvsim.syncCmd handlers i (cfg.cqOf i) command
            = .ok ({ after with rings := rings' }, cqe)
          ∧ rings'.Inv cfg ∧ rings'.Idle cfg
          ∧ cqe.CID = command.CID ∧ cqe.SF.SC = BitVec.ofNat 8 statusCode
          ∧ cqe.CMD_SPEC = cmdSpec ∧ cqe.SF.SCT = 0 := by
  obtain ⟨r₁, r₂, hpost, hget, hanswer⟩ := hidle.roundTrip husable hfit h hi command
  refine ⟨r₂, fun result hresult => ?_, fun after statusCode cmdSpec hhandler => ?_⟩
  · unfold syncCmd serve at hresult
    rw [hpost] at hresult
    dsimp only [bind, Except.bind] at hresult
    rw [hget] at hresult
    dsimp only at hresult
    split at hresult
    · rename_i after hafter
      exact ⟨after, Option.some.inj hafter⟩
    · exact absurd hresult (by simp)
  · obtain ⟨r₃, r₄, hcomplete, hconsume, h₄, hidle₄, hcid, hsc, hspec, hsct⟩ := hanswer statusCode cmdSpec
    -- the device fetches what was posted, and the handler ends with `complete`
    have hserve : { nvsim with rings := r₁ }.serve handlers i (cfg.cqOf i)
        = some (.ok { after with rings := r₃ }) := by
      unfold serve
      rw [hget]
      dsimp only
      rw [hhandler]
      unfold complete
      rw [hcomplete]
    refine ⟨r₄, _, ?_, h₄, hidle₄, hcid, hsc, hspec, hsct⟩
    unfold syncCmd
    rw [hpost]
    dsimp only [bind, Except.bind]
    rw [hserve]
    dsimp only
    rw [hconsume]

/-- **What a handler answers reaches the caller.** -/
theorem syncCmd_eq (hidle : nvsim.rings.Idle cfg) (husable : cfg.Usable) (hfit : cfg.HeadsFit)
    (h : nvsim.rings.Inv cfg) (hi : i ∈ cfg.sqs) (command : Generic) :
    ∃ rings : Rings, ∀ (after : NVSim) (statusCode : Nat) (cmdSpec : BitVec 32),
      handlers command.OPC { nvsim with rings } command i (cfg.cqOf i)
          = complete { after with rings } command.CID i (cfg.cqOf i) statusCode cmdSpec →
      ∃ rings' cqe, nvsim.syncCmd handlers i (cfg.cqOf i) command
            = .ok ({ after with rings := rings' }, cqe)
        ∧ rings'.Inv cfg ∧ rings'.Idle cfg
        ∧ cqe.CID = command.CID ∧ cqe.SF.SC = BitVec.ofNat 8 statusCode := by
  obtain ⟨rings, _, hanswer⟩ := @syncCmd_answer cfg nvsim i handlers hidle husable hfit h hi command
  refine ⟨rings, fun after statusCode cmdSpec hhandler => ?_⟩
  obtain ⟨rings', cqe, hsync, hinv, hidle', hcid, hsc, _⟩ := hanswer after statusCode cmdSpec hhandler
  exact ⟨rings', cqe, hsync, hinv, hidle', hcid, hsc⟩

end

end NVSim

end LoneNvme
