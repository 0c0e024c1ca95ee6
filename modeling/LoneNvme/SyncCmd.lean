import LoneNvme.Bookkeeping
import LoneNvme.StatusCodes
import Mathlib.Data.List.TakeWhile

/-!
# Waiting for a command

`sync_cmd` starts a command and then polls the command's completion queue until *one*
completion has been processed, or the time is up. It does not look for its own. So it
works exactly when its completion is the next one the queue delivers: nothing else is
outstanding on the submission queue, and no other queue's completion gets there first.

Time is a list of turns: what the device does before each poll of the loop.
-/

namespace LoneNvme

open Lib

/-- The device looks at one submission queue, and how it answers a command it finds there. -/
structure Visit where
  sqid : Nat
  statusCode : Nat := 0
  cmdSpec : BitVec 32 := 0

/-- What happens before a poll, and what the poll sees. -/
structure Turn where
  visits : List Visit
  /-- What copying the data buffer of the completed command gives. -/
  dataIn : Except Exc (List (BitVec 8)) := .ok []
  CFS : Bool := false

/-- All visits of a wait. -/
def Turn.allVisits (turn : Turn) (later : List Turn) : List Visit :=
  (turn :: later).flatMap Turn.visits

/-! ## The device's visits -/

namespace Rings

/-- One visit. Where there is nothing to fetch, or no room to complete, nothing happens. -/
def visit (cfg : RingsConfig) (r : Rings) (v : Visit) : Rings :=
  if v.sqid ∈ cfg.sqs then
    match r.fetchComplete v.sqid (cfg.cqOf v.sqid) v.statusCode v.cmdSpec with
    | some (.ok r') => r'
    | _ => r
  else
    r

def visits (cfg : RingsConfig) (r : Rings) (vs : List Visit) : Rings := vs.foldl (visit cfg) r

/-- What the device leaves alone, and that it only adds completions. -/
structure Served (r r' : Rings) : Prop where
  hostSq : r'.hostSq = r.hostSq
  hostCq : r'.hostCq = r.hostCq
  posted : r'.posted = r.posted
  acked : r'.acked = r.acked
  consumed : r'.consumed = r.consumed
  cposted : ∀ q, r.cposted q <+: r'.cposted q

variable {cfg : RingsConfig} {r r' r'' : Rings}

theorem Served.refl (r : Rings) : Served r r :=
  ⟨rfl, rfl, rfl, rfl, rfl, fun _ => List.prefix_rfl⟩

theorem Served.trans (h : Served r r') (h' : Served r' r'') : Served r r'' :=
  ⟨h'.hostSq.trans h.hostSq, h'.hostCq.trans h.hostCq, h'.posted.trans h.posted,
    h'.acked.trans h.acked, h'.consumed.trans h.consumed,
    fun q => (h.cposted q).trans (h'.cposted q)⟩

theorem Served.pending (h : Served r r') (q : Nat) : r.pending q <+: r'.pending q := by
  rw [Rings.pending, Rings.pending, h.consumed]
  exact (h.cposted q).drop _

/-- **What a visit can do**: nothing, or one fetch with its completion. -/
theorem visit_cases (cfg : RingsConfig) (r : Rings) (v : Visit) :
    r.visit cfg v = r ∨ v.sqid ∈ cfg.sqs
      ∧ r.fetchComplete v.sqid (cfg.cqOf v.sqid) v.statusCode v.cmdSpec
        = some (.ok (r.visit cfg v)) := by
  unfold visit
  by_cases hv : v.sqid ∈ cfg.sqs
  · rw [if_pos hv]
    split
    · rename_i r' hr
      exact Or.inr ⟨hv, hr⟩
    · exact Or.inl rfl
  · rw [if_neg hv]
    exact Or.inl rfl

theorem served_visit (cfg : RingsConfig) (r : Rings) (v : Visit) : Served r (r.visit cfg v) := by
  rcases visit_cases cfg r v with hsame | ⟨_, hok⟩
  · rw [hsame]
    exact Served.refl r
  · obtain ⟨_, _, _, ring, _, _, hr⟩ := fetchComplete_spec hok
    rw [hr]
    refine ⟨rfl, rfl, rfl, rfl, rfl, fun q => ?_⟩
    show r.cposted q <+: Function.update r.cposted _ _ q
    by_cases hq : q = cfg.cqOf v.sqid
    · subst hq
      rw [Function.update_self]
      exact List.prefix_append _ _
    · rw [Function.update_of_ne hq]

theorem served_visits (cfg : RingsConfig) (r : Rings) (vs : List Visit) :
    Served r (r.visits cfg vs) := by
  induction vs generalizing r with
  | nil => exact Served.refl r
  | cons v vs ih => exact (served_visit cfg r v).trans (ih _)

theorem visits_append (r : Rings) (vs ws : List Visit) :
    r.visits cfg (vs ++ ws) = (r.visits cfg vs).visits cfg ws := List.foldl_append

theorem Inv.visit (hfit : cfg.HeadsFit) (h : Inv cfg r) (v : Visit) : Inv cfg (r.visit cfg v) := by
  rcases visit_cases cfg r v with hsame | ⟨hv, hok⟩
  · rw [hsame]
    exact h
  · exact h.fetchComplete hfit hv hok

theorem Inv.visits (hfit : cfg.HeadsFit) (h : Inv cfg r) (vs : List Visit) :
    Inv cfg (r.visits cfg vs) := by
  induction vs generalizing r with
  | nil => exact h
  | cons v vs ih => exact ih (h.visit hfit v)

/-- A visit to another queue fetches nothing from this one. -/
theorem fetched_visits_of_ne {i : Nat} {vs : List Visit} (hvs : ∀ v ∈ vs, v.sqid ≠ i) :
    (r.visits cfg vs).fetched i = r.fetched i := by
  induction vs generalizing r with
  | nil => rfl
  | cons v vs ih =>
      have hrest := @ih (r.visit cfg v) fun w hw => hvs w (List.mem_cons_of_mem _ hw)
      refine hrest.trans ?_
      rcases visit_cases cfg r v with hsame | ⟨_, hok⟩
      · rw [hsame]
      · obtain ⟨_, _, _, _, _, _, hr⟩ := fetchComplete_spec hok
        rw [hr]
        exact Function.update_of_ne (hvs v List.mem_cons_self).symm _ _

/-- A post on queue `i` makes no difference to a visit to another queue. -/
theorem visit_withPost (h : Inv cfg r) {i : Nat} (hi : i ∈ cfg.sqs) {v : Visit} (hv : v.sqid ≠ i)
    (sqtail : Nat) (ring : Nat → Generic) (command : Generic) :
    (r.withPost i sqtail ring command).visit cfg v
      = (r.visit cfg v).withPost i sqtail ring command := by
  unfold visit
  by_cases hmem : v.sqid ∈ cfg.sqs
  · -- the visit is to another queue, with another doorbell and another ring
    have hqid : (r.simSq v.sqid).qid ≠ (r.hostSq i).qid := by
      rw [(h.simSqAt _ hmem).1, (h.hostSqAt i hi).1]; exact hv
    have hbase : (r.simSq v.sqid).baseAddress ≠ (r.hostSq i).baseAddress := by
      rw [(h.simSqAt _ hmem).2, (h.hostSqAt i hi).2]
      exact fun he => hv (cfg.sqBase_inj _ hmem i hi he)
    rw [if_pos hmem, if_pos hmem]
    unfold fetchComplete withPost
    dsimp only
    rw [Function.update_of_ne hqid, Function.update_of_ne hbase]
    cases (r.simSq v.sqid).getCommand (r.SQTAIL (r.simSq v.sqid).qid) with
    | none => rfl
    | some found =>
        dsimp only
        cases NVSimCmdHandlerInterface.complete
            (r.sqRing (r.simSq v.sqid).baseAddress found.1).CID found.2
            (r.simCq (cfg.cqOf v.sqid)) (r.CQHEAD (r.simCq (cfg.cqOf v.sqid)).qid)
            (r.cqRing (r.simCq (cfg.cqOf v.sqid)).baseAddress) v.statusCode v.cmdSpec with
        | error e => rfl
        | ok after => rfl
  · rw [if_neg hmem, if_neg hmem]

theorem visits_withPost (hfit : cfg.HeadsFit) (h : Inv cfg r) {i : Nat} (hi : i ∈ cfg.sqs)
    {vs : List Visit} (hvs : ∀ v ∈ vs, v.sqid ≠ i)
    (sqtail : Nat) (ring : Nat → Generic) (command : Generic) :
    (r.withPost i sqtail ring command).visits cfg vs
      = (r.visits cfg vs).withPost i sqtail ring command := by
  induction vs generalizing r with
  | nil => rfl
  | cons v vs ih =>
      have hstep := visit_withPost h hi (hvs v List.mem_cons_self) sqtail ring command
      show ((r.withPost i sqtail ring command).visit cfg v).visits cfg vs = _
      rw [hstep]
      exact ih (h.visit hfit v) fun w hw => hvs w (List.mem_cons_of_mem _ hw)

/--
**A visit to a queue that holds a command** answers it, provided the completion queue
has room: the new entry names the queue.
-/
theorem Inv.visit_self (h : Inv cfg r) {v : Visit} (hv : v.sqid ∈ cfg.sqs)
    (hwork : r.fetched v.sqid < (r.posted v.sqid).length)
    (hroom : (r.pending (cfg.cqOf v.sqid)).length + 1 < cfg.cqEntries (cfg.cqOf v.sqid)) :
    ∃ cqe, (r.visit cfg v).pending (cfg.cqOf v.sqid) = r.pending (cfg.cqOf v.sqid) ++ [cqe]
      ∧ cqe.SQID.toNat = v.sqid := by
  have hc := RingsConfig.cqOf_mem hv
  have hsq := h.sq _ hv
  have hcq := h.cq _ hc
  -- the submission queue has work
  cases hget : (r.simSq v.sqid).getCommand (r.SQTAIL (r.simSq v.sqid).qid) with
  | none =>
      rw [(h.simSqAt _ hv).1] at hget
      exact absurd (hsq.getCommand_none_iff.mp hget) (by omega)
  | some found =>
      obtain ⟨slot, sq'⟩ := found
      obtain ⟨_, _, hqid, _⟩ := hsq.fetch (cfg.sqEntries_le _ hv)
        (by rw [(h.simSqAt _ hv).1] at hget; exact hget)
      rw [(h.simSqAt _ hv).1] at hqid
      -- and the completion queue is not full
      have hfull : (r.simCq (cfg.cqOf v.sqid)).isFull (r.CQHEAD (r.simCq (cfg.cqOf v.sqid)).qid)
          = false := by
        rw [(h.simCqAt _ hc).1]
        rw [pending, List.length_drop] at hroom
        have hle := hcq.le
        by_contra hne
        have hfull := hcq.isFull_iff.mp (by simpa using hne)
        omega
      obtain ⟨⟨cq', ring⟩, hpost⟩ : ∃ after, NVSimCmdHandlerInterface.complete
          (r.sqRing (r.simSq v.sqid).baseAddress slot).CID sq' (r.simCq (cfg.cqOf v.sqid))
          (r.CQHEAD (r.simCq (cfg.cqOf v.sqid)).qid)
          (r.cqRing (r.simCq (cfg.cqOf v.sqid)).baseAddress) v.statusCode v.cmdSpec = .ok after :=
        ⟨_, NVMeCompletionQueue.postCompletion_ok hfull⟩
      have hvisit : r.visit cfg v = r.withCompletion v.sqid (cfg.cqOf v.sqid) sq' cq' ring
          (NVSimCmdHandlerInterface.completionEntry (r.sqRing (r.simSq v.sqid).baseAddress slot).CID
            sq' v.statusCode v.cmdSpec) := by
        unfold Rings.visit
        rw [if_pos hv, fetchComplete_eq hget hpost]
        rfl
      rw [hvisit]
      refine ⟨_, (pending_push hcq.le (r.withCompletion _ _ sq' cq' ring _) rfl rfl _).trans
        (if_pos rfl), ?_⟩
      rw [logged, CQE.setP_SQID]
      show (BitVec.ofNat 16 sq'.qid).toNat = v.sqid
      rw [BitVec.toNat_ofNat, hqid, Nat.mod_eq_of_lt (cfg.sqid_lt _ hv)]

/-- What is oldest after some of the visits is oldest after all of them. -/
theorem pending_head {vs all : List Visit} (hvs : vs <+: all) {q : Nat} {cqe : CQE}
    {rest : List CQE} (hp : (r.visits cfg vs).pending q = cqe :: rest) :
    ∃ rest', (r.visits cfg all).pending q = cqe :: rest' := by
  obtain ⟨ws, rfl⟩ := hvs
  obtain ⟨more, hmore⟩ := (served_visits cfg (r.visits cfg vs) ws).pending q
  refine ⟨rest ++ more, ?_⟩
  rw [visits_append, ← hmore, hp, List.cons_append]

theorem Inv.pendingOf_nil (h : Inv cfg r) {i : Nat} (hi : i ∈ cfg.sqs)
    (hidle : r.fetched i = r.acked i) : r.pendingOf (cfg.cqOf i) i = [] := by
  have hcount := h.count i hi
  exact List.eq_nil_of_length_eq_zero (by omega)

/-- The visits before the device first looks at queue `i`. -/
def before (i : Nat) (vs : List Visit) : List Visit := vs.takeWhile fun v => v.sqid ≠ i

theorem sqid_ne_of_mem_before {i : Nat} {vs : List Visit} {v : Visit} (h : v ∈ before i vs) :
    v.sqid ≠ i := by
  simpa using List.mem_takeWhile_imp h

theorem exists_first_visit {i : Nat} {vs : List Visit} (h : ∃ v ∈ vs, v.sqid = i) :
    ∃ v rest, vs = before i vs ++ v :: rest ∧ v.sqid = i := by
  have hsplit : before i vs ++ vs.dropWhile (fun v => v.sqid ≠ i) = vs :=
    List.takeWhile_append_dropWhile
  have hne : vs.dropWhile (fun v => v.sqid ≠ i) ≠ [] := by
    obtain ⟨v, hv, hvi⟩ := h
    intro hnil
    exact absurd (List.dropWhile_eq_nil_iff.mp hnil v hv) (by simpa using hvi)
  have hhead := List.head_dropWhile_not (fun v : Visit => decide (v.sqid ≠ i)) hne
  cases hdrop : vs.dropWhile (fun v => v.sqid ≠ i) with
  | nil => exact absurd hdrop hne
  | cons v rest =>
      refine ⟨v, rest, by rw [← hdrop]; exact hsplit.symm, ?_⟩
      simp only [hdrop, List.head_cons] at hhead
      simpa using hhead

/--
**Who completes first.** A command is posted to an idle queue. If nothing is pending
before the device gets to it, the first completion delivered is its own.
-/
theorem Inv.first_own (hfit : cfg.HeadsFit) {i sqtail : Nat} {ring : Nat → Generic}
    {command : Generic} (h : Inv cfg r) (h₁ : Inv cfg (r.withPost i sqtail ring command))
    (hi : i ∈ cfg.sqs) (hidle : r.fetched i = (r.posted i).length)
    (hroom : 2 ≤ cfg.cqEntries (cfg.cqOf i)) {vs : List Visit} (hvisit : ∃ v ∈ vs, v.sqid = i)
    (hnone : (r.visits cfg (before i vs)).pending (cfg.cqOf i) = []) :
    ∃ cqe rest, ((r.withPost i sqtail ring command).visits cfg vs).pending (cfg.cqOf i)
        = cqe :: rest
      ∧ cqe.SQID.toNat = i := by
  have hsplit := exists_first_visit hvisit
  obtain ⟨v, rest, hvs, rfl⟩ := hsplit
  have hbefore : ∀ w ∈ before v.sqid vs, w.sqid ≠ v.sqid := fun _ => sqid_ne_of_mem_before
  have h₂ := h₁.visits hfit (before v.sqid vs)
  rw [visits_withPost hfit h hi hbefore] at h₂
  -- the command is still there when the device gets to its queue
  have hwork : ((r.visits cfg (before v.sqid vs)).withPost v.sqid sqtail ring command).fetched v.sqid
      < (((r.visits cfg (before v.sqid vs)).withPost v.sqid sqtail ring command).posted
          v.sqid).length := by
    show (r.visits cfg (before v.sqid vs)).fetched v.sqid
      < (Function.update (r.visits cfg (before v.sqid vs)).posted v.sqid _ v.sqid).length
    rw [fetched_visits_of_ne hbefore, Function.update_self, (served_visits cfg r _).posted,
      List.length_append, hidle]
    exact Nat.lt_succ_self _
  obtain ⟨cqe, hcqe, hid⟩ := h₂.visit_self hi hwork (by
    show ((r.visits cfg (before v.sqid vs)).pending (cfg.cqOf v.sqid)).length + 1 < _
    rw [hnone, List.length_nil]
    omega)
  have hpend : ((r.visits cfg (before v.sqid vs)).withPost v.sqid sqtail ring command).pending
      (cfg.cqOf v.sqid) = [] := hnone
  rw [hpend, List.nil_append] at hcqe
  -- later visits only add to it
  have hall : (r.withPost v.sqid sqtail ring command).visits cfg vs
      = (((r.visits cfg (before v.sqid vs)).withPost v.sqid sqtail ring command).visit cfg
          v).visits cfg rest := by
    conv_lhs => rw [hvs]
    rw [visits_append, visits_withPost hfit h hi hbefore]
    rfl
  have hprefix := (served_visits cfg (((r.visits cfg (before v.sqid vs)).withPost v.sqid sqtail ring
    command).visit cfg v) rest).pending (cfg.cqOf v.sqid)
  rw [hcqe] at hprefix
  obtain ⟨more, hmore⟩ := hprefix
  refine ⟨cqe, more, ?_, hid⟩
  rw [hall, ← hmore]
  rfl

end Rings

/-! ## The host's wait -/

namespace NVMeDeviceCommon

/-- The device's part of a turn. -/
def visits (cfg : RingsConfig) (d : NVMeDeviceCommon) (vs : List Visit) : NVMeDeviceCommon :=
  { d with rings := d.rings.visits cfg vs }

/-- One pass of `poll_cq_completions` over its queues, `n` completions having been counted. -/
def pollQueues (dataIn : Except Exc (List (BitVec 8))) :
    NVMeDeviceCommon → List Nat → Nat → NVMeDeviceCommon × Except Exc Nat
  | d, [], n => (d, .ok n)
  | d, cqid :: cqids, n =>
      match d.getCompletion cqid dataIn with
      | (d, .error e) => (d, .error e)
      | (d, .ok found) => pollQueues dataIn d cqids (if found then n + 1 else n)

/-- `poll_cq_completions`. The time is up when no turn is left. -/
def pollCqCompletions (cfg : RingsConfig) (cqids : List Nat) (maxCompletions : Nat) :
    NVMeDeviceCommon → Nat → Turn → List Turn → NVMeDeviceCommon × Except Exc Nat
  | d, n, turn, later =>
      match pollQueues turn.dataIn (d.visits cfg turn.visits) cqids n with
      | (d, .error e) => (d, .error e)
      | (d, .ok n) =>
          if n ≥ maxCompletions then
            (d, .ok n)
          else
            match later with
            | [] => (d, .ok n)
            | next :: later =>
                if turn.CFS then (d, .ok n)
                else pollCqCompletions cfg cqids maxCompletions d n next later

/-- `sync_cmd` on a device that polls. The command is an object of class `type`. -/
def syncCmd {C : Type*} [DecidableEq C] (cfg : RingsConfig) (cls : CommandClasses C)
    (codes : NVMeStatusCodes C) (d : NVMeDeviceCommon) (c : Nat) (type : C) (sqid cqid : Option Nat)
    (check : Bool) (turn : Turn) (later : List Turn) : NVMeDeviceCommon × Except Exc Unit :=
  match d.startCmd c sqid cqid with
  | (d, .error e) => (d, .error e)
  | (d, .ok _) =>
      match (d.commands c).cq with
      | .queue h =>
          match pollCqCompletions cfg [(d.rings.hostCq h).qid] 1 d 0 turn later with
          | (d, .error e) => (d, .error e)
          | (d, .ok _) =>
              if (d.commands c).complete then
                (d, if check then codes.check cls ⟨type, (d.commands c).cqe⟩ else .ok ())
              else
                (d, .error (.assertionError "Command not complete at the end of sync_cmd"))
      | _ => (d, .error (.attributeError "'int' object has no attribute 'qid'"))

/-! ## What one wait does -/

variable {cfg : RingsConfig} {d : NVMeDeviceCommon}

/-- The sanity checks of `start_cmd` and the room it needs. -/
def Startable (d : NVMeDeviceCommon) (c i : Nat) : Prop :=
  d.canPost c i = true
    ∧ ((d.commands c).sqe.CID, (d.rings.hostSq i).qid) ∉ d.outstandingCommands.keys

instance (d : NVMeDeviceCommon) (c i : Nat) : Decidable (d.Startable c i) :=
  inferInstanceAs (Decidable (_ ∧ _))

theorem canPost_iff {c i : Nat} : d.canPost c i = true ↔ (d.commands c).posted = false
    ∧ (d.commands c).complete = false
    ∧ (d.rings.hostSq i).isFull (d.rings.SQTAIL (d.rings.hostSq i).qid) = false := by
  rw [canPost, Bool.and_eq_true, Bool.and_eq_true, beq_iff_eq, beq_iff_eq, beq_iff_eq, and_assoc]

/-- `post_command` where the ring takes the command. -/
theorem postCommand_of_ok {c i : Nat} {rings : Rings} (hsq : (d.commands c).sq = .queue i)
    (hok : d.rings.postCommand i ((d.allocCid c).commands c).sqe = .ok rings) :
    d.postCommand c = ({ d.allocCid c with
      rings
      outstandingCommands := d.outstandingCommands.set
        (((d.allocCid c).commands c).sqe.CID, (d.rings.hostSq i).qid) c }, .ok ()) := by
  have hsq' : ((d.allocCid c).commands c).sq = .queue i := by
    rw [allocCid, setCommand_self]; exact hsq
  have hok' : (d.allocCid c).rings.postCommand i ((d.allocCid c).commands c).sqe = .ok rings := hok
  unfold postCommand
  dsimp only
  rw [hsq']
  dsimp only
  rw [hok']
  dsimp only
  rw [Rings.postCommand_hostSq hok]
  rfl

/-- A startable command, once its queues are assigned, is sent. -/
theorem startAssigned_sends {c i h : Nat} (hstart : d.Startable c i)
    (hsq : (d.commands c).sq = .queue i) (hcq : (d.commands c).cq = .queue h) (sqid : Option Nat) :
    ∃ sqtail ring, d.startAssigned c sqid
      = ((d.allocCid c).started c i
          (d.rings.withPost i sqtail ring ((d.allocCid c).commands c).sqe),
        .ok (sqid, (d.rings.hostCq h).qid)) := by
  obtain ⟨hpost, hkey⟩ := hstart
  obtain ⟨hposted, hcomplete, hroom⟩ := canPost_iff.mp hpost
  -- no check fails and the ring has room, so the post is made
  obtain ⟨sqtail, ring, hrings⟩ : ∃ sqtail ring,
      d.rings.postCommand i ((d.allocCid c).commands c).sqe
        = .ok (d.rings.withPost i sqtail ring ((d.allocCid c).commands c).sqe) := by
    unfold Rings.postCommand
    dsimp only
    rw [NVMeSubmissionQueue.postCommand_ok hroom]
    exact ⟨_, _, rfl⟩
  refine ⟨sqtail, ring, ?_⟩
  unfold startAssigned
  dsimp only
  rw [hsq]
  dsimp only
  rw [if_neg hkey, if_neg (by rw [hposted]; simp), if_neg (by rw [hcomplete]; simp),
    postCommand_of_ok hsq hrings]
  dsimp only
  rw [hcq]
  rfl

/-- What `start_cmd` leaves behind when it has sent command `c` on queue `i`. -/
structure Sent (d d₁ : NVMeDeviceCommon) (c i h : Nat) : Prop where
  rings : ∃ sqtail ring command, d₁.rings = d.rings.withPost i sqtail ring command
  map : d₁.outstandingCommands = d.outstandingCommands.set
    (BitVec.ofNat 16 d.cidMgr.alloc.1, (d.rings.hostSq i).qid) c
  cq : (d₁.commands c).cq = .queue h
  incomplete : (d₁.commands c).complete = false
  frame : ∀ c', c' ≠ c → d₁.commands c' = d.commands c'

/-- **A command that can be started is sent.** -/
theorem startCmd_sends {c i h : Nat} {sqid cqid : Option Nat}
    (hl : d.lookup c sqid cqid = .ok (.queue i, .queue h)) (hstart : d.Startable c i) :
    ∃ d₁ r, d.startCmd c sqid cqid = (d₁, .ok r) ∧ Sent d d₁ c i h := by
  unfold lookup at hl
  unfold startCmd
  cases hp : d.pickIds c sqid cqid with
  | error e => rw [hp] at hl; exact absurd hl (by simp)
  | ok ids =>
      obtain ⟨d', sqid', cqid'⟩ := ids
      obtain ⟨qm, hqm, rfl⟩ := pickIds_spec hp
      rw [hp] at hl
      dsimp only at hl ⊢
      rw [hl]
      dsimp only
      rw [if_neg (by simp)]
      -- the identifiers are chosen, and the queues noted in the command
      have hself : (({ d with queueMgr := qm }).assignQueues c (.queue i) (.queue h)).commands c
          = { d.commands c with sq := .queue i, cq := .queue h } := Function.update_self ..
      have hother : ∀ c', c' ≠ c →
          (({ d with queueMgr := qm }).assignQueues c (.queue i) (.queue h)).commands c'
            = d.commands c' := fun c' hc => Function.update_of_ne hc ..
      have hstart' : (({ d with queueMgr := qm }).assignQueues c (.queue i) (.queue h)).Startable
          c i := by
        obtain ⟨hpost, hkey⟩ := hstart
        refine ⟨canPost_iff.mpr ?_, ?_⟩
        · rw [hself]
          exact canPost_iff.mp hpost
        · rw [hself]
          exact hkey
      generalize hd : ({ d with queueMgr := qm }).assignQueues c (.queue i) (.queue h) = d'
        at hself hother hstart'
      obtain ⟨sqtail, ring, he⟩ := startAssigned_sends (h := h) hstart' (by rw [hself]) (by rw [hself])
        sqid'
      have hrings : d'.rings = d.rings := by rw [← hd]; rfl
      have hmap : d'.outstandingCommands = d.outstandingCommands := by rw [← hd]; rfl
      have hmgr : d'.cidMgr = d.cidMgr := by rw [← hd]; rfl
      -- the completion identifier goes into this command alone
      have halloc : (d'.allocCid c).commands c = { d'.commands c with
          sqe := { (d'.commands c).sqe with CID := BitVec.ofNat 16 d.cidMgr.alloc.1 }
          stamp := d.cidMgr.allocs } := by
        rw [← hmgr]
        exact Function.update_self ..
      refine ⟨_, _, he, ⟨sqtail, ring, _, by rw [← hrings]; rfl⟩, ?_, ?_, ?_, ?_⟩
      · show d'.outstandingCommands.set (((d'.allocCid c).commands c).sqe.CID, _) c = _
        rw [halloc, hmap, ← hrings]
        rfl
      · rw [started, setCommand_self, halloc, hself]
      · rw [started, setCommand_self, halloc]
        exact (canPost_iff.mp hstart'.1).2.1
      · intro c' hc
        rw [started, setCommand_of_ne _ hc]
        exact (setCommand_of_ne _ hc _).trans (hother c' hc)

/-- `get_completion` finds nothing where nothing is pending. -/
theorem Inv.getCompletion_idle (h : Inv cfg d) (hadmin : 0 ∈ cfg.sqs ∧ cfg.cqOf 0 = 0) {q : Nat}
    (hq : q ∈ cfg.cqs) (hidle : d.rings.phaseMatch q = false)
    (dataIn : Except Exc (List (BitVec 8))) : d.getCompletion q dataIn = (d, .ok false) := by
  unfold NVMeDeviceCommon.getCompletion
  rcases h.serves.get_cq hadmin q with ⟨_, sq, hg⟩ | ⟨hno, _⟩
  · rw [hg]
    dsimp only
    rw [if_neg (by rw [hidle]; simp)]
  · exact absurd hq hno

theorem Inv.visits (hfit : cfg.HeadsFit) (h : Inv cfg d) (vs : List Visit) :
    Inv cfg (d.visits cfg vs) := by
  have hserved := Rings.served_visits cfg d.rings vs
  refine ⟨h.serves, h.rings.visits hfit vs, h.entry, h.posted, ?_⟩
  intro i hi
  show (d.keysOf i).map Prod.fst
    = (((d.rings.visits cfg vs).posted i).drop ((d.rings.visits cfg vs).acked i)).map Generic.CID
  rw [hserved.posted, hserved.acked]
  exact h.order i hi

/-- One pass over the queue: idle, or one completion processed. -/
theorem Inv.pollQueues_cases (hadmin : 0 ∈ cfg.sqs ∧ cfg.cqOf 0 = 0) (h : Inv cfg d) {q : Nat}
    (hq : q ∈ cfg.cqs) {dataIn : Except Exc (List (BitVec 8))} (hcopy : dataIn.isOk = true) :
    (d.rings.pending q = [] ∧ pollQueues dataIn d [q] 0 = (d, .ok 0))
      ∨ ∃ bytes, d.rings.phaseMatch q = true
        ∧ pollQueues dataIn d [q] 0 = ((d.getCompletion q (.ok bytes)).1, .ok 1) := by
  -- no new entry, or one that belongs to an outstanding command
  cases hm : d.rings.phaseMatch q with
  | false =>
      left
      refine ⟨?_, by rw [pollQueues, h.getCompletion_idle hadmin hq hm]; rfl⟩
      by_contra hne
      rw [(h.rings.phaseMatch_iff hq).mpr hne] at hm
      exact absurd hm (by simp)
  | true =>
      right
      cases dataIn with
      | error e => exact absurd hcopy (by simp [Except.isOk, Except.toBool])
      | ok bytes =>
          refine ⟨bytes, rfl, ?_⟩
          rcases h.getCompletion_cases hadmin q bytes with
            ⟨_, _, hidle, _⟩ | ⟨c, i, _, _, _, _, _, _, he⟩
          · exact absurd (hidle hq) (by rw [hm]; simp)
          · rw [pollQueues, he]
            rfl

/--
**What polling for one completion does.** It stops after some of the visits, empty-handed
with nothing pending, or with the oldest pending completion processed. Without a fatal
status it does not stop empty-handed before the last visit.
-/
theorem Inv.poll_cases (hfit : cfg.HeadsFit) (hadmin : 0 ∈ cfg.sqs ∧ cfg.cqOf 0 = 0)
    (h : Inv cfg d) {q : Nat} (hq : q ∈ cfg.cqs) (turn : Turn) (later : List Turn)
    (hcopy : ∀ t ∈ turn :: later, t.dataIn.isOk = true) :
    ∃ vs, vs <+: Turn.allVisits turn later
      ∧ ((pollCqCompletions cfg [q] 1 d 0 turn later = (d.visits cfg vs, .ok 0)
          ∧ (d.rings.visits cfg vs).pending q = []
          ∧ ((∀ t ∈ turn :: later, t.CFS = false) → vs = Turn.allVisits turn later))
        ∨ ∃ bytes, (d.rings.visits cfg vs).phaseMatch q = true
          ∧ pollCqCompletions cfg [q] 1 d 0 turn later
            = (((d.visits cfg vs).getCompletion q (.ok bytes)).1, .ok 1)) := by
  induction later generalizing d turn with
  | nil =>
      have hall : Turn.allVisits turn [] = turn.visits := List.flatMap_singleton ..
      refine ⟨turn.visits, by rw [hall], ?_⟩
      rcases (h.visits hfit turn.visits).pollQueues_cases hadmin hq (hcopy turn List.mem_cons_self)
        with ⟨hidle, he⟩ | ⟨bytes, hm, he⟩
      · refine Or.inl ⟨?_, hidle, fun _ => hall.symm⟩
        rw [pollCqCompletions, he]
        rfl
      · refine Or.inr ⟨bytes, hm, ?_⟩
        rw [pollCqCompletions, he]
        rfl
  | cons next later ih =>
      have hall : Turn.allVisits turn (next :: later)
          = turn.visits ++ Turn.allVisits next later := List.flatMap_cons ..
      -- the device comes by before the poll
      have h₁ := h.visits hfit turn.visits
      rcases h₁.pollQueues_cases hadmin hq (hcopy turn List.mem_cons_self)
        with ⟨hidle, he⟩ | ⟨bytes, hm, he⟩
      · by_cases hcfs : turn.CFS = true
        · refine ⟨turn.visits, by rw [hall]; exact List.prefix_append _ _,
            Or.inl ⟨?_, hidle, fun hno => ?_⟩⟩
          · rw [pollCqCompletions, he]
            dsimp only
            rw [if_neg (by simp), if_pos hcfs]
          · exact absurd hcfs (by rw [hno turn List.mem_cons_self]; simp)
        · -- nothing found and the loop goes on
          have hnext : pollCqCompletions cfg [q] 1 d 0 turn (next :: later)
              = pollCqCompletions cfg [q] 1 (d.visits cfg turn.visits) 0 next later := by
            rw [pollCqCompletions, he]
            dsimp only
            rw [if_neg (by simp), if_neg hcfs]
          obtain ⟨vs, hvs, hend⟩ := ih h₁ next fun t ht => hcopy t (List.mem_cons_of_mem _ ht)
          have hmore : (d.visits cfg turn.visits).visits cfg vs
              = d.visits cfg (turn.visits ++ vs) := by
            unfold NVMeDeviceCommon.visits
            rw [Rings.visits_append]
          refine ⟨turn.visits ++ vs, by rw [hall]; exact (List.prefix_append_right_inj _).mpr hvs, ?_⟩
          rw [hnext, ← hmore, Rings.visits_append]
          rcases hend with ⟨hpoll, hpend, hlast⟩ | hfound
          · refine Or.inl ⟨hpoll, hpend, fun hno => ?_⟩
            rw [hall, hlast fun t ht => hno t (List.mem_cons_of_mem _ ht)]
          · exact Or.inr hfound
      · -- found one, which is all it was asked for
        refine ⟨turn.visits, by rw [hall]; exact List.prefix_append _ _, Or.inr ⟨bytes, hm, ?_⟩⟩
        rw [pollCqCompletions, he]
        rfl

/-! ## When `sync_cmd` works -/

/-- The completions of queue `q` the host has consumed on the way from `d` to `d'`. -/
def consumedSince (d d' : NVMeDeviceCommon) (q : Nat) : List CQE :=
  ((d'.rings.cposted q).take (d'.rings.consumed q)).drop (d.rings.consumed q)

/-- **What a caller of `sync_cmd` expects.** -/
structure Synced (d : NVMeDeviceCommon) (c : Nat) (after : NVMeDeviceCommon × Except Exc Unit) :
    Prop where
  returns : after.2 = .ok ()
  complete : (after.1.commands c).complete = true
  /-- A completion that was consumed has reached its command. -/
  others : ∀ q, ∀ cqe ∈ consumedSince d after.1 q, ∀ c',
    ((cqe.CID, cqe.SQID.toNat), c') ∈ d.outstandingCommands.entries →
      (after.1.commands c').complete = true

/--
The completion of a command sent to queue `i` now is the next one its completion queue
delivers: queue `i` is idle, and until the device visits it nothing else gets there.
-/
def NextToComplete (cfg : RingsConfig) (d : NVMeDeviceCommon) (i : Nat) (vs : List Visit) : Prop :=
  d.keysOf i = [] ∧ (d.rings.visits cfg (Rings.before i vs)).pending (cfg.cqOf i) = []

/-- The device gets to queue `i` in time and stays healthy, and data-in copies succeed. -/
structure Attended (i : Nat) (turn : Turn) (later : List Turn) : Prop where
  visited : ∃ v ∈ Turn.allVisits turn later, v.sqid = i
  healthy : ∀ t ∈ turn :: later, t.CFS = false
  copies : ∀ t ∈ turn :: later, t.dataIn.isOk = true

/-- An idle queue: everything posted to it is fetched and acknowledged. -/
theorem Inv.idle (h : Inv cfg d) {i : Nat} (hi : i ∈ cfg.sqs) (hnone : d.keysOf i = []) :
    d.rings.fetched i = (d.rings.posted i).length ∧ d.rings.fetched i = d.rings.acked i := by
  have horder := congrArg List.length (h.order i hi)
  rw [hnone, List.length_map, List.length_map, List.length_drop, List.length_nil] at horder
  have hack := (h.rings.sq i hi).ackLe
  have hfetch := (h.rings.sq i hi).fetchLe
  omega

/-- The keys of a queue after a new one is set. -/
theorem keysOf_set {d₁ : NVMeDeviceCommon} {cid : BitVec 16} {i c : Nat}
    (hmap : d₁.outstandingCommands = d.outstandingCommands.set (cid, i) c)
    (hnew : (cid, i) ∉ d.outstandingCommands.keys) : d₁.keysOf i = d.keysOf i ++ [(cid, i)] := by
  rw [keysOf, hmap, Dict.keys_set_of_not_mem c hnew, List.filter_append,
    List.filter_cons_of_pos (by simp), List.filter_nil]
  rfl

/-- The one completion consumed is the oldest that was pending. -/
theorem consumedSince_completed {d₂ : NVMeDeviceCommon} {c i h : Nat} {cqe : CQE}
    {dataIn : List (BitVec 8)} {rest : List CQE} (hcons : d₂.rings.consumed = d.rings.consumed)
    (hpend : d₂.rings.pending h = cqe :: rest) {q : Nat} {cqe' : CQE}
    (hm : cqe' ∈ consumedSince d (d₂.completed c i h cqe dataIn) q) : cqe' = cqe := by
  change cqe' ∈ ((d₂.rings.cposted q).take
    (Function.update d₂.rings.consumed h (d₂.rings.consumed h + 1) q)).drop (d.rings.consumed q) at hm
  rw [← hcons] at hm
  by_cases hq : q = h
  · subst hq
    rw [Function.update_self, List.drop_take, Nat.add_sub_cancel_left, ← Rings.pending, hpend] at hm
    simpa using hm
  · rw [Function.update_of_ne hq, List.drop_take, Nat.sub_self, List.take_zero] at hm
    exact absurd hm (by simp)

section

variable {C : Type*} [DecidableEq C] {cls : CommandClasses C} {codes : NVMeStatusCodes C}
  {type : C} {c i : Nat} {sqid cqid : Option Nat} {cq : QueueRef Nat} {turn : Turn}
  {later : List Turn}

/-- The queues a lookup finds are a configured pair. -/
theorem Inv.lookup_pair (h : Inv cfg d) (hl : d.lookup c sqid cqid = .ok (.queue i, cq)) :
    i ∈ cfg.sqs ∧ cq = .queue (cfg.cqOf i) := by
  unfold NVMeDeviceCommon.lookup at hl
  split at hl
  · exact absurd hl (by simp)
  · rename_i hp
    obtain ⟨qm, hqm, rfl⟩ := pickIds_spec hp
    have hserves : Serves cfg qm.nvmeQueues := by rw [hqm.nvmeQueues]; exact h.serves
    exact hserves.get_spec hl

/-- A command that can be started is not outstanding. -/
theorem keepsQueues_of_startable (hl : d.lookup c sqid cqid = .ok (.queue i, cq))
    (hstart : d.Startable c i) : d.KeepsQueues c sqid cqid := by
  rw [KeepsQueues, hl]
  intro hposted
  rw [(canPost_iff.mp hstart.1).1] at hposted
  exact absurd hposted (by simp)

variable (cls codes type) in
/--
**What `sync_cmd` does to a command that can be started.** The wait ends empty-handed, or
the oldest pending completion is processed: of the command itself, or of another one,
which `sync_cmd` reports as its own failure.
-/
theorem Inv.syncCmd_cases (hfit : cfg.HeadsFit) (hadmin : 0 ∈ cfg.sqs ∧ cfg.cqOf 0 = 0)
    (h : Inv cfg d) (hl : d.lookup c sqid cqid = .ok (.queue i, cq)) (hstart : d.Startable c i)
    (hdist : d.DistinctCid c sqid cqid)
    (hcopy : ∀ t ∈ turn :: later, t.dataIn.isOk = true) :
    i ∈ cfg.sqs ∧ ∃ d₁ vs, Sent d d₁ c i (cfg.cqOf i) ∧ Inv cfg d₁
      ∧ vs <+: Turn.allVisits turn later
      ∧ (((d₁.rings.visits cfg vs).pending (cfg.cqOf i) = []
          ∧ ((∀ t ∈ turn :: later, t.CFS = false) → vs = Turn.allVisits turn later)
          ∧ d.syncCmd cfg cls codes c type sqid cqid false turn later
            = (d₁.visits cfg vs,
              .error (.assertionError "Command not complete at the end of sync_cmd")))
        ∨ ∃ bytes c' j cqe rest, (d₁.rings.visits cfg vs).pending (cfg.cqOf i) = cqe :: rest
          ∧ cqe.SQID.toNat = j ∧ ((cqe.CID, j), c') ∈ d₁.outstandingCommands.entries
          ∧ (∃ keys, d₁.keysOf j = (cqe.CID, j) :: keys)
          ∧ d.syncCmd cfg cls codes c type sqid cqid false turn later
            = ((d₁.visits cfg vs).completed c' j (cfg.cqOf i) cqe bytes,
              if c' = c then .ok () else
                .error (.assertionError "Command not complete at the end of sync_cmd"))) := by
  obtain ⟨hi, rfl⟩ := h.lookup_pair hl
  have hq := RingsConfig.cqOf_mem hi
  -- sent, then polled: either nothing is there, or its oldest completion is consumed
  obtain ⟨d₁, r, he, hsent⟩ := startCmd_sends hl hstart
  have h₁ := h.startCmd hdist (keepsQueues_of_startable hl hstart)
  rw [he] at h₁
  obtain ⟨vs, hvs, hpoll⟩ := h₁.poll_cases hfit hadmin hq turn later hcopy
  refine ⟨hi, d₁, vs, hsent, h₁, hvs, ?_⟩
  unfold NVMeDeviceCommon.syncCmd
  rw [he]
  dsimp only
  rw [hsent.cq]
  dsimp only
  rw [(h₁.rings.hostCqAt _ hq).1]
  rcases hpoll with ⟨hpoll, hidle, hlast⟩ | ⟨bytes, hm, hpoll⟩
  · refine Or.inl ⟨hidle, hlast, ?_⟩
    rw [hpoll]
    dsimp only
    rw [if_neg (by show ¬ (d₁.commands c).complete = true; rw [hsent.incomplete]; simp)]
  · right
    have h₂ := h₁.visits hfit vs
    have hcons := h₂.rings.pending_eq_cons hq hm
    rcases h₂.getCompletion_cases hadmin (cfg.cqOf i) bytes with
      ⟨_, _, hidle, _⟩ | ⟨c', j, _, _, _, hid, hentry, hkeys, hget⟩
    · exact absurd (hm.symm.trans (hidle hq)) (by simp)
    · rw [hpoll, hget]
      refine ⟨bytes, c', j, _, _, hcons, hid, hentry, hkeys, ?_⟩
      dsimp only
      -- only the command itself ends the call well
      by_cases hc : c' = c
      · subst hc
        rw [if_pos (completed_self ..).2, if_pos rfl]
        rfl
      · rw [if_neg hc, completed_of_ne (fun h' => hc h'.symm)]
        rw [if_neg (by show ¬ (d₁.commands c).complete = true; rw [hsent.incomplete]; simp)]

/-- The new CID is not outstanding on the queue yet. -/
theorem Inv.newKey (h : Inv cfg d) (hi : i ∈ cfg.sqs)
    (hl : d.lookup c sqid cqid = .ok (.queue i, cq)) (hstart : d.Startable c i)
    (hdist : d.DistinctCid c sqid cqid) :
    (BitVec.ofNat 16 d.cidMgr.alloc.1, i) ∉ d.outstandingCommands.keys := by
  rw [DistinctCid, hl] at hdist
  have hnew := hdist hstart.1
  rw [(h.rings.hostSqAt i hi).1] at hnew
  exact hnew

/-- **Enough.** The completion of the command comes first, so it is the one consumed. -/
theorem Inv.synced_of_next (hfit : cfg.HeadsFit) (hadmin : 0 ∈ cfg.sqs ∧ cfg.cqOf 0 = 0)
    (h : Inv cfg d) (hl : d.lookup c sqid cqid = .ok (.queue i, cq)) (hstart : d.Startable c i)
    (hroom : 2 ≤ cfg.cqEntries (cfg.cqOf i)) (hatt : Attended i turn later)
    (hdist : d.DistinctCid c sqid cqid)
    (hnext : NextToComplete cfg d i (Turn.allVisits turn later)) :
    Synced d c (d.syncCmd cfg cls codes c type sqid cqid false turn later) := by
  obtain ⟨hnone, hfirst⟩ := hnext
  obtain ⟨hi, d₁, vs, hsent, h₁, hvs, hcases⟩ :=
    h.syncCmd_cases cls codes type hfit hadmin hl hstart hdist
      hatt.copies
  have hnew := h.newKey hi hl hstart hdist
  have hmap := hsent.map
  rw [(h.rings.hostSqAt i hi).1] at hmap
  obtain ⟨sqtail, ring, command, hr⟩ := hsent.rings
  obtain ⟨cqe₀, rest₀, hfinal, hid₀⟩ := h.rings.first_own hfit (hr ▸ h₁.rings) hi (h.idle hi hnone).1
    hroom hatt.visited hfirst
  rw [← hr] at hfinal
  rcases hcases with ⟨hidle, hlast, _⟩ | ⟨bytes, c', j, cqe, rest, hpend, hid, hentry, ⟨_, hkeys⟩, he⟩
  · -- the device got to the queue, so the wait cannot have ended empty-handed
    rw [hlast hatt.healthy, hfinal] at hidle
    exact absurd hidle (by simp)
  · obtain ⟨rest', hfinal'⟩ := Rings.pending_head hvs hpend
    rw [hfinal] at hfinal'
    obtain ⟨rfl, _⟩ := List.cons.inj hfinal'
    obtain rfl : i = j := hid₀.symm.trans hid
    rw [keysOf_set hmap hnew, hnone, List.nil_append] at hkeys
    have hkey := (List.cons.inj hkeys).1
    rw [hmap, ← hkey] at hentry
    obtain rfl : c' = c := by
      rcases Dict.mem_entries_set.mp hentry with ⟨_, hc⟩ | ⟨hne, _⟩
      · exact hc
      · exact absurd rfl hne
    rw [he, if_pos rfl]
    refine ⟨rfl, (completed_self ..).2, ?_⟩
    intro q cqe' hm c'' hold
    have hcons : (d₁.visits cfg vs).rings.consumed = d.rings.consumed := by
      rw [show (d₁.visits cfg vs).rings = d₁.rings.visits cfg vs from rfl,
        (Rings.served_visits cfg d₁.rings vs).consumed, hr]
      rfl
    rw [consumedSince_completed hcons hpend hm, hid₀] at hold
    -- nothing of this queue was outstanding before
    have hmem : (cqe₀.CID, i) ∈ d.keysOf i :=
      List.mem_filter.mpr ⟨Dict.mem_keys.mpr ⟨c'', hold⟩, by simp⟩
    rw [hnone] at hmem
    exact absurd hmem (by simp)

/-- **Needed.** If the command was completed, nothing was ahead of it. -/
theorem Inv.next_of_synced (hfit : cfg.HeadsFit) (hadmin : 0 ∈ cfg.sqs ∧ cfg.cqOf 0 = 0)
    (h : Inv cfg d) (hl : d.lookup c sqid cqid = .ok (.queue i, cq)) (hstart : d.Startable c i)
    (hatt : Attended i turn later) (hdist : d.DistinctCid c sqid cqid)
    (hsynced : Synced d c (d.syncCmd cfg cls codes c type sqid cqid false turn later)) :
    NextToComplete cfg d i (Turn.allVisits turn later) := by
  obtain ⟨hi, d₁, vs, hsent, h₁, hvs, hcases⟩ :=
    h.syncCmd_cases cls codes type hfit hadmin hl hstart hdist
      hatt.copies
  have hnew := h.newKey hi hl hstart hdist
  have hmap := hsent.map
  rw [(h.rings.hostSqAt i hi).1] at hmap
  have hreturns := hsynced.returns
  rcases hcases with ⟨_, _, he⟩ | ⟨bytes, c', j, cqe, rest, hpend, hid, hentry, ⟨_, hkeys⟩, he⟩
  · rw [he] at hreturns
    exact absurd hreturns (by simp)
  · obtain rfl : c' = c := by
      by_contra hc
      rw [he, if_neg hc] at hreturns
      exact absurd hreturns (by simp)
    -- its entry in the map is the new one
    have hown : ((BitVec.ofNat 16 d.cidMgr.alloc.1, i), c') ∈ d₁.outstandingCommands.entries := by
      rw [hmap]
      exact Dict.mem_entries_set.mpr (Or.inl ⟨rfl, rfl⟩)
    obtain ⟨_, hcid, hsq, _⟩ := h₁.entry _ _ _ hown
    obtain ⟨_, hcid', hsq', _⟩ := h₁.entry _ _ _ hentry
    obtain rfl : i = j := by
      rw [hsq] at hsq'
      injection hsq'
    rw [hcid] at hcid'
    rw [keysOf_set hmap hnew, ← hcid'] at hkeys
    have hnone : d.keysOf i = [] := by
      cases hk : d.keysOf i with
      | nil => rfl
      | cons k ks =>
          rw [hk, List.cons_append] at hkeys
          have hmem : k ∈ d.keysOf i := by rw [hk]; exact List.mem_cons_self
          rw [(List.cons.inj hkeys).1] at hmem
          exact absurd (List.mem_filter.mp hmem).1 hnew
    refine ⟨hnone, ?_⟩
    by_contra hne
    obtain ⟨e, es, hes⟩ := List.exists_cons_of_ne_nil hne
    have hbefore : ∀ w ∈ Rings.before i (Turn.allVisits turn later), w.sqid ≠ i :=
      fun _ => Rings.sqid_ne_of_mem_before
    -- what was there first is first in the end, and so is the command's own completion
    obtain ⟨sqtail, ring, command, hr⟩ := hsent.rings
    have hpre : (d₁.rings.visits cfg (Rings.before i (Turn.allVisits turn later))).pending
        (cfg.cqOf i) = e :: es := by
      rw [hr, Rings.visits_withPost hfit h.rings hi hbefore]
      exact hes
    obtain ⟨_, hfinal⟩ := Rings.pending_head (List.takeWhile_prefix _) hpre
    obtain ⟨_, hfinal'⟩ := Rings.pending_head hvs hpend
    rw [hfinal] at hfinal'
    obtain ⟨rfl, _⟩ := List.cons.inj hfinal'
    have hnil := (h.rings.visits hfit (Rings.before i (Turn.allVisits turn later))).pendingOf_nil hi
      (by rw [Rings.fetched_visits_of_ne hbefore, (Rings.served_visits cfg d.rings _).acked]
          exact (h.idle hi hnone).2)
    rw [Rings.pendingOf, hes, List.filter_cons_of_pos (by simpa using hid)] at hnil
    exact absurd hnil (by simp)

/-- After `start_cmd` the device answers every command in time, and data-in copies succeed. -/
structure Answers (cfg : RingsConfig) (d₁ : NVMeDeviceCommon) (turn : Turn) (later : List Turn) :
    Prop where
  answered : ∀ i ∈ cfg.sqs, (d₁.rings.visits cfg (Turn.allVisits turn later)).fetched i
    = (d₁.rings.posted i).length
  healthy : ∀ t ∈ turn :: later, t.CFS = false
  copies : ∀ t ∈ turn :: later, t.dataIn.isOk = true

/-- To answer the command the device must have visited its queue and found room. -/
theorem Inv.attended (hfit : cfg.HeadsFit) {d₁ : NVMeDeviceCommon} (h : Inv cfg d)
    (h₁ : Inv cfg d₁) (hi : i ∈ cfg.sqs) (hsent : Sent d d₁ c i (cfg.cqOf i))
    (hans : Answers cfg d₁ turn later) :
    Attended i turn later ∧ 2 ≤ cfg.cqEntries (cfg.cqOf i) := by
  obtain ⟨sqtail, ring, command, hr⟩ := hsent.rings
  have hanswered := hans.answered i hi
  have hposted : (d₁.rings.posted i).length = (d.rings.posted i).length + 1 := by
    rw [hr]
    show (Function.update d.rings.posted i _ i).length = _
    rw [Function.update_self, List.length_append]
    rfl
  have hle := (h.rings.sq i hi).fetchLe
  have hack := (h.rings.sq i hi).ackLe
  refine ⟨⟨?_, hans.healthy, hans.copies⟩, ?_⟩
  · by_contra hno
    have hsame : (d₁.rings.visits cfg (Turn.allVisits turn later)).fetched i = d.rings.fetched i := by
      rw [Rings.fetched_visits_of_ne fun v hv hvi => hno ⟨v, hv, hvi⟩, hr]
      rfl
    omega
  · have h₂ := h₁.rings.visits hfit (Turn.allVisits turn later)
    have hcount := h₂.count i hi
    have hacked : (d₁.rings.visits cfg (Turn.allVisits turn later)).acked i = d.rings.acked i := by
      rw [(Rings.served_visits cfg d₁.rings _).acked, hr]
      rfl
    have hfilter := List.length_filter_le (fun cqe : CQE => decide (cqe.SQID.toNat = i))
      ((d₁.rings.visits cfg (Turn.allVisits turn later)).pending (cfg.cqOf i))
    have hcq := h₂.cq _ (RingsConfig.cqOf_mem hi)
    have hgap := hcq.gap
    rw [Rings.pendingOf] at hcount
    rw [Rings.pending, List.length_drop] at hfilter
    rw [Rings.pending] at hcount
    omega

/--
**When `sync_cmd` works beside other commands.** Exactly when the completion of its own
command is the next one its completion queue delivers.

It asks for one completion, whichever command that is of. Since completions of a submission
queue come in the order of its commands, nothing may be outstanding before it there; and other
queues may not have a completion waiting when the device first comes to it.
-/
theorem synced_iff_next (hfit : cfg.HeadsFit) (hadmin : 0 ∈ cfg.sqs ∧ cfg.cqOf 0 = 0)
    (h : (machine cfg).ReachableBy DistinctCidsKept d)
    (hl : d.lookup c sqid cqid = .ok (.queue i, cq)) (hstart : d.Startable c i)
    (hdist : d.DistinctCid c sqid cqid)
    (hans : Answers cfg (d.startCmd c sqid cqid).1 turn later) :
    Synced d c (d.syncCmd cfg cls codes c type sqid cqid false turn later)
      ↔ NextToComplete cfg d i (Turn.allVisits turn later) := by
  have hinv : Inv cfg d := Machine.ReachableBy.invariant (I := Inv cfg) (fun _ h0 => inv_init h0)
    (fun _ _ _ _ hi hok hs => inv_step hfit hadmin hi hok hs) h
  obtain ⟨hi, rfl⟩ := hinv.lookup_pair hl
  obtain ⟨d₁, r, he, hsent⟩ := startCmd_sends hl hstart
  have h₁ := hinv.startCmd hdist (keepsQueues_of_startable hl hstart)
  rw [he] at h₁ hans
  obtain ⟨hatt, hroom⟩ := hinv.attended hfit h₁ hi hsent hans
  exact ⟨fun hs => hinv.next_of_synced hfit hadmin hl hstart hatt hdist hs,
    fun hn => hinv.synced_of_next hfit hadmin hl hstart hroom hatt hdist hn⟩

end

/-- On a completion queue of its own, a submission queue is next as soon as it is idle. -/
theorem Inv.next_iff_idle (hfit : cfg.HeadsFit) (h : Inv cfg d) {i : Nat} (hi : i ∈ cfg.sqs)
    (halone : ∀ j ∈ cfg.sqs, cfg.cqOf j = cfg.cqOf i → j = i) (vs : List Visit) :
    NextToComplete cfg d i vs ↔ d.keysOf i = [] := by
  refine ⟨fun hn => hn.1, fun hnone => ⟨hnone, ?_⟩⟩
  have hbefore : ∀ w ∈ Rings.before i vs, w.sqid ≠ i := fun _ => Rings.sqid_ne_of_mem_before
  have hr := h.rings.visits hfit (Rings.before i vs)
  have hnil := hr.pendingOf_nil hi (by
    rw [Rings.fetched_visits_of_ne hbefore, (Rings.served_visits cfg d.rings _).acked]
    exact (h.idle hi hnone).2)
  refine List.eq_nil_iff_forall_not_mem.mpr fun cqe hm => ?_
  obtain ⟨hj, hjc⟩ := hr.origin _ (RingsConfig.cqOf_mem hi) cqe hm
  have hmem : cqe ∈ (d.rings.visits cfg (Rings.before i vs)).pendingOf (cfg.cqOf i) i :=
    List.mem_filter.mpr ⟨hm, by simpa using halone _ hj hjc⟩
  rw [hnil] at hmem
  exact absurd hmem (by simp)

/-- One command sent to queue `i` and not answered yet. -/
def outstandingRun (i : Nat) : List Op := [.startCmd 0 (some i) none]

/-- One command type, with no code of its own. -/
def plainClasses : CommandClasses Unit := ⟨(), fun _ => [], fun _ => ""⟩

/-- A command is outstanding on the other queue that completes here, but it is answered later. -/
theorem synced_iff_next_otherQueue :
    ∃ d, (machine sharedPairs).runBy DistinctCidsKept sharedDevice (outstandingRun 2) = some d
      ∧ Synced d 1 (d.syncCmd sharedPairs plainClasses (.new plainClasses) 1 () (some 1) none false
        { visits := [{ sqid := 1 }] } [{ visits := [{ sqid := 2 }] }]) :=
  ⟨_, rfl, (synced_iff_next (by decide) (by decide)
    ((Machine.ReachableBy.init init_sharedDevice).run (outstandingRun 2) rfl) rfl (by decide)
    (by decide) ⟨by decide, by decide, by decide⟩).mpr ⟨rfl, rfl⟩⟩

/-- With a command outstanding on the same queue, the first completion is that one's. -/
theorem not_synced_behind :
    ¬ ∀ (cfg : RingsConfig) (d : NVMeDeviceCommon) (cls : CommandClasses Unit) (c i : Nat)
      (sqid cqid : Option Nat) (cq : QueueRef Nat) (turn : Turn) (later : List Turn),
      cfg.HeadsFit → (0 ∈ cfg.sqs ∧ cfg.cqOf 0 = 0) →
      (machine cfg).ReachableBy DistinctCidsKept d →
      d.lookup c sqid cqid = .ok (.queue i, cq) → d.Startable c i → d.DistinctCid c sqid cqid →
      Answers cfg (d.startCmd c sqid cqid).1 turn later →
      Synced d c (d.syncCmd cfg cls (.new cls) c () sqid cqid false turn later) := by
  intro hall
  have hsynced := hall sharedPairs _ plainClasses 1 1 (some 1) none _
    { visits := [{ sqid := 1 }, { sqid := 1 }] } [] (by decide) (by decide)
    ((Machine.ReachableBy.init init_sharedDevice).run (outstandingRun 1) rfl) rfl (by decide)
    (by decide) ⟨by decide, by decide, by decide⟩
  exact absurd hsynced.complete (by decide)

end NVMeDeviceCommon

end LoneNvme
