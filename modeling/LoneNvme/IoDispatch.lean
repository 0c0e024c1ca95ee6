import LoneNvme.RoundTrip
import LoneNvme.Lib.RoundRobin
import Mathlib.Algebra.BigOperators.Ring.Finset

/-!
# How the simulator serves its IO queues

`check_commands`, from the IO queues on: a budget of at most a hundred commands, computed
once, and rounds over the queues that were busy at the start until it is used up. The
budget never exceeds what is pending, so the rounds end.

`Fair` is what the loop promises. `RoundRobin` has the rounds by themselves, over any queues,
and `After` says that so many of them are done: what was handled is what they yield, and the
budget left and what was handled add up to the budget at the start.
-/

namespace LoneNvme

open Lib

namespace Rings

/-- The commands the simulator has not fetched from its object `i`, in ring order. -/
def waiting (r : Rings) (i : Nat) : List Generic :=
  let sq := r.simSq i
  (List.range (sq.numEntries (r.SQTAIL sq.qid)).toNat).map fun j =>
    r.sqRing sq.baseAddress ((sq.head + j) % sq.entries)

/-- Head and tail are positions of the ring, and fit their cells. -/
structure Positioned (r : Rings) (i : Nat) : Prop where
  head_lt : (r.simSq i).head < (r.simSq i).entries
  tail_lt : r.SQTAIL (r.simSq i).qid < (r.simSq i).entries
  entries_le : (r.simSq i).entries ≤ 2 ^ 32

/-- The submission side of the rings: objects, doorbells and memory. -/
structure SameSqs (r r' : Rings) : Prop where
  simSq : r'.simSq = r.simSq
  SQTAIL : r'.SQTAIL = r.SQTAIL
  sqRing : r'.sqRing = r.sqRing

end Rings

namespace NVSim

/-- The loop's variables; `handled` is history: the commands with their queues. -/
structure IoLoop where
  nvsim : NVSim
  nvmCommandsHandled : Int
  handled : List (Nat × Generic) := []

/-- `sq.num_entries()`. -/
def numEntries (nvsim : NVSim) (i : Nat) : Int :=
  let sq := nvsim.rings.simSq i
  sq.numEntries (nvsim.rings.SQTAIL sq.qid)

/-- `busy_sqs`. -/
def busySqs (nvsim : NVSim) : List (Nat × Option Nat) :=
  nvsim.queueMgr.nvmeQueues.entries.filterMap fun e =>
    match e.2 with
    | (some i, cq) =>
        if nvsim.numEntries i > 0 ∧ (nvsim.rings.simSq i).qid ≠ 0 then some (i, cq) else none
    | (none, _) => none

/-- `nvm_cmd_handlers[command.OPC]`, called with the completion queue of the pair. -/
def handle (nvsim : NVSim) (command : Generic) (sq : Nat) (cq : Option Nat) : Except Exc NVSim :=
  match cq with
  | some c => nvmCmdHandler command.OPC nvsim command sq c
  | none => .error (.attributeError "'NoneType' object has no attribute 'post_completion'")

/-- The `for` loop over the busy queues. -/
def ioPass : List (Nat × Option Nat) → IoLoop → Except Exc IoLoop
  | [], s => .ok s
  | (i, cq) :: busy, s =>
      match s.nvsim.rings.getCommand i with
      | none => ioPass busy s
      | some (command, rings) => do
          let nvsim ← { s.nvsim with rings }.handle command i cq
          ioPass busy ⟨nvsim, s.nvmCommandsHandled - 1, s.handled ++ [(i, command)]⟩

/-- The `while` loop; `none` if the fuel does not suffice. -/
def ioLoop (busy : List (Nat × Option Nat)) : Nat → IoLoop → Option (Except Exc IoLoop)
  | 0, s => if s.nvmCommandsHandled > 0 then none else some (.ok s)
  | fuel + 1, s =>
      if s.nvmCommandsHandled > 0 then
        match ioPass busy s with
        | .error e => some (.error e)
        | .ok s => ioLoop busy fuel s
      else some (.ok s)

/-- The variables before the first pass: the budget is computed once. -/
def ioStart (nvsim : NVSim) : IoLoop :=
  let cmdsInQs := (nvsim.busySqs.map fun b => nvsim.numEntries b.1).sum
  { nvsim, nvmCommandsHandled := min 100 cmdsInQs }

/-- `check_commands`, the part about IO queues. -/
def ioCommands (nvsim : NVSim) (fuel : Nat) : Option (Except Exc IoLoop) :=
  ioLoop nvsim.busySqs fuel nvsim.ioStart

end NVSim

/-! ## A fetch -/

/-- Two positions are a window of the ring. -/
theorem NVMeQueue.numEntries_positions {n head tail : Nat} (hhead : head < n) (htail : tail < n) :
    ∃ d, d < n ∧ (head + d) % n = tail ∧ numEntries n head tail = d := by
  rcases Nat.lt_or_ge tail head with hlt | hge
  · have hmod : (head + (tail + n - head)) % n = tail := by
      rw [show head + (tail + n - head) = tail + n by omega, Nat.add_mod_right,
        Nat.mod_eq_of_lt htail]
    refine ⟨tail + n - head, by omega, hmod, ?_⟩
    have hwin := @numEntries_window n head (head + (tail + n - head)) (by omega) (by omega)
    rw [hmod, Nat.mod_eq_of_lt hhead, Nat.add_sub_cancel_left] at hwin
    exact hwin
  · have hmod : (head + (tail - head)) % n = tail := by
      rw [Nat.add_sub_cancel' hge, Nat.mod_eq_of_lt htail]
    refine ⟨tail - head, by omega, hmod, ?_⟩
    have hwin := @numEntries_window n head (head + (tail - head)) (by omega) (by omega)
    rw [hmod, Nat.mod_eq_of_lt hhead, Nat.add_sub_cancel_left] at hwin
    exact hwin

namespace Rings

variable {r r' : Rings} {i : Nat}

theorem SameSqs.waiting (h : SameSqs r r') (i : Nat) : r'.waiting i = r.waiting i := by
  unfold Rings.waiting
  rw [h.simSq, h.SQTAIL, h.sqRing]

theorem SameSqs.positioned (h : SameSqs r r') (hi : Positioned r i) : Positioned r' i := by
  refine ⟨?_, ?_, ?_⟩
  · rw [h.simSq]
    exact hi.head_lt
  · rw [h.simSq, h.SQTAIL]
    exact hi.tail_lt
  · rw [h.simSq]
    exact hi.entries_le

theorem waiting_eq {d : Nat} (h : (r.simSq i).numEntries (r.SQTAIL (r.simSq i).qid) = d) :
    r.waiting i = (List.range d).map fun j =>
      r.sqRing (r.simSq i).baseAddress (((r.simSq i).head + j) % (r.simSq i).entries) := by
  unfold waiting
  dsimp only
  rw [h]
  rfl

/-- The count of the queue is the number of commands that wait. -/
theorem Positioned.length_waiting (h : Positioned r i) :
    (r.simSq i).numEntries (r.SQTAIL (r.simSq i).qid) = (r.waiting i).length := by
  obtain ⟨d, _, _, hd⟩ := NVMeQueue.numEntries_positions h.head_lt h.tail_lt
  rw [waiting_eq hd, List.length_map, List.length_range]
  exact hd

/-- The object `i` with its head moved on. -/
def movedOn (r : Rings) (i : Nat) : NVMeSubmissionQueue :=
  { r.simSq i with head := ((r.simSq i).head + 1) % (r.simSq i).entries }

theorem withFetch_self (sq : NVMeSubmissionQueue) : (r.withFetch i sq).simSq i = sq :=
  Function.update_self ..

theorem withFetch_other {j : Nat} (hj : j ≠ i) (sq : NVMeSubmissionQueue) :
    (r.withFetch i sq).simSq j = r.simSq j := Function.update_of_ne hj ..

theorem Positioned.getCommand (h : Positioned r i) {d : Nat}
    (hnum : (r.simSq i).numEntries (r.SQTAIL (r.simSq i).qid) = (d + 1 : Nat)) :
    r.getCommand i = some (r.sqRing (r.simSq i).baseAddress (r.simSq i).head,
      r.withFetch i (r.movedOn i)) := by
  refine getCommand_eq ?_
  have hn : 0 < (r.simSq i).entries := Nat.lt_of_le_of_lt (Nat.zero_le _) h.head_lt
  have hadv := NVMeHeadTail.advance_mod hn h.entries_le (r.simSq i).head
  rw [Nat.mod_eq_of_lt h.head_lt] at hadv
  unfold NVMeSubmissionQueue.getCommand
  rw [hnum, if_neg (by omega), hadv]
  rfl

/-- The head has moved over the first command that waited. -/
theorem Positioned.waiting_movedOn (h : Positioned r i) {d : Nat}
    (hnum : (r.simSq i).numEntries (r.SQTAIL (r.simSq i).qid) = (d + 1 : Nat)) :
    r.waiting i = r.sqRing (r.simSq i).baseAddress (r.simSq i).head
      :: (r.withFetch i (r.movedOn i)).waiting i := by
  obtain ⟨e, hlt, hmod, he⟩ := NVMeQueue.numEntries_positions h.head_lt h.tail_lt
  have hed : e = d + 1 := Int.ofNat_inj.mp (he.symm.trans hnum)
  subst hed
  have hrest : (r.movedOn i).numEntries (r.SQTAIL (r.movedOn i).qid) = d := by
    have hwin := @NVMeQueue.numEntries_window (r.simSq i).entries ((r.simSq i).head + 1)
      ((r.simSq i).head + (d + 1)) (by omega) (by omega)
    rw [hmod] at hwin
    refine hwin.trans (congrArg Int.ofNat ?_)
    omega
  have hself := @withFetch_self r i (r.movedOn i)
  rw [waiting_eq hnum, @waiting_eq (r.withFetch i (r.movedOn i)) i d (by rw [hself]; exact hrest),
    hself, List.range_succ_eq_map, List.map_cons, List.map_map, Nat.add_zero,
    Nat.mod_eq_of_lt h.head_lt]
  congr 1
  refine List.map_congr_left fun j _ => ?_
  show r.sqRing _ (((r.simSq i).head + (j + 1)) % _) = r.sqRing (r.simSq i).baseAddress
    ((((r.simSq i).head + 1) % (r.simSq i).entries + j) % (r.simSq i).entries)
  rw [Nat.mod_add_mod, Nat.add_assoc, Nat.add_comm 1 j]

theorem Positioned.movedOn (h : Positioned r i) : Positioned (r.withFetch i (r.movedOn i)) i := by
  have hself := @withFetch_self r i (r.movedOn i)
  refine ⟨?_, ?_, ?_⟩
  · rw [hself]
    exact Nat.mod_lt _ (Nat.lt_of_le_of_lt (Nat.zero_le _) h.head_lt)
  · rw [hself]
    exact h.tail_lt
  · rw [hself]
    exact h.entries_le

theorem waiting_withFetch {j : Nat} (hj : j ≠ i) (sq : NVMeSubmissionQueue) :
    (r.withFetch i sq).waiting j = r.waiting j := by
  unfold waiting
  rw [withFetch_other hj]
  rfl

theorem Positioned.withFetch {j : Nat} (h : Positioned r j) (hj : j ≠ i) (sq : NVMeSubmissionQueue) :
    Positioned (r.withFetch i sq) j := by
  have hother := @withFetch_other r i j hj sq
  refine ⟨?_, ?_, ?_⟩
  · rw [hother]
    exact h.head_lt
  · rw [hother]
    exact h.tail_lt
  · rw [hother]
    exact h.entries_le

/-- What a fetch finds, and what it leaves. -/
inductive Fetch (r : Rings) (i : Nat) : Option (Generic × Rings) → Prop where
  | empty : r.waiting i = [] → Fetch r i none
  | command {command : Generic} {r' : Rings} :
      r.waiting i = command :: r'.waiting i → Positioned r' i →
      (∀ j, j ≠ i → r'.waiting j = r.waiting j) →
      (∀ j, j ≠ i → Positioned r j → Positioned r' j) →
      Fetch r i (some (command, r'))

/-- **A fetch** takes the oldest command, and touches no other queue. -/
theorem Positioned.fetch (h : Positioned r i) : Fetch r i (r.getCommand i) := by
  obtain ⟨d, _, _, hnum⟩ := NVMeQueue.numEntries_positions h.head_lt h.tail_lt
  have hnum : (r.simSq i).numEntries (r.SQTAIL (r.simSq i).qid) = d := hnum
  cases d with
  | zero =>
      have hnone : r.getCommand i = none := by
        unfold Rings.getCommand NVMeSubmissionQueue.getCommand
        dsimp only
        rw [hnum]
        rfl
      rw [hnone]
      exact .empty (waiting_eq hnum)
  | succ d =>
      rw [h.getCommand hnum]
      exact .command (h.waiting_movedOn hnum) h.movedOn (fun _ hj => waiting_withFetch hj _)
        fun _ hj hpos => hpos.withFetch hj _

end Rings

/-! ## Handlers bring no new commands -/

namespace NVSim

variable {nvsim nvsim' : NVSim} {command : Generic} {i c : Nat}

theorem complete_sameSqs {cid : BitVec 16} {statusCode : Nat} {cmdSpec : BitVec 32}
    (h : nvsim.complete cid i c statusCode cmdSpec = .ok nvsim') :
    Rings.SameSqs nvsim.rings nvsim'.rings := by
  unfold complete at h
  split at h
  · rename_i rings hrings
    rw [← Except.ok.inj h]
    unfold Rings.complete at hrings
    dsimp only at hrings
    split at hrings
    · rw [← Except.ok.inj hrings]
      exact ⟨rfl, rfl, rfl⟩
    · exact absurd hrings (by simp)
  · exact absurd h (by simp)

/-- **A handler** posts a completion and moves data: the submission queues stay as they are. -/
theorem nvmCmdHandler_sameSqs {opc : BitVec 8} (h : nvmCmdHandler opc nvsim command i c = .ok nvsim') :
    Rings.SameSqs nvsim.rings nvsim'.rings := by
  unfold nvmCmdHandler at h
  split at h
  · unfold NVSimWrite at h
    obtain ⟨ns, _, h⟩ := bind_eq_ok h
    dsimp only at h
    split at h
    · exact complete_sameSqs h
    · obtain ⟨prp, _, h⟩ := bind_eq_ok h
      obtain ⟨ns', _, h⟩ := bind_eq_ok h
      have hsame := complete_sameSqs h
      exact hsame
  · split at h
    · unfold NVSimRead at h
      obtain ⟨ns, _, h⟩ := bind_eq_ok h
      dsimp only at h
      split at h
      · exact complete_sameSqs h
      · obtain ⟨prp, _, h⟩ := bind_eq_ok h
        obtain ⟨mem, _, h⟩ := bind_eq_ok h
        have hsame := complete_sameSqs h
        exact hsame
    · split at h
      · unfold NVSimFlush at h
        dsimp only at h
        split at h
        · exact complete_sameSqs h
        · exact complete_sameSqs h
      · exact complete_sameSqs h

/-! ## Rounds -/

open RoundRobin (rounds Stops)

/-- The queues of a list of pairs. -/
def sqsOf (busy : List (Nat × Option Nat)) : List Nat := busy.map Prod.fst

/-- A command of a busy queue is fetched, and its handler returns. -/
inductive Serves (busy : List (Nat × Option Nat)) : IoLoop → IoLoop → Prop where
  | served {s : IoLoop} {i : Nat} {cq : Option Nat} {command : Generic} {rings : Rings} {nvsim : NVSim} :
      (i, cq) ∈ busy → s.nvsim.rings.getCommand i = some (command, rings) →
      { s.nvsim with rings }.handle command i cq = .ok nvsim →
      Serves busy s ⟨nvsim, s.nvmCommandsHandled - 1, s.handled ++ [(i, command)]⟩

/-- After some commands were served, the handler of the next one raises. -/
def Raises (busy : List (Nat × Option Nat)) (s : IoLoop) (e : Exc) : Prop :=
  ∃ s' i cq command rings, Relation.ReflTransGen (Serves busy) s s' ∧ (i, cq) ∈ busy
    ∧ s'.nvsim.rings.getCommand i = some (command, rings)
    ∧ { s'.nvsim with rings }.handle command i cq = .error e

theorem serves_mono {busy busy' : List (Nat × Option Nat)} {s s' : IoLoop} (hsub : busy ⊆ busy')
    (h : Relation.ReflTransGen (Serves busy) s s') : Relation.ReflTransGen (Serves busy') s s' := by
  refine Relation.ReflTransGen.mono (fun s s' h => ?_) _ _ h
  cases h with
  | served hb hget hok => exact .served (hsub hb) hget hok

theorem Raises.mono {busy busy' : List (Nat × Option Nat)} {s : IoLoop} {e : Exc}
    (h : Raises busy s e) (hsub : busy ⊆ busy') : Raises busy' s e := by
  obtain ⟨s', i, cq, command, rings, hrun, hb, hget, herr⟩ := h
  exact ⟨s', i, cq, command, rings, serves_mono hsub hrun, hsub hb, hget, herr⟩

theorem Raises.after {busy : List (Nat × Option Nat)} {s t : IoLoop} {e : Exc}
    (hrun : Relation.ReflTransGen (Serves busy) s t) (h : Raises busy t e) : Raises busy s e := by
  obtain ⟨s', i, cq, command, rings, hrun', hraise⟩ := h
  exact ⟨s', i, cq, command, rings, hrun.trans hrun', hraise⟩

theorem handle_sameSqs {cq : Option Nat} (h : nvsim.handle command i cq = .ok nvsim') :
    Rings.SameSqs nvsim.rings nvsim'.rings := by
  cases cq with
  | some c => exact nvmCmdHandler_sameSqs h
  | none => exact absurd h (by simp [handle])

/-- What a pass over the queues `is` leaves. -/
structure Passed (is : List Nat) (s s' : IoLoop) : Prop where
  handled : s'.handled = s.handled ++ RoundRobin.round s.nvsim.rings.waiting is
  budget : s'.nvmCommandsHandled = s.nvmCommandsHandled - (RoundRobin.round s.nvsim.rings.waiting is).length
  served : ∀ i ∈ is, s'.nvsim.rings.Positioned i
    ∧ s'.nvsim.rings.waiting i = (s.nvsim.rings.waiting i).drop 1
  others : ∀ i, i ∉ is → s'.nvsim.rings.waiting i = s.nvsim.rings.waiting i
    ∧ (s.nvsim.rings.Positioned i → s'.nvsim.rings.Positioned i)

/-- A pass that starts with the queue `i`. -/
theorem Passed.cons {is : List Nat} {s t s' : IoLoop} (hi : i ∉ is) (hpos : t.nvsim.rings.Positioned i)
    (hwait : t.nvsim.rings.waiting i = (s.nvsim.rings.waiting i).drop 1)
    (hhandled : t.handled = s.handled ++ RoundRobin.round s.nvsim.rings.waiting [i])
    (hbudget : t.nvmCommandsHandled
      = s.nvmCommandsHandled - (RoundRobin.round s.nvsim.rings.waiting [i]).length)
    (hother : ∀ j, j ≠ i → t.nvsim.rings.waiting j = s.nvsim.rings.waiting j
      ∧ (s.nvsim.rings.Positioned j → t.nvsim.rings.Positioned j))
    (h : Passed is t s') : Passed (i :: is) s s' := by
  -- a queue served first is not among the later ones, whose commands stand as before
  have hsame : RoundRobin.round t.nvsim.rings.waiting is = RoundRobin.round s.nvsim.rings.waiting is := by
    refine List.filterMap_congr fun j hj => ?_
    rw [(hother j (ne_of_mem_of_not_mem hj hi)).1]
  have hcons : RoundRobin.round s.nvsim.rings.waiting (i :: is)
      = RoundRobin.round s.nvsim.rings.waiting [i] ++ RoundRobin.round s.nvsim.rings.waiting is :=
    List.filterMap_append (l := [i]) ..
  refine ⟨?_, ?_, fun j hj => ?_, fun j hj => ?_⟩
  · rw [h.handled, hhandled, hsame, hcons, List.append_assoc]
  · rw [h.budget, hbudget, hsame, hcons, List.length_append]
    omega
  · rcases List.mem_cons.mp hj with rfl | hj
    · obtain ⟨hw, hp⟩ := h.others j hi
      rw [hw]
      exact ⟨hp hpos, hwait⟩
    · rw [← (hother j (ne_of_mem_of_not_mem hj hi)).1]
      exact h.served j hj
  · rw [List.mem_cons, not_or] at hj
    obtain ⟨hw, hp⟩ := h.others j hj.2
    obtain ⟨hw', hp'⟩ := hother j hj.1
    exact ⟨hw.trans hw', fun hpos => hp (hp' hpos)⟩

/-- **A pass is a round**, unless a handler raises. -/
theorem ioPass_spec : ∀ {busy : List (Nat × Option Nat)} {s : IoLoop}, (sqsOf busy).Nodup →
    (∀ i ∈ sqsOf busy, s.nvsim.rings.Positioned i) →
    (∃ s', ioPass busy s = .ok s' ∧ Passed (sqsOf busy) s s'
        ∧ Relation.ReflTransGen (Serves busy) s s')
      ∨ ∃ e, ioPass busy s = .error e ∧ Raises busy s e := by
  intro busy
  induction busy with
  | nil =>
      intro s _ _
      exact Or.inl ⟨s, rfl, ⟨(List.append_nil _).symm, (Int.sub_zero _).symm,
        fun i hi => absurd hi List.not_mem_nil, fun i _ => ⟨rfl, id⟩⟩, .refl⟩
  | cons b busy ih =>
      obtain ⟨i, cq⟩ := b
      intro s hnodup hpos
      obtain ⟨hi, hnodup⟩ := List.nodup_cons.mp hnodup
      have hfetch := (hpos i List.mem_cons_self).fetch
      have hround : ∀ command rest, s.nvsim.rings.waiting i = command :: rest →
          RoundRobin.round s.nvsim.rings.waiting [i] = [(i, command)] := by
        intro command rest hw
        exact List.filterMap_cons_some (by rw [hw]; rfl)
      have hsub : busy ⊆ (i, cq) :: busy := List.subset_cons_self _ _
      unfold ioPass
      generalize hget : s.nvsim.rings.getCommand i = got at hfetch
      cases hfetch with
      -- nothing waits there: the queue has no share in the round
      | empty hempty =>
          have hrest := ih hnodup fun j hj => hpos j (List.mem_cons_of_mem _ hj)
          dsimp only
          rcases hrest with ⟨s', hok, hpassed, hrun⟩ | ⟨e, herr, hraises⟩
          · refine Or.inl ⟨s', hok, hpassed.cons hi (hpos i List.mem_cons_self) ?_ ?_ ?_
              fun j _ => ⟨rfl, id⟩, serves_mono hsub hrun⟩
            · rw [hempty]
              rfl
            · rw [RoundRobin.round, List.filterMap_cons_none (by rw [hempty]; rfl), List.filterMap_nil,
                List.append_nil]
            · rw [RoundRobin.round, List.filterMap_cons_none (by rw [hempty]; rfl), List.filterMap_nil]
              exact (Int.sub_zero _).symm
          · exact Or.inr ⟨e, herr, hraises.mono hsub⟩
      -- its oldest command is handled, and the other queues keep theirs
      | @command command rings hwait hmoved hother hotherPos =>
          dsimp only
          cases hhandle : { s.nvsim with rings }.handle command i cq with
          | error e =>
              exact Or.inr ⟨e, rfl, s, i, cq, command, rings, .refl, List.mem_cons_self, hget, hhandle⟩
          | ok nvsim =>
              have hserves : Serves ((i, cq) :: busy) s
                  ⟨nvsim, s.nvmCommandsHandled - 1, s.handled ++ [(i, command)]⟩ :=
                .served List.mem_cons_self hget hhandle
              have hsame : Rings.SameSqs rings nvsim.rings := handle_sameSqs hhandle
              have hone := hround command _ hwait
              have hothers : ∀ j, j ≠ i → nvsim.rings.waiting j = s.nvsim.rings.waiting j
                  ∧ (s.nvsim.rings.Positioned j → nvsim.rings.Positioned j) := fun j hj =>
                ⟨(hsame.waiting j).trans (hother j hj), fun hp => hsame.positioned (hotherPos j hj hp)⟩
              have hrest := @ih ⟨nvsim, s.nvmCommandsHandled - 1, s.handled ++ [(i, command)]⟩ hnodup
                fun j hj => (hothers j (ne_of_mem_of_not_mem hj hi)).2
                  (hpos j (List.mem_cons_of_mem _ hj))
              dsimp only [bind, Except.bind]
              rcases hrest with ⟨s', hok, hpassed, hrun⟩ | ⟨e, herr, hraises⟩
              · refine Or.inl ⟨s', hok, hpassed.cons hi (hsame.positioned hmoved) ?_ ?_ ?_ hothers,
                  .head hserves (serves_mono hsub hrun)⟩
                · show nvsim.rings.waiting i = _
                  rw [hsame.waiting, hwait]
                  rfl
                · rw [hone]
                · rw [hone]
                  rfl
              · exact Or.inr ⟨e, herr, (hraises.mono hsub).after (.single hserves)⟩

/-- The loop after `m` passes, the queues having been `qs` and the budget `budget`. -/
structure After (qs : Nat → List Generic) (is : List Nat) (budget m : Nat) (s : IoLoop) : Prop where
  handled : s.handled = rounds qs is m
  budget : s.nvmCommandsHandled = (budget : Int) - (rounds qs is m).length
  served : ∀ i ∈ is, s.nvsim.rings.Positioned i ∧ s.nvsim.rings.waiting i = (qs i).drop m

theorem After.pass {qs : Nat → List Generic} {is : List Nat} {budget m : Nat} {s s' : IoLoop}
    (h : After qs is budget m s) (hpass : Passed is s s') : After qs is budget (m + 1) s' := by
  have hround : RoundRobin.round s.nvsim.rings.waiting is = RoundRobin.round (fun i => (qs i).drop m) is :=
    List.filterMap_congr fun i hi => by rw [(h.served i hi).2]
  refine ⟨?_, ?_, fun i hi => ?_⟩
  · rw [hpass.handled, h.handled, hround, rounds]
  · rw [hpass.budget, h.budget, hround, rounds, List.length_append]
    omega
  · obtain ⟨hp, hw⟩ := hpass.served i hi
    rw [hw, (h.served i hi).2, List.drop_drop]
    exact ⟨hp, rfl⟩

/-- **The loop ends** once the budget is used up, each pass taking something of it. -/
theorem ioLoop_spec {busy : List (Nat × Option Nat)} (hnodup : (sqsOf busy).Nodup)
    {qs : Nat → List Generic} {budget : Nat}
    (hle : budget ≤ ((sqsOf busy).map fun i => (qs i).length).sum) :
    ∀ {fuel m : Nat} {s : IoLoop}, After qs (sqsOf busy) budget m s →
      (∀ n, n < m → (rounds qs (sqsOf busy) n).length < budget) → budget ≤ m + fuel →
      (∃ s' m', ioLoop busy fuel s = some (.ok s') ∧ After qs (sqsOf busy) budget m' s'
          ∧ Stops qs (sqsOf busy) budget m')
        ∨ ∃ e, ioLoop busy fuel s = some (.error e) ∧ Raises busy s e := by
  intro fuel
  induction fuel with
  | zero =>
      intro m s hafter hfirst hfuel
      -- each pass serves something while the budget lasts
      have hused : budget ≤ (rounds qs (sqsOf busy) m).length := by
        by_contra hlt
        exact Nat.not_le.mpr (RoundRobin.lt_of_length_rounds_lt hle (Nat.lt_of_not_le hlt)) hfuel
      refine Or.inl ⟨s, m, ?_, hafter, hused, hfirst⟩
      have hdone : ¬ s.nvmCommandsHandled > 0 := by
        rw [hafter.budget]
        omega
      rw [ioLoop, if_neg hdone]
  | succ fuel ih =>
      intro m s hafter hfirst hfuel
      rw [ioLoop]
      by_cases hmore : s.nvmCommandsHandled > 0
      · rw [if_pos hmore]
        have hlt : (rounds qs (sqsOf busy) m).length < budget := by
          rw [hafter.budget] at hmore
          omega
        rcases ioPass_spec hnodup fun i hi => (hafter.served i hi).1 with
          ⟨s', hok, hpassed, hrun⟩ | ⟨e, herr, hraises⟩
        · rw [hok]
          have hfirst' : ∀ n, n < m + 1 → (rounds qs (sqsOf busy) n).length < budget := by
            intro n hn
            rcases Nat.lt_succ_iff_lt_or_eq.mp hn with hn | rfl
            · exact hfirst n hn
            · exact hlt
          rcases ih (hafter.pass hpassed) hfirst' (by omega) with hdone | ⟨e, herr, hraises⟩
          · exact Or.inl hdone
          · exact Or.inr ⟨e, herr, hraises.after hrun⟩
        · rw [herr]
          exact Or.inr ⟨e, rfl, hraises⟩
      · rw [if_neg hmore]
        refine Or.inl ⟨s, m, rfl, hafter, ?_, hfirst⟩
        rw [hafter.budget] at hmore
        omega

/-! ## Fairness -/

/-- The commands of queue `i` that were handled, in order. -/
def servedOf (s : IoLoop) (i : Nat) : List Generic :=
  (s.handled.filter fun p => p.1 = i).map Prod.snd

/-- How many commands wait in the busy queues. -/
def totalWaiting (nvsim : NVSim) : Nat :=
  ((sqsOf nvsim.busySqs).map fun i => (nvsim.rings.waiting i).length).sum

/-- The contract of the loop, started in `nvsim` and ended in `s`. -/
structure Fair (nvsim : NVSim) (s : IoLoop) : Prop where
  enough : min 100 nvsim.totalWaiting ≤ s.handled.length
  notMany : s.handled.length < min 100 nvsim.totalWaiting + nvsim.busySqs.length
  /-- Only commands of busy queues are handled. -/
  busy : ∀ p ∈ s.handled, p.1 ∈ sqsOf nvsim.busySqs
  /-- Those of one queue in ring order, each once; the others still wait. -/
  inOrder : ∀ i ∈ sqsOf nvsim.busySqs,
    nvsim.rings.waiting i = servedOf s i ++ s.nvsim.rings.waiting i
  /-- No queue was served more often than one that still has commands. -/
  fair : ∀ i ∈ sqsOf nvsim.busySqs, ∀ j ∈ sqsOf nvsim.busySqs, s.nvsim.rings.waiting j ≠ [] →
    (servedOf s i).length ≤ (servedOf s j).length

theorem servedOf_eq {qs : Nat → List Generic} {is : List Nat} {budget m i : Nat} {s : IoLoop}
    (h : After qs is budget m s) (hnodup : is.Nodup) (hi : i ∈ is) : servedOf s i = (qs i).take m := by
  have hid : (Prod.snd ∘ fun x : Generic => (i, x)) = id := rfl
  rw [servedOf, h.handled, RoundRobin.filter_rounds hnodup hi, List.map_map, hid, List.map_id]

/-- **Rounds are fair.** -/
theorem fair_of_stops {nvsim : NVSim} {m : Nat} {s : IoLoop} (hnodup : (sqsOf nvsim.busySqs).Nodup)
    (hpos : 0 < min 100 nvsim.totalWaiting)
    (h : After nvsim.rings.waiting (sqsOf nvsim.busySqs) (min 100 nvsim.totalWaiting) m s)
    (hstops : Stops nvsim.rings.waiting (sqsOf nvsim.busySqs) (min 100 nvsim.totalWaiting) m) :
    Fair nvsim s where
  enough := h.handled ▸ hstops.used
  notMany := by
    have hlt := hstops.lt hpos
    rw [sqsOf, List.length_map, ← sqsOf] at hlt
    exact h.handled ▸ hlt
  busy p hp := RoundRobin.mem_rounds (h.handled ▸ hp)
  inOrder i hi := by
    rw [servedOf_eq h hnodup hi, (h.served i hi).2, List.take_append_drop]
  fair i hi j hj hmore := by
    rw [(h.served j hj).2, Ne, List.drop_eq_nil_iff, Nat.not_le] at hmore
    rw [servedOf_eq h hnodup hi, servedOf_eq h hnodup hj, List.length_take, List.length_take,
      Nat.min_eq_left hmore.le]
    exact Nat.min_le_left _ _

theorem mem_busySqs {b : Nat × Option Nat} (h : b ∈ nvsim.busySqs) : 0 < nvsim.numEntries b.1 := by
  obtain ⟨⟨_, sq, cq⟩, _, hb⟩ := List.mem_filterMap.mp h
  cases sq with
  | none => exact absurd hb (by simp)
  | some i =>
      obtain ⟨hbusy, he⟩ := Option.ite_none_right_eq_some.mp hb
      rw [← Option.some.inj he]
      exact hbusy.1

/--
**The IO loop ends and is fair.** Whatever the busy queues hold, a hundred passes
suffice. Unless a handler raises, at least `min 100 T` commands are handled and fewer than
that plus the number of queues, in ring order, and no queue gets ahead of one that still
has commands.

The count is looked at between passes, which is why a pass may overshoot; and a pass takes one
command of each busy queue, which makes it fair.
-/
theorem ioCommands_fair (hpos : ∀ i ∈ sqsOf nvsim.busySqs, nvsim.rings.Positioned i)
    (hnodup : (sqsOf nvsim.busySqs).Nodup) (hbusy : nvsim.busySqs ≠ []) {fuel : Nat}
    (hfuel : 100 ≤ fuel) :
    (∃ s, nvsim.ioCommands fuel = some (.ok s) ∧ Fair nvsim s)
      ∨ ∃ e, nvsim.ioCommands fuel = some (.error e) ∧ Raises nvsim.busySqs nvsim.ioStart e := by
  have hcount : ∀ b ∈ nvsim.busySqs, nvsim.numEntries b.1 = (nvsim.rings.waiting b.1).length :=
    fun b hb => (hpos b.1 (List.mem_map_of_mem hb)).length_waiting
  have hsum : (nvsim.busySqs.map fun b => nvsim.numEntries b.1).sum = nvsim.totalWaiting := by
    rw [List.map_congr_left hcount, totalWaiting, sqsOf, List.map_map, Nat.cast_list_sum,
      List.map_map]
    rfl
  obtain ⟨b, hb⟩ := List.exists_mem_of_ne_nil _ hbusy
  have htotal : 0 < nvsim.totalWaiting := by
    have hone := mem_busySqs hb
    rw [hcount b hb] at hone
    have hle : (nvsim.rings.waiting b.1).length ≤ nvsim.totalWaiting :=
      List.single_le_sum (fun _ _ => Nat.zero_le _) _
        (List.mem_map_of_mem (List.mem_map_of_mem hb))
    omega
  -- the budget of the loop is what it may still handle, and nothing is handled yet
  have hstart : After nvsim.rings.waiting (sqsOf nvsim.busySqs) (min 100 nvsim.totalWaiting) 0
      nvsim.ioStart := by
    refine ⟨rfl, ?_, fun i hi => ⟨hpos i hi, rfl⟩⟩
    unfold ioStart
    dsimp only
    rw [hsum]
    show min 100 (nvsim.totalWaiting : Int) = ((min 100 nvsim.totalWaiting : Nat) : Int) - 0
    omega
  rcases ioLoop_spec hnodup (Nat.min_le_right 100 _) hstart (fun n hn => absurd hn (Nat.not_lt_zero n))
    (by omega : _ ≤ 0 + fuel) with ⟨s, m, hok, hafter, hstops⟩ | hraises
  · exact Or.inl ⟨s, hok, fair_of_stops hnodup (by omega) hafter hstops⟩
  · exact Or.inr hraises

/-- Two queues of four slots with `Flush` commands: three that wrap, and one. -/
def twoBusy : NVSim where
  rings := { Rings.start Rings.sharedConfig with
    sqRing := fun _ slot => { OPC := Flush.OPC, NSID := 0xFFFFFFFF, CID := BitVec.ofNat 16 slot }
    SQTAIL := fun _ => 1
    simSq := fun i => { baseAddress := i, entries := 4, entrySize := 64, qid := i, head := 2 * (2 - i) }
    simCq := fun c => { baseAddress := c, entries := 8, entrySize := 16, qid := c } }
  mem _ := 0
  namespaces := []
  queueMgr := (QueueMgr.add {} 1 1 1 1).add 2 2 2 2
  nextSq := 3
  nextCq := 3

/-- The second queue gets its turn after the first command of the first. -/
theorem ioCommands_fair_twoBusy :
    ∃ s, twoBusy.ioCommands 100 = some (.ok s) ∧ Fair twoBusy s
      ∧ s.handled.map (fun p => (p.1, p.2.CID)) = [(1, 2), (2, 0), (1, 3), (1, 0)] := by
  have hrun : (twoBusy.ioCommands 100).map (fun r => r.toOption.map fun s =>
      s.handled.map fun p => (p.1, p.2.CID)) = some (some [(1, 2), (2, 0), (1, 3), (1, 0)]) := by
    decide +kernel
  have hbusy : sqsOf twoBusy.busySqs = [1, 2] := by decide +kernel
  have hpos : ∀ i ∈ sqsOf twoBusy.busySqs, twoBusy.rings.Positioned i := by
    intro i hi
    rw [hbusy] at hi
    rcases List.mem_cons.mp hi with rfl | hi
    · exact ⟨by decide, by decide, by decide⟩
    · rw [List.mem_singleton.mp hi]
      exact ⟨by decide, by decide, by decide⟩
  rcases @ioCommands_fair twoBusy hpos (by rw [hbusy]; decide) (by decide +kernel) 100
    (Nat.le_refl _) with ⟨s, hok, hfair⟩ | ⟨e, herr, _⟩
  · rw [hok] at hrun
    exact ⟨s, hok, hfair, Option.some.inj (Option.some.inj hrun)⟩
  · rw [herr] at hrun
    exact absurd (Option.some.inj hrun) (by simp [Except.toOption])

end NVSim

end LoneNvme
