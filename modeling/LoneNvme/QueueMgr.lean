import LoneNvme.Lib.Dict
import LoneNvme.Lib.Python

/-!
# The queue manager

`QueueMgr` keeps pairs of queue objects under `(sqid, cqid)`. It is used by host
and simulator, so it is stated over arbitrary object types; the ids of an added
pair are passed with it. `None` in a pair means a deleted queue.

Removing a queue goes over the pairs and empties those that have it, while the list of ids
loses one for each. When that returns is stated exactly (`removeSq_ok_iff`, `removeCq_ok_iff`),
as both ends depend on it: the host after a delete command, the simulator while it answers one.
-/

namespace LoneNvme

open Lib

/-- What `get` can put in place of a queue: nothing, an object, or a bare id. -/
inductive QueueRef (α : Type*) where
  | none
  | queue (q : α)
  | id (n : Nat)
  deriving DecidableEq, Repr

def QueueRef.ofOption {α : Type*} : Option α → QueueRef α
  | .none => .none
  | .some q => .queue q

structure QueueMgr (SQ CQ : Type*) where
  nvmeQueues : Dict (Nat × Nat) (Option SQ × Option CQ) := Dict.empty
  ioSqids : List Nat := []
  ioSqidIndex : Nat := 0
  ioCqids : List Nat := []

namespace QueueMgr

variable {SQ CQ : Type*}

/-- `add`: the id lists are rebuilt from the keys, deleted queues included. -/
def add (qm : QueueMgr SQ CQ) (sqid : Nat) (sq : SQ) (cqid : Nat) (cq : CQ) : QueueMgr SQ CQ :=
  let nvmeQueues := qm.nvmeQueues.set (sqid, cqid) (some sq, some cq)
  let io := nvmeQueues.keys.filter fun k => k.1 != 0 && k.2 != 0
  { qm with nvmeQueues, ioSqids := io.map Prod.fst, ioCqids := io.map Prod.snd }

/-- The first loop of `remove_cq`, from the item at hand on. -/
def removeCqLoop (remCqid : Nat) :
    List ((Nat × Nat) × (Option SQ × Option CQ)) → QueueMgr SQ CQ → Except Exc (QueueMgr SQ CQ)
  | [], qm => .ok qm
  | ((sqid, cqid), (sq, _)) :: items, qm =>
      if cqid = remCqid then
        match sq with
        | some _ =>
            .error (.assertionError ("Removing CQ with not None SQ! " ++ toString cqid))
        | none =>
            let qm := { qm with nvmeQueues := qm.nvmeQueues.set (sqid, cqid) (none, none) }
            if cqid = 0 then
              removeCqLoop remCqid items qm
            else if cqid ∈ qm.ioCqids then
              removeCqLoop remCqid items { qm with ioCqids := qm.ioCqids.erase cqid }
            else
              .error (.valueError "list.remove(x): x not in list")
      else
        removeCqLoop remCqid items qm

/-- `remove_cq`: the loop, then the pairs of which nothing is left are dropped. -/
def removeCq (qm : QueueMgr SQ CQ) (remCqid : Nat) : Except Exc (QueueMgr SQ CQ) := do
  let qm ← removeCqLoop remCqid qm.nvmeQueues.entries qm
  .ok { qm with nvmeQueues := qm.nvmeQueues.filter fun e => e.2.1.isSome || e.2.2.isSome }

/-- The loop of `remove_sq`, from the item at hand on. -/
def removeSqLoop (remSqid : Nat) :
    List ((Nat × Nat) × (Option SQ × Option CQ)) → QueueMgr SQ CQ → Except Exc (QueueMgr SQ CQ)
  | [], qm => .ok qm
  | ((sqid, cqid), (_, cq)) :: items, qm =>
      if sqid = remSqid then
        let qm := { qm with nvmeQueues := qm.nvmeQueues.set (sqid, cqid) (none, cq) }
        if sqid = 0 then
          removeSqLoop remSqid items qm
        else if sqid ∈ qm.ioSqids then
          removeSqLoop remSqid items { qm with ioSqids := qm.ioSqids.erase sqid }
        else
          .error (.valueError "list.remove(x): x not in list")
      else
        removeSqLoop remSqid items qm

def removeSq (qm : QueueMgr SQ CQ) (remSqid : Nat) : Except Exc (QueueMgr SQ CQ) :=
  removeSqLoop remSqid qm.nvmeQueues.entries qm

def getCqs (qm : QueueMgr SQ CQ) : List (Option CQ) := qm.nvmeQueues.entries.map fun e => e.2.2

/-- The first pair whose key satisfies `p`. -/
def firstPair (qm : QueueMgr SQ CQ) (p : Nat × Nat → Bool) : QueueRef SQ × QueueRef CQ :=
  match qm.nvmeQueues.entries.find? fun e => p e.1 with
  | some (_, sq, cq) => (.ofOption sq, .ofOption cq)
  | none => (.none, .none)

/-- `get`. Asked for nothing it returns the first *key*, not the first pair. -/
def get (qm : QueueMgr SQ CQ) (sqid cqid : Option Nat) : Except Exc (QueueRef SQ × QueueRef CQ) :=
  match sqid, cqid with
  | some sqid, some cqid =>
      match qm.nvmeQueues.get? (sqid, cqid) with
      | some (sq, cq) => .ok (.ofOption sq, .ofOption cq)
      | none => .error (.keyError ("SQID: " ++ toString cqid ++ " CQID: " ++ toString sqid
          ++ " not a valid pair"))
  | some sqid, none => .ok (qm.firstPair fun k => k.1 == sqid)
  | none, some cqid => .ok (qm.firstPair fun k => k.2 == cqid)
  | none, none =>
      match qm.nvmeQueues.entries with
      | ((sqid, cqid), _) :: _ => .ok (.id sqid, .id cqid)
      | [] => .ok (.none, .none)

/-- `next_iosq_id`: the id at the index, and the index moved on. -/
def nextIosqId (qm : QueueMgr SQ CQ) : Except Exc (Option Nat × QueueMgr SQ CQ) :=
  if qm.ioSqids = [] then
    .ok (none, qm)
  else
    match qm.ioSqids[qm.ioSqidIndex]? with
    | none => .error (.indexError "list index out of range")
    | some sqid =>
        let index := qm.ioSqidIndex + 1
        .ok (some sqid,
          { qm with ioSqidIndex := if index + 1 > qm.ioSqids.length then 0 else index })

/-! ## Managers of a fixed set of queue pairs -/

/-- Every found pair is an item of the manager. -/
theorem firstPair_spec (qm : QueueMgr SQ CQ) (p : Nat × Nat → Bool) :
    (∃ k v, (k, v) ∈ qm.nvmeQueues.entries ∧ p k = true
        ∧ qm.firstPair p = (.ofOption v.1, .ofOption v.2))
      ∨ ((∀ k ∈ qm.nvmeQueues.keys, p k = false) ∧ qm.firstPair p = (.none, .none)) := by
  unfold firstPair
  cases hf : qm.nvmeQueues.entries.find? fun e => p e.1 with
  | some e =>
      obtain ⟨k, v⟩ := e
      exact Or.inl ⟨k, v, List.mem_of_find?_eq_some hf,
        (List.find?_eq_some_iff_append.mp hf).1, rfl⟩
  | none =>
      refine Or.inr ⟨?_, rfl⟩
      intro k hk
      obtain ⟨v, hm⟩ := Dict.mem_keys.mp hk
      exact Bool.eq_false_iff.mpr (List.find?_eq_none.mp hf _ hm)

/-- The same manager, but for whose turn it is. -/
structure Turned (qm qm' : QueueMgr SQ CQ) : Prop where
  nvmeQueues : qm'.nvmeQueues = qm.nvmeQueues
  ioSqids : qm'.ioSqids = qm.ioSqids
  ioCqids : qm'.ioCqids = qm.ioCqids

/-- `next_iosq_id` offers a listed id, or none, and moves the index. -/
theorem nextIosqId_turned {qm qm' : QueueMgr SQ CQ} {sqid : Option Nat}
    (h : qm.nextIosqId = .ok (sqid, qm')) : Turned qm qm' ∧ ∀ i, sqid = some i → i ∈ qm.ioSqids := by
  unfold nextIosqId at h
  split at h
  · injection h with h
    injection h with hsqid h
    subst hsqid h
    exact ⟨⟨rfl, rfl, rfl⟩, fun i hi => absurd hi (by simp)⟩
  · split at h
    · exact absurd h (by simp)
    · rename_i sqid' hget
      injection h with h
      injection h with hsqid h
      subst hsqid h
      exact ⟨⟨rfl, rfl, rfl⟩, fun i hi => Option.some.inj hi ▸ List.mem_of_getElem? hget⟩

/-! ## When a removal does not raise -/

/-- The loop of `remove_sq` needs its id in the list once for every pair it comes to. -/
theorem removeSqLoop_ok_iff {remSqid : Nat} (h0 : remSqid ≠ 0) :
    ∀ {items : List ((Nat × Nat) × (Option SQ × Option CQ))} {qm : QueueMgr SQ CQ},
      (∃ qm', removeSqLoop remSqid items qm = .ok qm')
        ↔ items.countP (fun e => e.1.1 = remSqid) ≤ qm.ioSqids.count remSqid := by
  intro items
  induction items with
  | nil => exact fun {qm} => ⟨fun _ => Nat.zero_le _, fun _ => ⟨qm, rfl⟩⟩
  | cons e items ih =>
      intro qm
      obtain ⟨⟨sqid, cqid⟩, sq, cq⟩ := e
      rw [removeSqLoop, List.countP_cons]
      by_cases hq : sqid = remSqid
      · subst hq
        rw [if_pos rfl, if_neg h0, if_pos (decide_eq_true rfl)]
        by_cases hin : sqid ∈ qm.ioSqids
        · rw [if_pos hin, ih]
          have hpos := List.count_pos_iff.mpr hin
          show _ ≤ (qm.ioSqids.erase sqid).count sqid ↔ _
          rw [List.count_erase_self]
          omega
        · rw [if_neg hin, List.count_eq_zero.mpr hin]
          exact ⟨fun ⟨_, h⟩ => absurd h (by simp), fun h => absurd h (by omega)⟩
      · rw [if_neg hq, if_neg (fun hd => hq (of_decide_eq_true hd)), ih, Nat.add_zero]

/-- The loop of `remove_cq` besides needs every pair it comes to to have lost its submission queue. -/
theorem removeCqLoop_ok_iff {remCqid : Nat} (h0 : remCqid ≠ 0) :
    ∀ {items : List ((Nat × Nat) × (Option SQ × Option CQ))} {qm : QueueMgr SQ CQ},
      (∃ qm', removeCqLoop remCqid items qm = .ok qm')
        ↔ (∀ e ∈ items, e.1.2 = remCqid → e.2.1.isNone)
          ∧ items.countP (fun e => e.1.2 = remCqid) ≤ qm.ioCqids.count remCqid := by
  intro items
  induction items with
  | nil => exact fun {qm} => ⟨fun _ => ⟨by simp, Nat.zero_le _⟩, fun _ => ⟨qm, rfl⟩⟩
  | cons e items ih =>
      intro qm
      obtain ⟨⟨sqid, cqid⟩, sq, cq⟩ := e
      rw [removeCqLoop.eq_def, List.countP_cons, List.forall_mem_cons]
      dsimp only
      by_cases hq : cqid = remCqid
      · subst hq
        rw [if_pos rfl, if_pos (decide_eq_true rfl)]
        cases sq with
        -- a submission queue still uses it: the source raises
        | some q =>
            exact ⟨fun ⟨_, h⟩ => absurd h (by simp), fun h => absurd (h.1.1 rfl) (by simp)⟩
        | none =>
            dsimp only
            rw [if_neg h0]
            by_cases hin : cqid ∈ qm.ioCqids
            · rw [if_pos hin, ih]
              -- each turn takes one from the count and one from the list
              have hpos := List.count_pos_iff.mpr hin
              show _ ∧ _ ≤ (qm.ioCqids.erase cqid).count cqid ↔ _
              rw [List.count_erase_self]
              constructor
              · exact fun h => ⟨⟨fun _ => rfl, h.1⟩, by omega⟩
              · exact fun h => ⟨h.1.2, by omega⟩
            · rw [if_neg hin, List.count_eq_zero.mpr hin]
              exact ⟨fun ⟨_, h⟩ => absurd h (by simp), fun h => absurd h.2 (by omega)⟩
      · rw [if_neg hq, if_neg (fun hd => hq (of_decide_eq_true hd)), ih, Nat.add_zero]
        exact ⟨fun h => ⟨⟨fun he => absurd he hq, h.1⟩, h.2⟩, fun h => ⟨h.1.2, h.2⟩⟩

theorem removeSq_ok_iff {qm : QueueMgr SQ CQ} {remSqid : Nat} (h0 : remSqid ≠ 0) :
    (∃ qm', qm.removeSq remSqid = .ok qm')
      ↔ qm.nvmeQueues.entries.countP (fun e => e.1.1 = remSqid) ≤ qm.ioSqids.count remSqid :=
  removeSqLoop_ok_iff h0

theorem removeCq_ok_iff {qm : QueueMgr SQ CQ} {remCqid : Nat} (h0 : remCqid ≠ 0) :
    (∃ qm', qm.removeCq remCqid = .ok qm')
      ↔ (∀ e ∈ qm.nvmeQueues.entries, e.1.2 = remCqid → e.2.1.isNone)
        ∧ qm.nvmeQueues.entries.countP (fun e => e.1.2 = remCqid) ≤ qm.ioCqids.count remCqid := by
  rw [← removeCqLoop_ok_iff h0, removeCq]
  cases removeCqLoop remCqid qm.nvmeQueues.entries qm with
  | ok qm' => exact ⟨fun _ => ⟨qm', rfl⟩, fun _ => ⟨_, rfl⟩⟩
  | error e => exact ⟨fun ⟨_, h⟩ => absurd h (by simp [bind, Except.bind]), fun ⟨_, h⟩ => absurd h (by simp)⟩

end QueueMgr

end LoneNvme
