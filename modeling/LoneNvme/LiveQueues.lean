import LoneNvme.QueueMgr
import LoneNvme.Lib.Machine
import Mathlib.Data.Finset.Card
import Mathlib.Data.Finset.Filter
import Mathlib.Data.List.Rotate

/-!
# Which queues a manager offers

A queue is live while its object is in some pair. A manager should list exactly the ids
of its live IO queues, and hand out the submission queues in turn.

It does so in orderly runs. Two things upset it. `remove_sq` leaves the round-robin
index where it is, so after the removal of one of several queues the index may point
past the end. And `add` rebuilds the lists from all pairs, so it lists a deleted
submission queue again while the completion queue of its pair is still there.
-/

namespace LoneNvme

open Lib

namespace QueueMgr

variable {SQ CQ : Type*}

/-! ## Live queues -/

def HasSq (qm : QueueMgr SQ CQ) (sqid : Nat) : Prop :=
  ∃ e ∈ qm.nvmeQueues.entries, e.1.1 = sqid ∧ e.2.1.isSome

def HasCq (qm : QueueMgr SQ CQ) (cqid : Nat) : Prop :=
  ∃ e ∈ qm.nvmeQueues.entries, e.1.2 = cqid ∧ e.2.2.isSome

instance (qm : QueueMgr SQ CQ) (sqid : Nat) : Decidable (qm.HasSq sqid) :=
  inferInstanceAs (Decidable (∃ e ∈ qm.nvmeQueues.entries, e.1.1 = sqid ∧ e.2.1.isSome))

instance (qm : QueueMgr SQ CQ) (cqid : Nat) : Decidable (qm.HasCq cqid) :=
  inferInstanceAs (Decidable (∃ e ∈ qm.nvmeQueues.entries, e.1.2 = cqid ∧ e.2.2.isSome))

/-- The ids of the live IO submission queues. -/
def liveIoSqs (qm : QueueMgr SQ CQ) : Finset Nat :=
  (qm.nvmeQueues.keys.map Prod.fst).toFinset.filter fun sqid => sqid ≠ 0 ∧ qm.HasSq sqid

/-- The ids of the live IO completion queues. -/
def liveIoCqs (qm : QueueMgr SQ CQ) : Finset Nat :=
  (qm.nvmeQueues.keys.map Prod.snd).toFinset.filter fun cqid => cqid ≠ 0 ∧ qm.HasCq cqid

theorem mem_liveIoSqs {qm : QueueMgr SQ CQ} {sqid : Nat} :
    sqid ∈ qm.liveIoSqs ↔ sqid ≠ 0 ∧ qm.HasSq sqid := by
  unfold liveIoSqs
  rw [Finset.mem_filter]
  refine ⟨fun h => h.2, fun h => ⟨?_, h⟩⟩
  obtain ⟨e, hm, rfl, _⟩ := h.2
  exact List.mem_toFinset.mpr (List.mem_map_of_mem (List.mem_map_of_mem hm))

theorem mem_liveIoCqs {qm : QueueMgr SQ CQ} {cqid : Nat} :
    cqid ∈ qm.liveIoCqs ↔ cqid ≠ 0 ∧ qm.HasCq cqid := by
  unfold liveIoCqs
  rw [Finset.mem_filter]
  refine ⟨fun h => h.2, fun h => ⟨?_, h⟩⟩
  obtain ⟨e, hm, rfl, _⟩ := h.2
  exact List.mem_toFinset.mpr (List.mem_map_of_mem (List.mem_map_of_mem hm))

/-! ## The round robin -/

/-- `n` calls of `next_iosq_id`, one after the other. -/
def nextIosqIds : Nat → QueueMgr SQ CQ → Except Exc (List (Option Nat) × QueueMgr SQ CQ)
  | 0, qm => .ok ([], qm)
  | n + 1, qm => do
      let (sqid, qm) ← qm.nextIosqId
      let (sqids, qm) ← nextIosqIds n qm
      .ok (sqid :: sqids, qm)

/-- The ids in the order in which they are offered. -/
def turns (qm : QueueMgr SQ CQ) : List Nat := qm.ioSqids.rotate qm.ioSqidIndex

/-- One call offers the first of them, and puts it last. -/
theorem nextIosqId_turns {qm : QueueMgr SQ CQ} (h : qm.ioSqidIndex < qm.ioSqids.length) :
    ∃ sqid index, index < qm.ioSqids.length ∧ qm.turns.head? = some sqid
      ∧ qm.nextIosqId = .ok (some sqid, { qm with ioSqidIndex := index })
      ∧ { qm with ioSqidIndex := index }.turns = qm.turns.rotate 1 := by
  have hne : qm.ioSqids ≠ [] := List.ne_nil_of_length_pos (by omega)
  have hget : qm.ioSqids[qm.ioSqidIndex]? = some qm.ioSqids[qm.ioSqidIndex] :=
    List.getElem?_eq_getElem h
  refine ⟨qm.ioSqids[qm.ioSqidIndex],
    if qm.ioSqidIndex + 1 + 1 > qm.ioSqids.length then 0 else qm.ioSqidIndex + 1, ?_, ?_, ?_, ?_⟩
  · split
    · omega
    · omega
  · rw [turns, List.head?_rotate h]
    exact hget
  · unfold nextIosqId
    rw [if_neg hne, hget]
  · unfold turns
    dsimp only
    rw [List.rotate_rotate]
    split
    · have hlast : qm.ioSqidIndex + 1 = qm.ioSqids.length := by omega
      rw [hlast, List.rotate_length, List.rotate_zero]
    · rfl

theorem take_rotate_one {α : Type*} {l : List α} {a : α} {n : Nat} (h : l.head? = some a)
    (hn : n < l.length) : a :: (l.rotate 1).take n = l.take (n + 1) := by
  cases l with
  | nil => exact absurd h (by simp)
  | cons b l =>
      rw [List.head?_cons, Option.some.injEq] at h
      rw [List.length_cons] at hn
      rw [List.rotate_cons_succ, List.rotate_zero, List.take_append_of_le_length (by omega),
        List.take_succ_cons, h]

/-- **In turn**: consecutive calls offer the ids one after the other. -/
theorem nextIosqIds_turns :
    ∀ {n : Nat} {qm : QueueMgr SQ CQ}, qm.ioSqidIndex < qm.ioSqids.length → n ≤ qm.ioSqids.length →
      ∃ qm', nextIosqIds n qm = .ok ((qm.turns.take n).map some, qm') := by
  intro n
  induction n with
  | zero => exact fun {qm} _ _ => ⟨qm, by rw [List.take_zero]; rfl⟩
  | succ n ih =>
      intro qm h hn
      obtain ⟨sqid, index, hindex, hhead, hnext, hturns⟩ := nextIosqId_turns h
      obtain ⟨qm', hrest⟩ := @ih { qm with ioSqidIndex := index } hindex (Nat.le_of_succ_le hn)
      have hlen : n < qm.turns.length := by
        rw [turns, List.length_rotate]
        exact hn
      refine ⟨qm', ?_⟩
      unfold nextIosqIds
      rw [hnext]
      dsimp only [bind, Except.bind]
      rw [hrest, hturns, ← take_rotate_one hhead hlen, List.map_cons]

/-! ## What a manager should offer -/

/-- The contract: the lists are those of the live queues, and each gets its turn. -/
structure Offers (qm : QueueMgr SQ CQ) : Prop where
  sqids : ∀ sqid, sqid ∈ qm.ioSqids ↔ sqid ∈ qm.liveIoSqs
  cqids : ∀ cqid, cqid ∈ qm.ioCqids ↔ cqid ∈ qm.liveIoCqs
  next : ∃ sqid qm', qm.nextIosqId = .ok (sqid, qm') ∧ (sqid = none ↔ qm.liveIoSqs = ∅)
    ∧ ∀ i, sqid = some i → i ∈ qm.liveIoSqs
      ∧ ∃ sq cq, qm'.get (some i) none = .ok (.queue sq, .queue cq)
  rotation : ∃ (sqids : List Nat) (qm' : QueueMgr SQ CQ),
    nextIosqIds qm.liveIoSqs.card qm = .ok (sqids.map some, qm')
    ∧ sqids.Nodup ∧ sqids.toFinset = qm.liveIoSqs

inductive QueueMgrOp (SQ CQ : Type*) where
  | add (sqid : Nat) (sq : SQ) (cqid : Nat) (cq : CQ)
  | removeSq (sqid : Nat)
  | removeCq (cqid : Nat)
  | nextIosqId

/-- A removal is of a queue that exists, and of a completion queue only after its submission queues. -/
def step (qm : QueueMgr SQ CQ) : QueueMgrOp SQ CQ → Option (QueueMgr SQ CQ)
  | .add sqid sq cqid cq => some (qm.add sqid sq cqid cq)
  | .removeSq sqid => if qm.HasSq sqid then (qm.removeSq sqid).toOption else none
  | .removeCq cqid =>
      if qm.HasCq cqid ∧ ∀ e ∈ qm.nvmeQueues.entries, e.1.2 = cqid → e.2.1.isNone then
        (qm.removeCq cqid).toOption
      else none
  | .nextIosqId => qm.nextIosqId.toOption.map Prod.snd

def machine (SQ CQ : Type*) : Machine (QueueMgr SQ CQ) (QueueMgrOp SQ CQ) :=
  ⟨fun qm => qm = {}, step⟩

/--
What keeps a manager in order. A new pair is of two admin or two IO queues, its
submission queue is in no other pair, and no other pair has lost only its submission
queue. An IO submission queue is removed while the index is not on the last of several.
-/
def Orderly (qm : QueueMgr SQ CQ) : QueueMgrOp SQ CQ → Prop
  | .add sqid _ cqid _ => (sqid = 0 ↔ cqid = 0) ∧ ∀ e ∈ qm.nvmeQueues.entries,
      e.1 ≠ (sqid, cqid) → e.1.1 ≠ 0 → e.1.1 ≠ sqid ∧ e.2.1.isSome
  | .removeSq sqid => sqid ≠ 0 →
      qm.ioSqidIndex + 1 < qm.ioSqids.length ∨ qm.ioSqids.length = 1
  | .removeCq _ => True
  | .nextIosqId => True

instance (qm : QueueMgr SQ CQ) (a : QueueMgrOp SQ CQ) : Decidable (qm.Orderly a) :=
  match a with
  | .add sqid _ cqid _ => inferInstanceAs (Decidable ((sqid = 0 ↔ cqid = 0)
      ∧ ∀ e ∈ qm.nvmeQueues.entries,
        e.1 ≠ (sqid, cqid) → e.1.1 ≠ 0 → e.1.1 ≠ sqid ∧ e.2.1.isSome))
  | .removeSq sqid => inferInstanceAs (Decidable (sqid ≠ 0 →
      qm.ioSqidIndex + 1 < qm.ioSqids.length ∨ qm.ioSqids.length = 1))
  | .removeCq _ => inferInstanceAs (Decidable True)
  | .nextIosqId => inferInstanceAs (Decidable True)

/-! ## The invariant -/

/-- Every pair of two kinds alike, with a completion queue, and its submission queue in no other. -/
structure Inv (qm : QueueMgr SQ CQ) : Prop where
  kinds : ∀ k ∈ qm.nvmeQueues.keys, k.1 = 0 ↔ k.2 = 0
  single : ∀ k ∈ qm.nvmeQueues.keys, ∀ k' ∈ qm.nvmeQueues.keys, k.1 = k'.1 → k = k'
  cqs : ∀ e ∈ qm.nvmeQueues.entries, e.2.2.isSome
  sqids : ∀ sqid, sqid ∈ qm.ioSqids ↔ sqid ∈ qm.liveIoSqs
  nodup : qm.ioSqids.Nodup
  /-- A completion queue is listed once for every pair it is in. -/
  cqids : ∀ cqid, qm.ioCqids.count cqid
    = if cqid = 0 then 0 else qm.nvmeQueues.keys.countP fun k => k.2 = cqid
  index : qm.ioSqidIndex < max 1 qm.ioSqids.length

variable {qm qm' : QueueMgr SQ CQ}

theorem Inv.toFinset_ioSqids (h : Inv qm) : qm.ioSqids.toFinset = qm.liveIoSqs := by
  ext sqid
  rw [List.mem_toFinset, h.sqids]

theorem Inv.length_ioSqids (h : Inv qm) : qm.ioSqids.length = qm.liveIoSqs.card := by
  rw [← h.toFinset_ioSqids, List.toFinset_card_of_nodup h.nodup]

/-- A live submission queue is found with its completion queue. -/
theorem Inv.get_live (h : Inv qm) {sqid : Nat} (hlive : sqid ∈ qm.liveIoSqs) :
    ∃ sq cq, qm.get (some sqid) none = .ok (.queue sq, .queue cq) := by
  obtain ⟨_, ⟨k, v⟩, hm, hk, hsq⟩ := mem_liveIoSqs.mp hlive
  have hkey : k ∈ qm.nvmeQueues.keys := Dict.mem_keys.mpr ⟨v, hm⟩
  show ∃ sq cq, Except.ok (qm.firstPair fun k => k.1 == sqid) = _
  rcases qm.firstPair_spec fun k => k.1 == sqid with ⟨k', v', hm', hk', hf⟩ | ⟨hnone, _⟩
  · have hk' : k'.1 = sqid := eq_of_beq hk'
    have hsame := h.single k' (Dict.mem_keys.mpr ⟨v', hm'⟩) k hkey (hk'.trans hk.symm)
    subst hsame
    rw [Dict.entries_inj hm' hm] at hf
    obtain ⟨sq, hsq⟩ := Option.isSome_iff_exists.mp hsq
    obtain ⟨cq, hcq⟩ := Option.isSome_iff_exists.mp (h.cqs _ hm)
    refine ⟨sq, cq, ?_⟩
    rw [hf, hsq, hcq]
    rfl
  · exact absurd (hnone k hkey) (by simpa using hk)

/-- The turn is with a queue there is. -/
theorem Inv.index_lt (h : Inv qm) (hnil : qm.ioSqids ≠ []) :
    qm.ioSqidIndex < qm.ioSqids.length := by
  have hpos := List.length_pos_of_ne_nil hnil
  have hindex := h.index
  omega

/-- **What the invariant is for.** -/
theorem Inv.offers (h : Inv qm) : Offers qm where
  sqids := h.sqids
  cqids cqid := by
    rw [mem_liveIoCqs, ← List.count_pos_iff, h.cqids]
    by_cases h0 : cqid = 0
    · rw [if_pos h0]
      exact ⟨fun hlt => absurd hlt (Nat.lt_irrefl 0), fun hc => absurd h0 hc.1⟩
    · rw [if_neg h0, List.countP_pos_iff]
      constructor
      · rintro ⟨k, hk, hc⟩
        obtain ⟨v, hm⟩ := Dict.mem_keys.mp hk
        exact ⟨h0, _, hm, of_decide_eq_true hc, h.cqs _ hm⟩
      · rintro ⟨_, e, hm, hc, _⟩
        exact ⟨e.1, Dict.mem_keys.mpr ⟨e.2, hm⟩, decide_eq_true hc⟩
  next := by
    by_cases hnil : qm.ioSqids = []
    · have hempty : qm.liveIoSqs = ∅ := by
        rw [← h.toFinset_ioSqids, hnil]
        rfl
      exact ⟨none, qm, if_pos hnil, by simp [hempty], fun i hi => absurd hi (by simp)⟩
    · have hlt := h.index_lt hnil
      obtain ⟨sqid, index, _, hhead, hnext, _⟩ := nextIosqId_turns hlt
      -- what is at the index is on the list, and the list is that of the live queues
      have hlive : sqid ∈ qm.liveIoSqs := by
        rw [← h.sqids, ← List.mem_rotate]
        exact List.mem_of_mem_head? hhead
      refine ⟨some sqid, _, hnext, ?_, fun i hi => ?_⟩
      · exact iff_of_false (by simp) (Finset.ne_empty_of_mem hlive)
      · rw [← Option.some.inj hi]
        exact ⟨hlive, h.get_live hlive⟩
  rotation := by
    rw [← h.length_ioSqids, ← h.toFinset_ioSqids]
    by_cases hnil : qm.ioSqids = []
    · exact ⟨[], qm, by rw [hnil]; rfl, List.nodup_nil, by rw [hnil]⟩
    · have hlt := h.index_lt hnil
      obtain ⟨qm', hids⟩ := nextIosqIds_turns hlt (Nat.le_refl _)
      -- as many calls as there are queues are one full turn
      have hall : qm.turns.take qm.ioSqids.length = qm.turns :=
        List.take_of_length_le (Nat.le_of_eq (List.length_rotate _ _))
      rw [hall] at hids
      exact ⟨qm.turns, qm', hids, List.nodup_rotate.mpr h.nodup,
        List.toFinset_eq_of_perm _ _ (List.rotate_perm _ _)⟩

/-! ## One step -/

theorem inv_init : Inv ({} : QueueMgr SQ CQ) where
  kinds k hk := absurd hk (by simp [Dict.keys, Dict.empty])
  single k hk := absurd hk (by simp [Dict.keys, Dict.empty])
  cqs e he := absurd he (by simp [Dict.empty])
  sqids sqid := by
    rw [mem_liveIoSqs]
    refine iff_of_false (by simp) fun h => ?_
    obtain ⟨_, e, he, _⟩ := h
    exact absurd he (by simp [Dict.empty])
  nodup := List.nodup_nil
  cqids cqid := by simp [Dict.keys, Dict.empty]
  index := Nat.one_pos

/-- The lists of the live queues only get longer. -/
theorem Inv.index_of_subset (h : Inv qm)
    (hindex : qm'.ioSqidIndex = qm.ioSqidIndex) (hsub : ∀ sqid ∈ qm.ioSqids, sqid ∈ qm'.ioSqids) :
    qm'.ioSqidIndex < max 1 qm'.ioSqids.length := by
  have hlen := (h.nodup.subperm hsub).length_le
  have hlt := h.index
  rw [hindex]
  omega

/-- The lists as `add` makes them: the ids of the pairs that are IO pairs, in order. -/
structure Listed (qm : QueueMgr SQ CQ) : Prop where
  sqids : qm.ioSqids = (qm.nvmeQueues.keys.filter fun k => k.1 != 0 && k.2 != 0).map Prod.fst
  cqids : qm.ioCqids = (qm.nvmeQueues.keys.filter fun k => k.1 != 0 && k.2 != 0).map Prod.snd

namespace Listed

/-- If every IO pair is live, the listed submission queues are the live ones, -/
theorem mem_ioSqids (h : Listed qm) (hkinds : ∀ k ∈ qm.nvmeQueues.keys, k.1 = 0 ↔ k.2 = 0)
    (hlive : ∀ e ∈ qm.nvmeQueues.entries, e.1.1 ≠ 0 → e.2.1.isSome) (i : Nat) :
    i ∈ qm.ioSqids ↔ i ∈ qm.liveIoSqs := by
  rw [mem_liveIoSqs, h.sqids, List.mem_map]
  constructor
  · rintro ⟨k, hk, rfl⟩
    obtain ⟨hk, hio⟩ := List.mem_filter.mp hk
    have h0 : k.1 ≠ 0 := fun h0 => by simp [h0] at hio
    obtain ⟨v, hm⟩ := Dict.mem_keys.mp hk
    exact ⟨h0, (k, v), hm, rfl, hlive _ hm h0⟩
  · rintro ⟨h0, ⟨k, v⟩, hm, rfl, _⟩
    have hk := Dict.mem_keys.mpr ⟨v, hm⟩
    have h2 : k.2 ≠ 0 := fun h2 => h0 ((hkinds k hk).mpr h2)
    exact ⟨k, List.mem_filter.mpr ⟨hk, by simpa using ⟨h0, h2⟩⟩, rfl⟩

/-- each once if no two pairs share one, -/
theorem nodup (h : Listed qm)
    (hsingle : ∀ k ∈ qm.nvmeQueues.keys, ∀ k' ∈ qm.nvmeQueues.keys, k.1 = k'.1 → k = k') :
    qm.ioSqids.Nodup := by
  rw [h.sqids]
  refine List.Nodup.map_on (fun k hk k' hk' => ?_) (qm.nvmeQueues.nodup.filter _)
  exact hsingle k (List.mem_filter.mp hk).1 k' (List.mem_filter.mp hk').1

/-- and a completion queue is listed once for each of its pairs. -/
theorem count_ioCqids (h : Listed qm) (hkinds : ∀ k ∈ qm.nvmeQueues.keys, k.1 = 0 ↔ k.2 = 0)
    (i : Nat) : qm.ioCqids.count i
      = if i = 0 then 0 else qm.nvmeQueues.keys.countP fun k => k.2 = i := by
  rw [h.cqids, List.count_eq_countP, List.countP_map, List.countP_filter]
  by_cases h0 : i = 0
  · rw [if_pos h0, List.countP_eq_zero]
    intro k _
    simpa [h0] using fun h2 _ => h2
  · rw [if_neg h0]
    refine List.countP_congr fun k hk => ?_
    have hk2 : k.1 = 0 → k.2 = 0 := (hkinds k hk).mp
    simp only [Function.comp_apply, Bool.and_eq_true, beq_iff_eq, bne_iff_ne, decide_eq_true_eq]
    constructor
    · exact fun hc => hc.1
    · intro hc
      have h2 : k.2 ≠ 0 := fun h2 => h0 (hc.symm.trans h2)
      exact ⟨hc, fun h1 => h2 (hk2 h1), h2⟩

end Listed

section Add

variable {sqid cqid : Nat} {sq : SQ} {cq : CQ}

theorem listed_add : Listed (qm.add sqid sq cqid cq) := ⟨rfl, rfl⟩

theorem mem_entries_add {k : Nat × Nat} {v : Option SQ × Option CQ} :
    (k, v) ∈ (qm.add sqid sq cqid cq).nvmeQueues.entries ↔
      (k = (sqid, cqid) ∧ v = (some sq, some cq))
        ∨ (k ≠ (sqid, cqid) ∧ (k, v) ∈ qm.nvmeQueues.entries) := Dict.mem_entries_set

theorem Inv.kinds_add (h : Inv qm) (hkind : sqid = 0 ↔ cqid = 0) :
    ∀ k ∈ (qm.add sqid sq cqid cq).nvmeQueues.keys, k.1 = 0 ↔ k.2 = 0 := by
  intro k hk
  obtain ⟨v, hm⟩ := Dict.mem_keys.mp hk
  rcases mem_entries_add.mp hm with ⟨rfl, _⟩ | ⟨_, hm⟩
  · exact hkind
  · exact h.kinds k (Dict.mem_keys.mpr ⟨v, hm⟩)

/-- No pair but the new one has the new submission queue. -/
theorem Inv.sqid_ne (h : Inv qm) (hok : qm.Orderly (.add sqid sq cqid cq)) {k : Nat × Nat}
    {v : Option SQ × Option CQ} (hne : k ≠ (sqid, cqid)) (hm : (k, v) ∈ qm.nvmeQueues.entries) :
    k.1 ≠ sqid := by
  intro hk
  by_cases h0 : k.1 = 0
  · have h2 := (h.kinds k (Dict.mem_keys.mpr ⟨v, hm⟩)).mp h0
    exact hne (Prod.ext hk (h2.trans (hok.1.mp (hk.symm.trans h0)).symm))
  · exact (hok.2 _ hm hne h0).1 hk

theorem Inv.single_add (h : Inv qm) (hok : qm.Orderly (.add sqid sq cqid cq)) :
    ∀ k ∈ (qm.add sqid sq cqid cq).nvmeQueues.keys,
      ∀ k' ∈ (qm.add sqid sq cqid cq).nvmeQueues.keys, k.1 = k'.1 → k = k' := by
  intro k hk k' hk' he
  obtain ⟨v, hm⟩ := Dict.mem_keys.mp hk
  obtain ⟨v', hm'⟩ := Dict.mem_keys.mp hk'
  rcases mem_entries_add.mp hm with ⟨rfl, _⟩ | ⟨hne, hold⟩
  · rcases mem_entries_add.mp hm' with ⟨hk', _⟩ | ⟨hne', hold'⟩
    · exact hk'.symm
    · exact absurd he.symm (h.sqid_ne hok hne' hold')
  · rcases mem_entries_add.mp hm' with ⟨rfl, _⟩ | ⟨_, hold'⟩
    · exact absurd he (h.sqid_ne hok hne hold)
    · exact h.single k (Dict.mem_keys.mpr ⟨v, hold⟩) k' (Dict.mem_keys.mpr ⟨v', hold'⟩) he

/-- After an orderly `add` every IO pair is live. -/
theorem Orderly.live_add (hok : qm.Orderly (.add sqid sq cqid cq)) :
    ∀ e ∈ (qm.add sqid sq cqid cq).nvmeQueues.entries, e.1.1 ≠ 0 → e.2.1.isSome := by
  intro e hm h0
  rcases mem_entries_add.mp hm with ⟨_, hv⟩ | ⟨hne, hm⟩
  · rw [hv]
    rfl
  · exact (hok.2 e hm hne h0).2

theorem Inv.add (h : Inv qm) (hok : qm.Orderly (.add sqid sq cqid cq)) :
    Inv (qm.add sqid sq cqid cq) := by
  have hkinds : ∀ k ∈ (qm.add sqid sq cqid cq).nvmeQueues.keys, k.1 = 0 ↔ k.2 = 0 :=
    h.kinds_add hok.1
  have hsingle := h.single_add hok
  have hmem := listed_add.mem_ioSqids hkinds hok.live_add
  refine ⟨hkinds, hsingle, fun e hm => ?_, hmem, listed_add.nodup hsingle,
    listed_add.count_ioCqids hkinds, h.index_of_subset rfl fun i hi => ?_⟩
  · rcases mem_entries_add.mp hm with ⟨_, hv⟩ | ⟨_, hm⟩
    · rw [hv]
      rfl
    · exact h.cqs e hm
  · -- a queue that was live still is
    obtain ⟨h0, ⟨k, v⟩, hm, hk, hsq⟩ := mem_liveIoSqs.mp ((h.sqids i).mp hi)
    refine (hmem i).mpr (mem_liveIoSqs.mpr ⟨h0, ?_⟩)
    by_cases hnew : k = (sqid, cqid)
    · exact ⟨_, mem_entries_add.mpr (Or.inl ⟨rfl, rfl⟩), by rw [← hk, hnew], rfl⟩
    · exact ⟨_, mem_entries_add.mpr (Or.inr ⟨hnew, hm⟩), hk, hsq⟩

end Add

/-- The loop of `remove_sq` passes over the other pairs. -/
theorem removeSqLoop_skip {sqid : Nat} {rest : List ((Nat × Nat) × (Option SQ × Option CQ))} :
    ∀ {items : List ((Nat × Nat) × (Option SQ × Option CQ))} {qm : QueueMgr SQ CQ},
      (∀ e ∈ items, e.1.1 ≠ sqid) →
      removeSqLoop sqid (items ++ rest) qm = removeSqLoop sqid rest qm := by
  intro items
  induction items with
  | nil => exact fun _ => rfl
  | cons e items ih =>
      intro qm h
      obtain ⟨⟨i, c⟩, sq, cq⟩ := e
      rw [List.cons_append, removeSqLoop, if_neg (h _ List.mem_cons_self)]
      exact ih fun e he => h e (List.mem_cons_of_mem _ he)

/-- The manager without the submission queue of the pair `(sqid, cqid)`. -/
def withoutSq (qm : QueueMgr SQ CQ) (sqid cqid : Nat) (cq : Option CQ) : QueueMgr SQ CQ :=
  { qm with
    nvmeQueues := qm.nvmeQueues.set (sqid, cqid) (none, cq)
    ioSqids := if sqid = 0 then qm.ioSqids else qm.ioSqids.erase sqid }

/-- **`remove_sq`** of a listed queue that is in one pair. -/
theorem removeSq_single {sqid cqid : Nat} {sq : Option SQ} {cq : Option CQ}
    {before after : List ((Nat × Nat) × (Option SQ × Option CQ))}
    (hsplit : qm.nvmeQueues.entries = before ++ ((sqid, cqid), (sq, cq)) :: after)
    (hothers : ∀ e ∈ before ++ after, e.1.1 ≠ sqid) (hlisted : sqid ≠ 0 → sqid ∈ qm.ioSqids) :
    qm.removeSq sqid = .ok (qm.withoutSq sqid cqid cq) := by
  unfold removeSq
  rw [hsplit, removeSqLoop_skip fun e he => hothers e (List.mem_append_left _ he), removeSqLoop,
    if_pos rfl]
  have hrest : ∀ qm : QueueMgr SQ CQ, removeSqLoop sqid after qm = .ok qm := by
    intro qm
    have hskip := @removeSqLoop_skip SQ CQ sqid [] after qm
      fun e he => hothers e (List.mem_append_right _ he)
    rw [List.append_nil] at hskip
    exact hskip
  unfold withoutSq
  by_cases h0 : sqid = 0
  · rw [if_pos h0, hrest, if_pos h0]
  · rw [if_neg h0, if_pos (hlisted h0), hrest, if_neg h0]

/-- A live queue is removed without an exception. -/
theorem Inv.removeSq_eq (h : Inv qm) {sqid : Nat} (hlive : qm.HasSq sqid) :
    ∃ cqid sq cq, ((sqid, cqid), (some sq, cq)) ∈ qm.nvmeQueues.entries
      ∧ qm.removeSq sqid = .ok (qm.withoutSq sqid cqid cq) := by
  obtain ⟨⟨⟨i, cqid⟩, osq, cq⟩, hm, hi, hsq⟩ := hlive
  obtain ⟨sq, hsq⟩ := Option.isSome_iff_exists.mp hsq
  dsimp only at hi hsq
  subst hi hsq
  obtain ⟨before, after, hsplit⟩ := List.append_of_mem hm
  refine ⟨cqid, sq, cq, hm, removeSq_single hsplit (fun e he hei => ?_) fun h0 =>
    (h.sqids i).mpr (mem_liveIoSqs.mpr ⟨h0, _, hm, rfl, rfl⟩)⟩
  -- the queue is in no other pair
  have hmem : e ∈ qm.nvmeQueues.entries := by
    rw [hsplit, List.mem_append, List.mem_cons]
    rcases List.mem_append.mp he with hb | ha
    · exact Or.inl hb
    · exact Or.inr (Or.inr ha)
  have hkey := h.single e.1 (List.mem_map_of_mem hmem) (i, cqid) (List.mem_map_of_mem hm) hei
  have hnodup := qm.nvmeQueues.nodup
  rw [hsplit, List.map_append, List.map_cons, List.nodup_middle, ← List.map_append] at hnodup
  have hin : e.1 ∈ (before ++ after).map Prod.fst := List.mem_map_of_mem he
  rw [hkey] at hin
  exact (List.nodup_cons.mp hnodup).1 hin

/-- `remove_sq` keeps the keys. -/
theorem removeSqLoop_keys {sqid : Nat} :
    ∀ {items : List ((Nat × Nat) × (Option SQ × Option CQ))} {qm qm' : QueueMgr SQ CQ},
      (∀ e ∈ items, e.1 ∈ qm.nvmeQueues.keys) → removeSqLoop sqid items qm = .ok qm' →
      qm'.nvmeQueues.keys = qm.nvmeQueues.keys := by
  intro items
  induction items with
  | nil => exact fun {qm qm'} _ h => Except.ok.inj h ▸ rfl
  | cons e items ih =>
      intro qm qm' hin h
      obtain ⟨⟨i, c⟩, sq, cq⟩ := e
      have hrest : ∀ e ∈ items, e.1 ∈ qm.nvmeQueues.keys :=
        fun e he => hin e (List.mem_cons_of_mem _ he)
      rw [removeSqLoop] at h
      by_cases hi : i = sqid
      · -- emptying a pair keeps its key
        have hkeys : (qm.nvmeQueues.set (i, c) (none, cq)).keys = qm.nvmeQueues.keys :=
          Dict.keys_set_of_mem _ (hin _ List.mem_cons_self)
        rw [if_pos hi] at h
        by_cases h0 : i = 0
        · rw [if_pos h0] at h
          exact (ih (fun e he => hkeys ▸ hrest e he) h).trans hkeys
        · rw [if_neg h0] at h
          by_cases hlisted : i ∈ qm.ioSqids
          · rw [if_pos hlisted] at h
            exact (ih (fun e he => hkeys ▸ hrest e he) h).trans hkeys
          · rw [if_neg hlisted] at h
            exact absurd h (by simp)
      · rw [if_neg hi] at h
        exact ih hrest h

theorem removeSq_keys {sqid : Nat} (h : qm.removeSq sqid = .ok qm') :
    qm'.nvmeQueues.keys = qm.nvmeQueues.keys :=
  removeSqLoop_keys (fun _ he => List.mem_map_of_mem he) h

theorem Inv.removeSq (h : Inv qm) {sqid : Nat} (hlive : qm.HasSq sqid)
    (hok : qm.Orderly (.removeSq sqid)) (hq : qm.removeSq sqid = .ok qm') : Inv qm' := by
  obtain ⟨cqid, sq, cq, hm, heq⟩ := h.removeSq_eq hlive
  have hwithout : qm' = qm.withoutSq sqid cqid cq := Except.ok.inj (hq.symm.trans heq)
  subst hwithout
  have hkey : (sqid, cqid) ∈ qm.nvmeQueues.keys := List.mem_map_of_mem hm
  have hkeys : (qm.withoutSq sqid cqid cq).nvmeQueues.keys = qm.nvmeQueues.keys :=
    Dict.keys_set_of_mem _ hkey
  have hentries : ∀ {k v}, (k, v) ∈ (qm.withoutSq sqid cqid cq).nvmeQueues.entries ↔
      (k = (sqid, cqid) ∧ v = (none, cq)) ∨ (k ≠ (sqid, cqid) ∧ (k, v) ∈ qm.nvmeQueues.entries) :=
    Dict.mem_entries_set
  have hlists : (qm.withoutSq sqid cqid cq).ioSqids
      = if sqid = 0 then qm.ioSqids else qm.ioSqids.erase sqid := rfl
  -- the submission queue is live no more, and the others are what they were
  have hhas : ∀ i, (qm.withoutSq sqid cqid cq).HasSq i ↔ i ≠ sqid ∧ qm.HasSq i := by
    intro i
    constructor
    · rintro ⟨⟨k, v⟩, hm', rfl, hsq⟩
      rcases hentries.mp hm' with ⟨_, rfl⟩ | ⟨hne, hold⟩
      · exact absurd hsq (by simp)
      · refine ⟨fun he => hne ?_, _, hold, rfl, hsq⟩
        exact h.single k (List.mem_map_of_mem hold) (sqid, cqid) hkey he
    · rintro ⟨hne, ⟨k, v⟩, hold, rfl, hsq⟩
      refine ⟨_, hentries.mpr (Or.inr ⟨fun he => hne ?_, hold⟩), rfl, hsq⟩
      rw [he]
  refine ⟨?_, ?_, fun e hm' => ?_, fun i => ?_, ?_, ?_, ?_⟩
  · rw [hkeys]
    exact h.kinds
  · rw [hkeys]
    exact h.single
  · rcases hentries.mp hm' with ⟨_, hv⟩ | ⟨_, hold⟩
    · rw [hv]
      exact h.cqs _ hm
    · exact h.cqs e hold
  · rw [mem_liveIoSqs, hhas, hlists]
    by_cases h0 : sqid = 0
    · rw [if_pos h0, h.sqids, mem_liveIoSqs, h0]
      exact ⟨fun hi => ⟨hi.1, hi.1, hi.2⟩, fun hi => ⟨hi.1, hi.2.2⟩⟩
    · rw [if_neg h0, h.nodup.mem_erase_iff, h.sqids, mem_liveIoSqs]
      exact ⟨fun hi => ⟨hi.2.1, hi.1, hi.2.2⟩, fun hi => ⟨hi.2.1, hi.1, hi.2.2⟩⟩
  · rw [hlists]
    split
    · exact h.nodup
    · exact h.nodup.erase sqid
  · rw [hkeys]
    exact h.cqids
  · rw [hlists]
    have hindex := h.index
    show qm.ioSqidIndex < _
    by_cases h0 : sqid = 0
    · rw [if_pos h0]
      exact hindex
    · -- the list is one shorter, and the index was not on its last place
      have hin : sqid ∈ qm.ioSqids := (h.sqids sqid).mpr (mem_liveIoSqs.mpr ⟨h0, hlive⟩)
      rw [if_neg h0, List.length_erase_of_mem hin]
      rcases hok h0 with hlt | hone
      · omega
      · omega

/-- Whether nothing is left of the pair under a key. -/
def Emptied (qm : QueueMgr SQ CQ) (k : Nat × Nat) : Prop :=
  ∀ v, (k, v) ∈ qm.nvmeQueues.entries → v = (none, none)

theorem emptied_set (d : Dict (Nat × Nat) (Option SQ × Option CQ)) {k k' : Nat × Nat}
    (h : k' = k ∨ ∀ v, (k', v) ∈ d.entries → v = (none, none)) {v : Option SQ × Option CQ}
    (hm : (k', v) ∈ (d.set k (none, none)).entries) : v = (none, none) := by
  rcases Dict.mem_entries_set.mp hm with ⟨_, hv⟩ | ⟨hne, hold⟩
  · exact hv
  · exact h.elim (fun he => absurd he hne) fun h => h v hold

/-- What `remove_cq` does while it comes to some of the pairs. -/
structure CqRemoved (cqid : Nat) (items : List ((Nat × Nat) × (Option SQ × Option CQ)))
    (qm qm' : QueueMgr SQ CQ) : Prop where
  sqids : qm'.ioSqids = qm.ioSqids
  index : qm'.ioSqidIndex = qm.ioSqidIndex
  kept : ∀ k v, k.2 ≠ cqid → ((k, v) ∈ qm'.nvmeQueues.entries ↔ (k, v) ∈ qm.nvmeQueues.entries)
  emptied : ∀ k, k.2 = cqid → k ∈ items.map Prod.fst ∨ qm.Emptied k → qm'.Emptied k
  others : ∀ c, c = 0 ∨ c ≠ cqid → qm'.ioCqids.count c = qm.ioCqids.count c
  unlisted : cqid ≠ 0 → qm'.ioCqids.count cqid + items.countP (fun e => e.1.2 = cqid)
    = qm.ioCqids.count cqid

/-- The pair at hand, and then the rest. -/
theorem CqRemoved.cons {cqid sqid : Nat} {v : Option SQ × Option CQ} {ioCqids : List Nat}
    {items : List ((Nat × Nat) × (Option SQ × Option CQ))}
    (hrest : CqRemoved cqid items
      { qm with nvmeQueues := qm.nvmeQueues.set (sqid, cqid) (none, none), ioCqids } qm')
    (hothers : ∀ c, c = 0 ∨ c ≠ cqid → ioCqids.count c = qm.ioCqids.count c)
    (hids : cqid ≠ 0 → ioCqids.count cqid + 1 = qm.ioCqids.count cqid) :
    CqRemoved cqid (((sqid, cqid), v) :: items) qm qm' where
  sqids := hrest.sqids
  index := hrest.index
  kept k v hk := by
    have hne : k ≠ (sqid, cqid) := fun he => hk (congrArg Prod.snd he)
    rw [hrest.kept k v hk, Dict.mem_entries_set]
    exact ⟨fun h => h.elim (fun h => absurd h.1 hne) fun h => h.2, fun h => Or.inr ⟨hne, h⟩⟩
  emptied k hk he := by
    refine hrest.emptied k hk ?_
    rcases he with hin | hold
    · rcases List.mem_cons.mp hin with he | hin
      · exact Or.inr fun v hm => emptied_set qm.nvmeQueues (Or.inl he) hm
      · exact Or.inl hin
    · exact Or.inr fun v hm => emptied_set qm.nvmeQueues (Or.inr hold) hm
  others c hc := (hrest.others c hc).trans (hothers c hc)
  unlisted h0 := by
    -- one pair more with the queue, and one entry less in the list
    have hone : ((((sqid, cqid), v) :: items).countP fun e => e.1.2 = cqid)
        = (items.countP fun e => e.1.2 = cqid) + 1 :=
      List.countP_cons_of_pos (decide_eq_true rfl)
    rw [hone, ← Nat.add_assoc, hrest.unlisted h0]
    exact hids h0

/-- The loop of `remove_cq` passes over the other pairs. -/
theorem removeCqLoop_skip {cqid : Nat} {rest : List ((Nat × Nat) × (Option SQ × Option CQ))} :
    ∀ {items : List ((Nat × Nat) × (Option SQ × Option CQ))} {qm : QueueMgr SQ CQ},
      (∀ e ∈ items, e.1.2 ≠ cqid) →
      removeCqLoop cqid (items ++ rest) qm = removeCqLoop cqid rest qm := by
  intro items
  induction items with
  | nil => exact fun _ => rfl
  | cons e items ih =>
      intro qm h
      obtain ⟨⟨i, c⟩, sq, cq⟩ := e
      rw [List.cons_append, removeCqLoop.eq_def]
      dsimp only
      rw [if_neg (h _ List.mem_cons_self)]
      exact ih fun e he => h e (List.mem_cons_of_mem _ he)

/-- **`remove_cq`** of a listed queue that is in one pair, and has lost its submission queue. -/
theorem removeCq_single {sqid cqid : Nat} {cq : Option CQ}
    {before after : List ((Nat × Nat) × (Option SQ × Option CQ))}
    (hsplit : qm.nvmeQueues.entries = before ++ ((sqid, cqid), (none, cq)) :: after)
    (hothers : ∀ e ∈ before ++ after, e.1.2 ≠ cqid ∧ e.2.2.isSome) (h0 : cqid ≠ 0)
    (hlisted : cqid ∈ qm.ioCqids) :
    ∃ qm', qm.removeCq cqid = .ok qm' ∧ qm'.nvmeQueues.entries = before ++ after
      ∧ qm'.ioSqids = qm.ioSqids ∧ qm'.ioCqids = qm.ioCqids.erase cqid := by
  have hrest : ∀ qm : QueueMgr SQ CQ, removeCqLoop cqid after qm = .ok qm := by
    intro qm
    have hskip := @removeCqLoop_skip SQ CQ cqid [] after qm
      fun e he => (hothers e (List.mem_append_right _ he)).1
    rw [List.append_nil] at hskip
    exact hskip
  -- the loop empties the one pair and passes the others over
  have hloop : removeCqLoop cqid qm.nvmeQueues.entries qm = .ok { qm with
      nvmeQueues := qm.nvmeQueues.set (sqid, cqid) (none, none)
      ioCqids := qm.ioCqids.erase cqid } := by
    rw [hsplit, removeCqLoop_skip fun e he => (hothers e (List.mem_append_left _ he)).1,
      removeCqLoop.eq_def]
    dsimp only
    rw [if_pos rfl, if_neg h0, if_pos hlisted, hrest]
  have hremoved : qm.removeCq cqid = .ok { qm with
      nvmeQueues := (qm.nvmeQueues.set (sqid, cqid) (none, none)).filter
        fun e => e.2.1.isSome || e.2.2.isSome
      ioCqids := qm.ioCqids.erase cqid } := by
    unfold removeCq
    rw [hloop]
    rfl
  refine ⟨_, hremoved, ?_, rfl, rfl⟩
  have hkeep : ∀ e ∈ before ++ after, (e.2.1.isSome || e.2.2.isSome) = true := by
    intro e he
    rw [(hothers e he).2, Bool.or_true]
  show (qm.nvmeQueues.set (sqid, cqid) (none, none)).entries.filter _ = _
  rw [Dict.entries_set_append hsplit, List.filter_append, List.filter_cons_of_neg (by simp),
    ← List.filter_append, List.filter_eq_self.mpr hkeep]

/-- **The loop of `remove_cq`** empties the pairs it comes to, and unlists each of them once. -/
theorem removeCqLoop_spec {cqid : Nat} :
    ∀ {items : List ((Nat × Nat) × (Option SQ × Option CQ))} {qm qm' : QueueMgr SQ CQ},
      removeCqLoop cqid items qm = .ok qm' → CqRemoved cqid items qm qm' := by
  intro items
  induction items with
  | nil =>
      intro qm qm' h
      rw [← Except.ok.inj h]
      exact ⟨rfl, rfl, fun _ _ _ => Iff.rfl, fun _ _ hk => hk.elim (fun hk => absurd hk (by simp)) id,
        fun _ _ => rfl, fun _ => rfl⟩
  | cons e items ih =>
      intro qm qm' h
      obtain ⟨⟨i, c⟩, sq, cq⟩ := e
      rw [removeCqLoop.eq_def] at h
      dsimp only at h
      by_cases hc : c = cqid
      · subst hc
        rw [if_pos rfl] at h
        cases sq with
        -- a pair that still has its submission queue stops the loop
        | some q => exact absurd h (by simp)
        | none =>
            dsimp only at h
            by_cases h0 : c = 0
            · rw [if_pos h0] at h
              exact (ih h).cons (fun _ _ => rfl) fun hne => absurd h0 hne
            · rw [if_neg h0] at h
              obtain ⟨hin, h⟩ : c ∈ qm.ioCqids ∧ _ := by
                by_cases hin : c ∈ qm.ioCqids
                · rw [if_pos hin] at h
                  exact ⟨hin, h⟩
                · rw [if_neg hin] at h
                  exact absurd h (by simp)
              refine (ih h).cons (fun d hd => List.count_erase_of_ne ?_) fun _ => ?_
              · rintro rfl
                exact hd.elim h0 fun hne => hne rfl
              · have hpos := List.count_pos_iff.mpr hin
                rw [List.count_erase_self]
                omega
      · -- another completion queue: the pair is left as it is
        rw [if_neg hc] at h
        have hrest := ih h
        refine ⟨hrest.sqids, hrest.index, hrest.kept, fun k hk he => hrest.emptied k hk ?_,
          hrest.others, fun h0 => ?_⟩
        · refine he.imp_left fun hin => ?_
          rcases List.mem_cons.mp hin with he | hin
          · rw [he] at hk
            exact absurd hk hc
          · exact hin
        · have hnone : ((((i, c), sq, cq) :: items).countP fun e => e.1.2 = cqid)
              = items.countP fun e => e.1.2 = cqid :=
            List.countP_cons_of_neg (by simpa using hc)
          rw [hnone]
          exact hrest.unlisted h0

/-- **`remove_cq`** drops the pairs of its queue and no others. -/
theorem Inv.removeCq_spec (h : Inv qm) {cqid : Nat} (hq : qm.removeCq cqid = .ok qm') :
    qm'.ioSqids = qm.ioSqids ∧ qm'.ioSqidIndex = qm.ioSqidIndex
      ∧ (∀ k v, (k, v) ∈ qm'.nvmeQueues.entries ↔ k.2 ≠ cqid ∧ (k, v) ∈ qm.nvmeQueues.entries)
      ∧ (∀ c, c = 0 ∨ c ≠ cqid → qm'.ioCqids.count c = qm.ioCqids.count c)
      ∧ (cqid ≠ 0 → qm'.ioCqids.count cqid = 0) := by
  unfold removeCq at hq
  cases hloop : removeCqLoop cqid qm.nvmeQueues.entries qm with
  | error e =>
      rw [hloop] at hq
      exact absurd hq (by simp [bind, Except.bind])
  | ok qm₁ =>
      have hspec := removeCqLoop_spec hloop
      rw [hloop] at hq
      have hqm' := (Except.ok.inj hq).symm
      subst hqm'
      refine ⟨hspec.sqids, hspec.index, fun k v => ?_, hspec.others, fun h0 => ?_⟩
      · show _ ∈ qm₁.nvmeQueues.entries.filter _ ↔ _
        rw [List.mem_filter]
        constructor
        · -- a pair with that completion queue was emptied by the loop
          rintro ⟨hm, hleft⟩
          by_cases hk : k.2 = cqid
          · have hin : k ∈ qm.nvmeQueues.entries.map Prod.fst ∨ qm.Emptied k := by
              by_cases hin : k ∈ qm.nvmeQueues.keys
              · exact Or.inl hin
              · exact Or.inr fun v hm => absurd (Dict.mem_keys.mpr ⟨v, hm⟩) hin
            rw [hspec.emptied k hk hin v hm] at hleft
            exact absurd hleft (by simp)
          · exact ⟨hk, (hspec.kept k v hk).mp hm⟩
        · rintro ⟨hk, hm⟩
          refine ⟨(hspec.kept k v hk).mpr hm, ?_⟩
          rw [h.cqs _ hm, Bool.or_true]
      · -- the list loses one for each pair with it, which is as many as it had
        have hall := hspec.unlisted h0
        have hkeys : (qm.nvmeQueues.keys.countP fun k => k.2 = cqid)
            = qm.nvmeQueues.entries.countP fun e => e.1.2 = cqid := List.countP_map
        rw [h.cqids, if_neg h0, hkeys] at hall
        show qm₁.ioCqids.count cqid = 0
        omega

theorem Inv.removeCq (h : Inv qm) {cqid : Nat}
    (hdead : ∀ e ∈ qm.nvmeQueues.entries, e.1.2 = cqid → e.2.1.isNone)
    (hq : qm.removeCq cqid = .ok qm') : Inv qm' := by
  obtain ⟨hsqids, hindex, hentries, hothers, hgone⟩ := h.removeCq_spec hq
  have hkeys : ∀ k, k ∈ qm'.nvmeQueues.keys ↔ k.2 ≠ cqid ∧ k ∈ qm.nvmeQueues.keys := by
    intro k
    simp only [Dict.mem_keys, hentries, exists_and_left]
  -- the pairs that go have no submission queue left
  have hhas : ∀ i, qm'.HasSq i ↔ qm.HasSq i := by
    intro i
    constructor
    · rintro ⟨e, hm, hi, hsq⟩
      exact ⟨e, ((hentries _ _).mp hm).2, hi, hsq⟩
    · rintro ⟨e, hm, hi, hsq⟩
      refine ⟨e, (hentries _ _).mpr ⟨fun hc => ?_, hm⟩, hi, hsq⟩
      have hnone := hdead e hm hc
      rw [Option.isNone_iff_eq_none.mp hnone] at hsq
      exact absurd hsq (by simp)
  refine ⟨fun k hk => h.kinds k ((hkeys k).mp hk).2,
    fun k hk k' hk' => h.single k ((hkeys k).mp hk).2 k' ((hkeys k').mp hk').2,
    fun e hm => h.cqs e ((hentries _ _).mp hm).2, fun i => ?_, hsqids ▸ h.nodup, fun c => ?_, ?_⟩
  · rw [hsqids, h.sqids, mem_liveIoSqs, mem_liveIoSqs, hhas]
  · -- the keys that stay are counted as before
    have hperm : qm'.nvmeQueues.keys.Perm (qm.nvmeQueues.keys.filter fun k => k.2 ≠ cqid) := by
      refine (List.perm_ext_iff_of_nodup qm'.nvmeQueues.nodup (qm.nvmeQueues.nodup.filter _)).mpr ?_
      intro k
      rw [List.mem_filter, decide_eq_true_eq, and_comm]
      exact hkeys k
    rw [hperm.countP_eq, List.countP_filter]
    by_cases hc : c = 0
    · rw [hothers c (Or.inl hc), h.cqids, if_pos hc, if_pos hc]
    · rw [if_neg hc]
      by_cases hcq : c = cqid
      · subst hcq
        rw [hgone hc, eq_comm, List.countP_eq_zero]
        intro k _
        simp
      · rw [hothers c (Or.inr hcq), h.cqids, if_neg hc]
        refine List.countP_congr fun k _ => ?_
        simp only [decide_eq_true_eq, Bool.and_eq_true]
        exact ⟨fun hk => ⟨hk, hk ▸ hcq⟩, fun hk => hk.1⟩
  · rw [hsqids, hindex]
    exact h.index

theorem Inv.nextIosqId (h : Inv qm) {sqid : Option Nat} (hq : qm.nextIosqId = .ok (sqid, qm')) :
    Inv qm' := by
  by_cases hnil : qm.ioSqids = []
  · have hsame : qm.nextIosqId = .ok (none, qm) := if_pos hnil
    rw [hsame] at hq
    injection hq with hq
    injection hq with _ hq
    exact hq ▸ h
  · have hlt := h.index_lt hnil
    obtain ⟨_, index, hindex, _, hnext, _⟩ := nextIosqId_turns hlt
    rw [hnext] at hq
    injection hq with hq
    injection hq with _ hq
    rw [← hq]
    exact ⟨h.kinds, h.single, h.cqs, h.sqids, h.nodup, h.cqids, lt_max_of_lt_right hindex⟩

/-- **One step keeps the invariant**, if it is orderly. -/
theorem inv_step {a : QueueMgrOp SQ CQ} (h : Inv qm) (hok : qm.Orderly a)
    (hs : qm.step a = some qm') : Inv qm' := by
  cases a with
  | add sqid sq cqid cq =>
      rw [← Option.some.inj hs]
      exact h.add hok
  | removeSq sqid =>
      obtain ⟨hlive, hs⟩ := Option.ite_none_right_eq_some.mp hs
      exact h.removeSq hlive hok (toOption_eq_some hs)
  | removeCq cqid =>
      obtain ⟨⟨_, hdead⟩, hs⟩ := Option.ite_none_right_eq_some.mp hs
      exact h.removeCq hdead (toOption_eq_some hs)
  | nextIosqId =>
      obtain ⟨⟨sqid, qm''⟩, hq, rfl⟩ := Option.map_eq_some_iff.mp hs
      exact h.nextIosqId (toOption_eq_some hq)

theorem inv_reachable (h : (machine SQ CQ).ReachableBy Orderly qm) : Inv qm :=
  Machine.ReachableBy.invariant (I := Inv) (fun _ h0 => h0 ▸ inv_init)
    (fun _ _ _ _ hi hok hs => inv_step hi hok hs) h

/--
**Orderly managers offer live queues.** In every orderly run the lists are those of the
live queues, the next id is of a live one whose pair is whole, and every queue gets its turn.

`remove_sq` shortens the list and leaves the index, so the index may not be at the end of it.
And `add` makes the lists anew from all keys, also of pairs that have lost one of their queues.
-/
theorem offers_of_orderly (h : (machine SQ CQ).ReachableBy Orderly qm) : Offers qm :=
  (inv_reachable h).offers

/-- Two queue pairs, one of them removed in its turn. -/
theorem offers_of_orderly_removed :
    ∃ qm, (machine Nat Nat).runBy Orderly {}
        [.add 1 11 1 21, .add 2 12 2 22, .removeSq 1, .removeCq 1, .nextIosqId] = some qm
      ∧ Offers qm :=
  ⟨_, rfl, offers_of_orderly ((Machine.ReachableBy.init rfl).run
    [.add 1 11 1 21, .add 2 12 2 22, .removeSq 1, .removeCq 1, .nextIosqId] rfl)⟩

/-- The queue whose turn it is was the last of two, and was removed. -/
theorem not_offers_of_last_removed :
    ¬ ∀ qm : QueueMgr Nat Nat, (machine Nat Nat).Reachable qm → Offers qm := by
  intro hall
  obtain ⟨sqid, qm', hnext, _⟩ := (hall _ ((Machine.Reachable.start rfl).run
    [.add 1 11 1 21, .add 2 12 2 22, .nextIosqId, .removeSq 1] rfl)).next
  have herror : (.error (.indexError "list index out of range") : Except Exc _) = .ok (sqid, qm') :=
    hnext
  injection herror

end QueueMgr

end LoneNvme
