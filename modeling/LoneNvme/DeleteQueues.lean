import LoneNvme.LiveQueues
import LoneNvme.NVSimDevice

/-!
# Deleting all IO queues

`delete_io_queues` goes over the pairs of the manager twice, and deletes the submission
queue of each, then the completion queue of each. It returns exactly if no two pairs have a
queue in common: a queue of two pairs is deleted twice, and the device rejects the second time.

Of the device no more is modelled than the queues it has: it takes a queue away when told to,
and rejects the command if the queue is not there. Each turn of the first loop takes one
submission queue, each turn of the second one completion queue, and the commands that were sent
are logged, so that each queue is seen to be deleted once.
-/

namespace LoneNvme

open Lib

/-- The queues that exist on a device, and as history the commands it was sent. -/
structure QueueDevice where
  sqs : Finset Nat
  cqs : Finset Nat
  sent : List Generic := []

namespace QueueDevice

/-- Whether the command deletes this submission queue. -/
def deletesSq (sqid : Nat) (command : Generic) : Bool :=
  command.OPC = DeleteIOSubmissionQueue.OPC ∧ (DeleteIOSubmissionQueue.QID command).toNat = sqid

/-- Whether the command deletes this completion queue. -/
def deletesCq (cqid : Nat) (command : Generic) : Bool :=
  command.OPC = DeleteIOCompletionQueue.OPC ∧ (DeleteIOCompletionQueue.QID command).toNat = cqid

/-- `sync_cmd`, on a device that deletes the queues it has and rejects everything else. -/
def syncCmd (d : QueueDevice) (command : Generic) : Except Exc QueueDevice :=
  let sqid := (DeleteIOSubmissionQueue.QID command).toNat
  let cqid := (DeleteIOCompletionQueue.QID command).toNat
  if command.OPC = DeleteIOSubmissionQueue.OPC ∧ sqid ∈ d.sqs then
    .ok { d with sqs := d.sqs.erase sqid, sent := d.sent ++ [command] }
  else if command.OPC = DeleteIOCompletionQueue.OPC ∧ cqid ∈ d.cqs then
    .ok { d with cqs := d.cqs.erase cqid, sent := d.sent ++ [command] }
  else
    .error (.custom "NVMeStatusCodeException" "")

variable {d d' : QueueDevice} {qid : Nat}

theorem opc_ne : DeleteIOSubmissionQueue.OPC ≠ DeleteIOCompletionQueue.OPC := by decide

theorem syncCmd_deleteSq (hqid : qid < 2 ^ 16) :
    d.syncCmd (deleteCmd DeleteIOSubmissionQueue.OPC qid) = .ok d' ↔ qid ∈ d.sqs
      ∧ d' = { d with
        sqs := d.sqs.erase qid, sent := d.sent ++ [deleteCmd DeleteIOSubmissionQueue.OPC qid] } := by
  unfold syncCmd DeleteIOSubmissionQueue.QID
  dsimp only
  rw [toNat_qid_deleteCmd hqid]
  by_cases hin : qid ∈ d.sqs
  · rw [if_pos ⟨rfl, hin⟩]
    exact ⟨fun h => ⟨hin, (Except.ok.inj h).symm⟩, fun h => by rw [h.2]⟩
  · rw [if_neg (fun h => hin h.2), if_neg (fun h => opc_ne h.1)]
    exact ⟨fun h => absurd h (by simp), fun h => absurd h.1 hin⟩

theorem syncCmd_deleteCq (hqid : qid < 2 ^ 16) :
    d.syncCmd (deleteCmd DeleteIOCompletionQueue.OPC qid) = .ok d' ↔ qid ∈ d.cqs
      ∧ d' = { d with
        cqs := d.cqs.erase qid, sent := d.sent ++ [deleteCmd DeleteIOCompletionQueue.OPC qid] } := by
  unfold syncCmd DeleteIOCompletionQueue.QID
  dsimp only
  rw [toNat_qid_deleteCmd hqid, if_neg (fun h => opc_ne h.1.symm)]
  by_cases hin : qid ∈ d.cqs
  · rw [if_pos ⟨rfl, hin⟩]
    exact ⟨fun h => ⟨hin, (Except.ok.inj h).symm⟩, fun h => by rw [h.2]⟩
  · rw [if_neg (fun h => hin h.2)]
    exact ⟨fun h => absurd h (by simp), fun h => absurd h.1 hin⟩

end QueueDevice

namespace QueueMgr

variable {SQ CQ : Type}

/-- The loop over the submission queues, for the keys still to come. -/
def deleteSqs : List (Nat × Nat) → QueueMgr SQ CQ → QueueDevice →
    Except Exc (QueueMgr SQ CQ × QueueDevice)
  | [], qm, d => .ok (qm, d)
  | k :: keys, qm, d => do
      if k = (0, 0) then
        deleteSqs keys qm d
      else
        let d ← d.syncCmd (deleteCmd DeleteIOSubmissionQueue.OPC k.1)
        let qm ← qm.removeSq k.1
        deleteSqs keys qm d

/-- The loop over the completion queues. -/
def deleteCqs : List (Nat × Nat) → QueueMgr SQ CQ → QueueDevice →
    Except Exc (QueueMgr SQ CQ × QueueDevice)
  | [], qm, d => .ok (qm, d)
  | k :: keys, qm, d => do
      if k = (0, 0) then
        deleteCqs keys qm d
      else
        let d ← d.syncCmd (deleteCmd DeleteIOCompletionQueue.OPC k.2)
        let qm ← qm.removeCq k.2
        deleteCqs keys qm d

/-- `delete_io_queues`. `remove_sq` keeps the keys, so the first loop sees those at its start. -/
def deleteIoQueues (qm : QueueMgr SQ CQ) (d : QueueDevice) :
    Except Exc (QueueMgr SQ CQ × QueueDevice) := do
  let (qm, d) ← deleteSqs qm.nvmeQueues.keys qm d
  deleteCqs qm.nvmeQueues.keys qm d

/-- The keys of the IO pairs. -/
def ioKeys (qm : QueueMgr SQ CQ) : List (Nat × Nat) := qm.nvmeQueues.keys.filter fun k => k ≠ (0, 0)

/-- An admin pair and whole IO pairs, with ids of 16 bits, listed as `add` lists them. -/
structure Whole (qm : QueueMgr SQ CQ) : Prop where
  admin : (0, 0) ∈ qm.nvmeQueues.keys
  ids : ∀ k ∈ qm.ioKeys, k.1 ≠ 0 ∧ k.2 ≠ 0 ∧ k.1 < 2 ^ 16 ∧ k.2 < 2 ^ 16
  queues : ∀ e ∈ qm.nvmeQueues.entries, e.2.1.isSome ∧ e.2.2.isSome
  ioSqids : qm.ioSqids = qm.ioKeys.map Prod.fst
  ioCqids : qm.ioCqids = qm.ioKeys.map Prod.snd

/-- A device with these queues. -/
def onDevice (qm : QueueMgr SQ CQ) : QueueDevice where
  sqs := (qm.nvmeQueues.keys.map Prod.fst).toFinset
  cqs := (qm.nvmeQueues.keys.map Prod.snd).toFinset

open QueueDevice

/-- Every IO queue was deleted once, submission queues before their completion queues. -/
structure Deleted (qm qm' : QueueMgr SQ CQ) (sent : List Generic) : Prop where
  sqs : ∀ sqid, sent.countP (deletesSq sqid) = if sqid ∈ qm.ioKeys.map Prod.fst then 1 else 0
  cqs : ∀ cqid, sent.countP (deletesCq cqid) = if cqid ∈ qm.ioKeys.map Prod.snd then 1 else 0
  only : ∀ command ∈ sent,
    command.OPC = DeleteIOSubmissionQueue.OPC ∨ command.OPC = DeleteIOCompletionQueue.OPC
  order : ∀ k ∈ qm.ioKeys, sent.findIdx (deletesSq k.1) < sent.findIdx (deletesCq k.2)
  queues : qm'.nvmeQueues.entries = qm.nvmeQueues.entries.filter fun e => e.1 = (0, 0)
  ioSqids : qm'.ioSqids = []
  ioCqids : qm'.ioCqids = []

/-- `delete_io_queues` returns, and has deleted every IO queue. -/
def DeletesAll (qm : QueueMgr SQ CQ) : Prop :=
  ∃ qm' d', qm.deleteIoQueues qm.onDevice = .ok (qm', d') ∧ Deleted qm qm' d'.sent

/-! ## The loop over the submission queues -/

variable {qm qm' : QueueMgr SQ CQ} {d d' : QueueDevice}

/-- The keys of IO pairs among some items. -/
def ioOf (items : List ((Nat × Nat) × (Option SQ × Option CQ))) : List (Nat × Nat) :=
  (items.map Prod.fst).filter fun k => k ≠ (0, 0)

theorem ioOf_append (items items' : List ((Nat × Nat) × (Option SQ × Option CQ))) :
    ioOf (items ++ items') = ioOf items ++ ioOf items' := by
  unfold ioOf
  rw [List.map_append, List.filter_append]

theorem ioOf_cons_admin {e : (Nat × Nat) × (Option SQ × Option CQ)}
    {items : List ((Nat × Nat) × (Option SQ × Option CQ))} (he : e.1 = (0, 0)) :
    ioOf (e :: items) = ioOf items := by
  unfold ioOf
  rw [List.map_cons, List.filter_cons_of_neg (by simpa using he)]

theorem ioOf_cons {e : (Nat × Nat) × (Option SQ × Option CQ)}
    {items : List ((Nat × Nat) × (Option SQ × Option CQ))} (he : e.1 ≠ (0, 0)) :
    ioOf (e :: items) = e.1 :: ioOf items := by
  unfold ioOf
  rw [List.map_cons, List.filter_cons_of_pos (by simpa using he)]

theorem mem_ioOf {e : (Nat × Nat) × (Option SQ × Option CQ)}
    {items : List ((Nat × Nat) × (Option SQ × Option CQ))} (hm : e ∈ items) (he : e.1 ≠ (0, 0)) :
    e.1 ∈ ioOf items :=
  List.mem_filter.mpr ⟨List.mem_map_of_mem hm, decide_eq_true he⟩

/-- What the first loop leaves of a pair. -/
def withoutItsSq (e : (Nat × Nat) × (Option SQ × Option CQ)) :
    (Nat × Nat) × (Option SQ × Option CQ) :=
  if e.1 = (0, 0) then e else (e.1, none, e.2.2)

theorem withoutItsSq_key (e : (Nat × Nat) × (Option SQ × Option CQ)) : (withoutItsSq e).1 = e.1 := by
  unfold withoutItsSq
  split
  · rfl
  · rfl

theorem withoutItsSq_cq (e : (Nat × Nat) × (Option SQ × Option CQ)) :
    (withoutItsSq e).2.2 = e.2.2 := by
  unfold withoutItsSq
  split
  · rfl
  · rfl

theorem ioOf_withoutItsSq (items : List ((Nat × Nat) × (Option SQ × Option CQ))) :
    ioOf (items.map withoutItsSq) = ioOf items := by
  unfold ioOf
  rw [List.map_map]
  exact congrArg _ (List.map_congr_left fun e _ => withoutItsSq_key e)

/-- A queue of no pair is the queue of no entry, the admin queue being none of it. -/
theorem ne_of_notMem_ioOf {items : List ((Nat × Nat) × (Option SQ × Option CQ))}
    {f : Nat × Nat → Nat} (hadmin : f (0, 0) = 0) {n : Nat} (hn : n ≠ 0)
    (hnot : n ∉ (ioOf items).map f) : ∀ x ∈ items, f x.1 ≠ n := by
  intro x hx hsame
  have hio : x.1 ≠ (0, 0) := by
    intro h0
    rw [h0, hadmin] at hsame
    exact hn hsame.symm
  exact hnot (hsame ▸ List.mem_map_of_mem (mem_ioOf hx hio))

theorem deleteSqs_admin {k : Nat × Nat} {keys : List (Nat × Nat)} (hk : k = (0, 0)) :
    deleteSqs (k :: keys) qm d = deleteSqs keys qm d := by
  rw [deleteSqs, if_pos hk]

theorem deleteSqs_step {k : Nat × Nat} {keys : List (Nat × Nat)} (hk : k ≠ (0, 0))
    {r : QueueMgr SQ CQ × QueueDevice} : deleteSqs (k :: keys) qm d = .ok r
      ↔ ∃ d₁ qm₁, d.syncCmd (deleteCmd DeleteIOSubmissionQueue.OPC k.1) = .ok d₁
        ∧ qm.removeSq k.1 = .ok qm₁ ∧ deleteSqs keys qm₁ d₁ = .ok r := by
  rw [deleteSqs, if_neg hk]
  simp only [bind_eq_ok_iff, exists_and_left]

/-- **The first loop** deletes the submission queues, if each is in one pair. -/
theorem deleteSqs_ok {gone todo : List ((Nat × Nat) × (Option SQ × Option CQ))}
    (hentries : qm.nvmeQueues.entries = gone.map withoutItsSq ++ todo)
    (hids : ∀ k ∈ ioOf todo, k.1 ≠ 0 ∧ k.1 < 2 ^ 16)
    (hdistinct : ((ioOf (gone ++ todo)).map Prod.fst).Nodup)
    (hioSqids : qm.ioSqids = (ioOf todo).map Prod.fst)
    (hdevice : ∀ k ∈ ioOf todo, k.1 ∈ d.sqs) :
    ∃ qm' d', deleteSqs (todo.map Prod.fst) qm d = .ok (qm', d')
      ∧ qm'.nvmeQueues.entries = (gone ++ todo).map withoutItsSq
      ∧ qm'.ioSqids = [] ∧ qm'.ioCqids = qm.ioCqids ∧ d'.cqs = d.cqs
      ∧ d'.sent = d.sent
        ++ (ioOf todo).map fun k => deleteCmd DeleteIOSubmissionQueue.OPC k.1 := by
  induction todo generalizing gone qm d with
  | nil => exact ⟨qm, d, rfl, by rw [hentries, List.append_nil, List.append_nil], hioSqids, rfl, rfl,
      (List.append_nil _).symm⟩
  | cons e todo ih =>
      have hmove : gone ++ e :: todo = (gone ++ [e]) ++ todo := by
        rw [List.append_assoc, List.singleton_append]
      rw [List.map_cons]
      by_cases he : e.1 = (0, 0)
      · rw [deleteSqs_admin he]
        rw [ioOf_cons_admin he] at hids hioSqids hdevice ⊢
        rw [hmove] at hdistinct ⊢
        refine ih ?_ hids hdistinct hioSqids hdevice
        rw [hentries, List.map_append, List.map_singleton, List.append_assoc, List.singleton_append,
          withoutItsSq, if_pos he]
      · rw [ioOf_cons he] at hids hioSqids hdevice ⊢
        obtain ⟨hne, hlt⟩ := hids e.1 List.mem_cons_self
        -- no other pair has the queue
        have hnot : e.1.1 ∉ (ioOf gone ++ ioOf todo).map Prod.fst := by
          rw [ioOf_append, ioOf_cons he, List.map_append, List.map_cons, List.nodup_middle,
            ← List.map_append] at hdistinct
          exact hdistinct.notMem
        have hothers : ∀ x ∈ gone.map withoutItsSq ++ todo, x.1.1 ≠ e.1.1 := by
          refine ne_of_notMem_ioOf (f := Prod.fst) rfl hne ?_
          rw [ioOf_append, ioOf_withoutItsSq]
          exact hnot
        have hremoved := removeSq_single hentries hothers
          fun _ => by rw [hioSqids]; exact List.mem_cons_self
        have hrest := @ih (qm.withoutSq e.1.1 e.1.2 e.2.2) { d with
            sqs := d.sqs.erase e.1.1
            sent := d.sent ++ [deleteCmd DeleteIOSubmissionQueue.OPC e.1.1] } (gone ++ [e]) ?_
          (fun k hk => hids k (List.mem_cons_of_mem _ hk)) (hmove ▸ hdistinct) ?_ ?_
        · obtain ⟨qm', d', hok, hleft, hsqids, hcqids, hcqs, hsent⟩ := hrest
          refine ⟨qm', d', (deleteSqs_step he).mpr ⟨_, _,
            (syncCmd_deleteSq hlt).mpr ⟨hdevice _ List.mem_cons_self, rfl⟩, hremoved, hok⟩,
            by rw [hmove]; exact hleft, hsqids, hcqids, hcqs, ?_⟩
          rw [hsent, List.append_assoc, List.singleton_append, List.map_cons]
        · show (qm.nvmeQueues.set e.1 (none, e.2.2)).entries = _
          rw [Dict.entries_set_append hentries, List.map_append, List.map_singleton,
            List.append_assoc, List.singleton_append, withoutItsSq, if_neg he]
        · show (if e.1.1 = 0 then qm.ioSqids else qm.ioSqids.erase e.1.1) = _
          rw [if_neg hne, hioSqids, List.map_cons, List.erase_cons_head]
        · intro k hk
          refine Finset.mem_erase.mpr ⟨fun hsame => hnot ?_, hdevice k (List.mem_cons_of_mem _ hk)⟩
          exact hsame ▸ List.mem_map_of_mem (List.mem_append_right _ hk)

/-- Every queue that the first loop deletes exists then, so it comes to each of them once. -/
theorem distinct_of_deleteSqs {keys : List (Nat × Nat)}
    (hids : ∀ k ∈ keys, k ≠ (0, 0) → k.1 < 2 ^ 16) (h : deleteSqs keys qm d = .ok (qm', d')) :
    ((keys.filter fun k => k ≠ (0, 0)).map Prod.fst).Nodup
      ∧ (∀ k ∈ keys, k ≠ (0, 0) → k.1 ∈ d.sqs) ∧ qm'.nvmeQueues.keys = qm.nvmeQueues.keys := by
  induction keys generalizing qm d with
  | nil =>
      cases h
      exact ⟨List.nodup_nil, fun k hk => absurd hk List.not_mem_nil, rfl⟩
  | cons k keys ih =>
      have hrest : ∀ k ∈ keys, k ≠ (0, 0) → k.1 < 2 ^ 16 :=
        fun k hk => hids k (List.mem_cons_of_mem _ hk)
      by_cases hk : k = (0, 0)
      · rw [deleteSqs_admin hk] at h
        obtain ⟨hnodup, hin, hkeys⟩ := ih hrest h
        rw [List.filter_cons_of_neg (by simpa using hk)]
        exact ⟨hnodup, List.forall_mem_cons.mpr ⟨fun hne => absurd hk hne, hin⟩, hkeys⟩
      · obtain ⟨d₁, qm₁, hd, hq, h⟩ := (deleteSqs_step hk).mp h
        obtain ⟨hmem, rfl⟩ := (syncCmd_deleteSq (hids k List.mem_cons_self hk)).mp hd
        obtain ⟨hnodup, hin, hkeys⟩ := ih hrest h
        rw [List.filter_cons_of_pos (by simpa using hk), List.map_cons, List.nodup_cons]
        refine ⟨⟨fun hagain => ?_, hnodup⟩, List.forall_mem_cons.mpr ⟨fun _ => hmem, fun k' hk' hne =>
          (Finset.mem_erase.mp (hin k' hk' hne)).2⟩, hkeys.trans (removeSq_keys hq)⟩
        -- the device would have rejected the second time
        obtain ⟨k', hk', hsame⟩ := List.mem_map.mp hagain
        obtain ⟨hk', hne⟩ := List.mem_filter.mp hk'
        exact (Finset.mem_erase.mp (hin k' hk' (of_decide_eq_true hne))).1 hsame

/-! ## The loop over the completion queues -/

theorem deleteCqs_admin {k : Nat × Nat} {keys : List (Nat × Nat)} (hk : k = (0, 0)) :
    deleteCqs (k :: keys) qm d = deleteCqs keys qm d := by
  rw [deleteCqs, if_pos hk]

theorem deleteCqs_step {k : Nat × Nat} {keys : List (Nat × Nat)} (hk : k ≠ (0, 0))
    {r : QueueMgr SQ CQ × QueueDevice} : deleteCqs (k :: keys) qm d = .ok r
      ↔ ∃ d₁ qm₁, d.syncCmd (deleteCmd DeleteIOCompletionQueue.OPC k.2) = .ok d₁
        ∧ qm.removeCq k.2 = .ok qm₁ ∧ deleteCqs keys qm₁ d₁ = .ok r := by
  rw [deleteCqs, if_neg hk]
  simp only [bind_eq_ok_iff, exists_and_left]

/-- **The second loop** deletes the completion queues, if each is in one pair. -/
theorem deleteCqs_ok {left todo : List ((Nat × Nat) × (Option SQ × Option CQ))}
    (hentries : qm.nvmeQueues.entries = left ++ todo) (hleft : ∀ e ∈ left, e.1 = (0, 0))
    (hdead : ∀ e ∈ todo, e.1 ≠ (0, 0) → e.2.1 = none) (hcqs : ∀ e ∈ left ++ todo, e.2.2.isSome)
    (hids : ∀ k ∈ ioOf todo, k.2 ≠ 0 ∧ k.2 < 2 ^ 16)
    (hdistinct : ((ioOf todo).map Prod.snd).Nodup) (hioCqids : qm.ioCqids = (ioOf todo).map Prod.snd)
    (hdevice : ∀ k ∈ ioOf todo, k.2 ∈ d.cqs) :
    ∃ qm' d', deleteCqs (todo.map Prod.fst) qm d = .ok (qm', d')
      ∧ qm'.nvmeQueues.entries = left ++ todo.filter (fun e => e.1 = (0, 0))
      ∧ qm'.ioSqids = qm.ioSqids ∧ qm'.ioCqids = []
      ∧ d'.sent = d.sent
        ++ (ioOf todo).map fun k => deleteCmd DeleteIOCompletionQueue.OPC k.2 := by
  induction todo generalizing left qm d with
  | nil => exact ⟨qm, d, rfl, hentries, rfl, hioCqids, (List.append_nil _).symm⟩
  | cons e todo ih =>
      rw [List.map_cons]
      have hdead' : ∀ e ∈ todo, e.1 ≠ (0, 0) → e.2.1 = none :=
        fun e he => hdead e (List.mem_cons_of_mem _ he)
      by_cases he : e.1 = (0, 0)
      · -- the admin pair is passed over, and stays
        have hmove : left ++ e :: todo = (left ++ [e]) ++ todo := by
          rw [List.append_assoc, List.singleton_append]
        rw [deleteCqs_admin he, List.filter_cons_of_pos (by simpa using he)]
        rw [ioOf_cons_admin he] at hids hdistinct hioCqids hdevice ⊢
        rw [hmove] at hentries hcqs
        obtain ⟨qm', d', hok, hrest⟩ := ih hentries (fun x hx => (List.mem_append.mp hx).elim (hleft x)
          fun hx => List.mem_singleton.mp hx ▸ he) hdead' hcqs hids hdistinct hioCqids hdevice
        rw [List.append_assoc, List.singleton_append] at hrest
        exact ⟨qm', d', hok, hrest⟩
      · rw [List.filter_cons_of_neg (by simpa using he)]
        rw [ioOf_cons he] at hids hdistinct hioCqids hdevice ⊢
        rw [List.map_cons, List.nodup_cons] at hdistinct
        obtain ⟨hne, hlt⟩ := hids e.1 List.mem_cons_self
        have hthis : e = ((e.1.1, e.1.2), (none, e.2.2)) := by
          rw [← hdead e List.mem_cons_self he]
        -- no other pair has this completion queue, so `remove_cq` takes out this entry only
        have hothers : ∀ x ∈ left ++ todo, x.1.2 ≠ e.1.2 ∧ x.2.2.isSome := by
          intro x hx
          rcases List.mem_append.mp hx with hl | ht
          · refine ⟨fun hsame => hne ?_, hcqs x (List.mem_append_left _ hl)⟩
            rw [← hsame, hleft x hl]
          · exact ⟨ne_of_notMem_ioOf (f := Prod.snd) rfl hne hdistinct.1 x ht,
              hcqs x (List.mem_append_right _ (List.mem_cons_of_mem _ ht))⟩
        rw [hthis] at hentries
        obtain ⟨qm₁, hremoved, hentries₁, hsqids₁, hcqids₁⟩ := removeCq_single hentries hothers hne
          (by rw [hioCqids]; exact List.mem_cons_self)
        have hcqids₁' : qm₁.ioCqids = (ioOf todo).map Prod.snd := by
          rw [hcqids₁, hioCqids, List.map_cons, List.erase_cons_head]
        obtain ⟨qm', d', hok, hrest, hsqids, hcqids, hsent⟩ := @ih qm₁ { d with
            cqs := d.cqs.erase e.1.2
            sent := d.sent ++ [deleteCmd DeleteIOCompletionQueue.OPC e.1.2] } left hentries₁ hleft
          hdead' (fun x hx => (hothers x hx).2) (fun k hk => hids k (List.mem_cons_of_mem _ hk))
          hdistinct.2 hcqids₁' fun k hk => Finset.mem_erase.mpr
            ⟨fun hsame => hdistinct.1 (hsame ▸ List.mem_map_of_mem hk),
              hdevice k (List.mem_cons_of_mem _ hk)⟩
        refine ⟨qm', d', (deleteCqs_step he).mpr ⟨_, _,
          (syncCmd_deleteCq hlt).mpr ⟨hdevice _ List.mem_cons_self, rfl⟩, hremoved, hok⟩, hrest,
          hsqids.trans hsqids₁, hcqids, ?_⟩
        rw [hsent, List.append_assoc, List.singleton_append, List.map_cons]

/-- Every queue that the second loop deletes exists then. -/
theorem distinct_of_deleteCqs {keys : List (Nat × Nat)}
    (hids : ∀ k ∈ keys, k ≠ (0, 0) → k.2 < 2 ^ 16) (h : deleteCqs keys qm d = .ok (qm', d')) :
    ((keys.filter fun k => k ≠ (0, 0)).map Prod.snd).Nodup
      ∧ ∀ k ∈ keys, k ≠ (0, 0) → k.2 ∈ d.cqs := by
  induction keys generalizing qm d with
  | nil => exact ⟨List.nodup_nil, fun k hk => absurd hk List.not_mem_nil⟩
  | cons k keys ih =>
      have hrest : ∀ k ∈ keys, k ≠ (0, 0) → k.2 < 2 ^ 16 :=
        fun k hk => hids k (List.mem_cons_of_mem _ hk)
      by_cases hk : k = (0, 0)
      · rw [deleteCqs_admin hk] at h
        obtain ⟨hnodup, hin⟩ := ih hrest h
        rw [List.filter_cons_of_neg (by simpa using hk)]
        exact ⟨hnodup, List.forall_mem_cons.mpr ⟨fun hne => absurd hk hne, hin⟩⟩
      · obtain ⟨d₁, qm₁, hd, _, h⟩ := (deleteCqs_step hk).mp h
        obtain ⟨hmem, rfl⟩ := (syncCmd_deleteCq (hids k List.mem_cons_self hk)).mp hd
        obtain ⟨hnodup, hin⟩ := ih hrest h
        rw [List.filter_cons_of_pos (by simpa using hk), List.map_cons, List.nodup_cons]
        refine ⟨⟨fun hagain => ?_, hnodup⟩, List.forall_mem_cons.mpr ⟨fun _ => hmem, fun k' hk' hne =>
          (Finset.mem_erase.mp (hin k' hk' hne)).2⟩⟩
        obtain ⟨k', hk', hsame⟩ := List.mem_map.mp hagain
        obtain ⟨hk', hne⟩ := List.mem_filter.mp hk'
        exact (Finset.mem_erase.mp (hin k' hk' (of_decide_eq_true hne))).1 hsame

/-! ## Both loops -/

/-- The first loop leaves the admin pair alone. -/
theorem filter_withoutItsSq (items : List ((Nat × Nat) × (Option SQ × Option CQ))) :
    (items.map withoutItsSq).filter (fun e => e.1 = (0, 0)) = items.filter fun e => e.1 = (0, 0) := by
  rw [List.filter_map]
  have hsame : ((fun e : (Nat × Nat) × (Option SQ × Option CQ) => decide (e.1 = (0, 0)))
      ∘ withoutItsSq) = fun e => decide (e.1 = (0, 0)) := by
    funext e
    rw [Function.comp_apply, withoutItsSq_key]
  rw [hsame]
  refine (List.map_congr_left fun e he => ?_).trans (List.map_id _)
  exact if_pos (of_decide_eq_true (List.mem_filter.mp he).2)

/-- The commands of both loops. -/
def deletions (keys : List (Nat × Nat)) : List Generic :=
  keys.map (fun k => deleteCmd DeleteIOSubmissionQueue.OPC k.1)
    ++ keys.map fun k => deleteCmd DeleteIOCompletionQueue.OPC k.2

theorem deletesSq_deleteCmd {sqid qid : Nat} (hqid : qid < 2 ^ 16) :
    deletesSq sqid (deleteCmd DeleteIOSubmissionQueue.OPC qid) = decide (qid = sqid) := by
  unfold deletesSq DeleteIOSubmissionQueue.QID
  rw [toNat_qid_deleteCmd hqid]
  exact decide_eq_decide.mpr ⟨fun h => h.2, fun h => ⟨rfl, h⟩⟩

theorem deletesCq_deleteCmd {cqid qid : Nat} (hqid : qid < 2 ^ 16) :
    deletesCq cqid (deleteCmd DeleteIOCompletionQueue.OPC qid) = decide (qid = cqid) := by
  unfold deletesCq DeleteIOCompletionQueue.QID
  rw [toNat_qid_deleteCmd hqid]
  exact decide_eq_decide.mpr ⟨fun h => h.2, fun h => ⟨rfl, h⟩⟩

theorem deletesSq_other {sqid qid : Nat} :
    deletesSq sqid (deleteCmd DeleteIOCompletionQueue.OPC qid) = false :=
  decide_eq_false fun h => opc_ne h.1.symm

theorem deletesCq_other {cqid qid : Nat} :
    deletesCq cqid (deleteCmd DeleteIOSubmissionQueue.OPC qid) = false :=
  decide_eq_false fun h => opc_ne h.1

variable {keys : List (Nat × Nat)}

/-- One command for each submission queue. -/
theorem countP_deletesSq (hids : ∀ k ∈ keys, k.1 < 2 ^ 16) (hnodup : (keys.map Prod.fst).Nodup)
    (sqid : Nat) :
    (deletions keys).countP (deletesSq sqid) = if sqid ∈ keys.map Prod.fst then 1 else 0 := by
  have hsqs : (keys.map fun k => deleteCmd DeleteIOSubmissionQueue.OPC k.1).countP (deletesSq sqid)
      = (keys.map Prod.fst).count sqid := by
    rw [List.countP_map, List.count, List.countP_map]
    refine List.countP_congr fun k hk => ?_
    simp only [Function.comp_apply, deletesSq_deleteCmd (hids k hk), decide_eq_true_eq, beq_iff_eq]
  have hcqs : (keys.map fun k => deleteCmd DeleteIOCompletionQueue.OPC k.2).countP (deletesSq sqid)
      = 0 := by
    rw [List.countP_map, List.countP_eq_zero]
    intro k _
    simp only [Function.comp_apply, deletesSq_other, Bool.false_eq_true, not_false_eq_true]
  rw [deletions, List.countP_append, hsqs, hcqs, Nat.add_zero, hnodup.count]

/-- One command for each completion queue. -/
theorem countP_deletesCq (hids : ∀ k ∈ keys, k.2 < 2 ^ 16) (hnodup : (keys.map Prod.snd).Nodup)
    (cqid : Nat) :
    (deletions keys).countP (deletesCq cqid) = if cqid ∈ keys.map Prod.snd then 1 else 0 := by
  have hsqs : (keys.map fun k => deleteCmd DeleteIOSubmissionQueue.OPC k.1).countP (deletesCq cqid)
      = 0 := by
    rw [List.countP_map, List.countP_eq_zero]
    intro k _
    simp only [Function.comp_apply, deletesCq_other, Bool.false_eq_true, not_false_eq_true]
  have hcqs : (keys.map fun k => deleteCmd DeleteIOCompletionQueue.OPC k.2).countP (deletesCq cqid)
      = (keys.map Prod.snd).count cqid := by
    rw [List.countP_map, List.count, List.countP_map]
    refine List.countP_congr fun k hk => ?_
    simp only [Function.comp_apply, deletesCq_deleteCmd (hids k hk), decide_eq_true_eq, beq_iff_eq]
  rw [deletions, List.countP_append, hsqs, hcqs, Nat.zero_add, hnodup.count]

/-- All submission queues go before any completion queue. -/
theorem findIdx_deletions (hids : ∀ k ∈ keys, k.1 < 2 ^ 16) {k : Nat × Nat} (hk : k ∈ keys) :
    (deletions keys).findIdx (deletesSq k.1) < (deletions keys).findIdx (deletesCq k.2) := by
  have hsq : (keys.map fun k => deleteCmd DeleteIOSubmissionQueue.OPC k.1).findIdx (deletesSq k.1)
      < (keys.map fun k => deleteCmd DeleteIOSubmissionQueue.OPC k.1).length := by
    refine List.findIdx_lt_length_of_exists ⟨_, List.mem_map_of_mem hk, ?_⟩
    rw [deletesSq_deleteCmd (hids k hk), decide_eq_true rfl]
  have hcq : (keys.map fun k => deleteCmd DeleteIOSubmissionQueue.OPC k.1).findIdx (deletesCq k.2)
      = (keys.map fun k => deleteCmd DeleteIOSubmissionQueue.OPC k.1).length := by
    refine List.findIdx_eq_length.mpr fun c hc => ?_
    obtain ⟨k', _, rfl⟩ := List.mem_map.mp hc
    exact deletesCq_other
  unfold deletions
  rw [List.findIdx_append, List.findIdx_append, if_pos hsq, hcq, if_neg (Nat.lt_irrefl _)]
  exact Nat.lt_of_lt_of_le hsq (Nat.le_add_left _ _)

/-- Where no queue is in two pairs, all are deleted. -/
theorem Whole.deletesAll (h : Whole qm) (hsqs : (qm.ioKeys.map Prod.fst).Nodup)
    (hcqs : (qm.ioKeys.map Prod.snd).Nodup) : DeletesAll qm := by
  have hkeys : ∀ k ∈ qm.ioKeys, k ∈ qm.nvmeQueues.keys := fun k hk => (List.mem_filter.mp hk).1
  obtain ⟨qm₁, d₁, hfirst, hentries₁, hsqids₁, hcqids₁, hcqs₁, hsent₁⟩ :=
    @deleteSqs_ok SQ CQ qm qm.onDevice [] qm.nvmeQueues.entries rfl
      (fun k hk => ⟨(h.ids k hk).1, (h.ids k hk).2.2.1⟩) hsqs h.ioSqids
      fun k hk => List.mem_toFinset.mpr (List.mem_map_of_mem (hkeys k hk))
  have hleft : qm₁.nvmeQueues.entries = qm.nvmeQueues.entries.map withoutItsSq := hentries₁
  -- what the first loop leaves for the second
  have hio₁ : ioOf (qm.nvmeQueues.entries.map withoutItsSq) = qm.ioKeys := ioOf_withoutItsSq _
  have hkeys₁ : (qm.nvmeQueues.entries.map withoutItsSq).map Prod.fst = qm.nvmeQueues.keys := by
    rw [List.map_map]
    exact List.map_congr_left fun e _ => withoutItsSq_key e
  have hmapped : ∀ e ∈ qm.nvmeQueues.entries.map withoutItsSq,
      (e.1 ≠ (0, 0) → e.2.1 = none) ∧ e.2.2.isSome := by
    intro e he
    obtain ⟨e', he', rfl⟩ := List.mem_map.mp he
    refine ⟨fun hne => ?_, ?_⟩
    · rw [withoutItsSq_key] at hne
      rw [withoutItsSq, if_neg hne]
    · rw [withoutItsSq_cq]
      exact (h.queues e' he').2
  obtain ⟨qm', d', hsecond, hentries', hsqids', hcqids', hsent'⟩ :=
    @deleteCqs_ok SQ CQ qm₁ d₁ [] (qm.nvmeQueues.entries.map withoutItsSq) hleft
      (fun e he => absurd he List.not_mem_nil) (fun e he => (hmapped e he).1)
      (fun e he => (hmapped e he).2)
      (fun k hk => ⟨(h.ids k (hio₁ ▸ hk)).2.1, (h.ids k (hio₁ ▸ hk)).2.2.2⟩) (hio₁ ▸ hcqs)
      (by rw [hcqids₁, h.ioCqids, hio₁])
      (fun k hk => hcqs₁ ▸ List.mem_toFinset.mpr (List.mem_map_of_mem (hkeys k (hio₁ ▸ hk))))
  rw [hio₁] at hsent'
  have hsent : d'.sent = deletions qm.ioKeys := by
    rw [hsent', hsent₁]
    rfl
  refine ⟨qm', d', ?_, ?_⟩
  · unfold deleteIoQueues
    rw [show qm.nvmeQueues.keys = qm.nvmeQueues.entries.map Prod.fst from rfl, hfirst]
    show deleteCqs (qm₁.nvmeQueues.entries.map Prod.fst) qm₁ d₁ = _
    rw [hleft]
    exact hsecond
  · rw [hsent]
    refine ⟨countP_deletesSq (fun k hk => (h.ids k hk).2.2.1) hsqs,
      countP_deletesCq (fun k hk => (h.ids k hk).2.2.2) hcqs, fun c hc => ?_,
      fun k hk => findIdx_deletions (fun k hk => (h.ids k hk).2.2.1) hk, ?_,
      hsqids'.trans hsqids₁, hcqids'⟩
    · rcases List.mem_append.mp hc with hc | hc
      · obtain ⟨k, _, rfl⟩ := List.mem_map.mp hc
        exact Or.inl rfl
      · obtain ⟨k, _, rfl⟩ := List.mem_map.mp hc
        exact Or.inr rfl
    · rw [hentries', filter_withoutItsSq]
      rfl

/-- Where it returns, no queue is in two pairs. -/
theorem Whole.distinct_of_returns (h : Whole qm)
    (hok : qm.deleteIoQueues d = .ok (qm', d')) :
    (qm.ioKeys.map Prod.fst).Nodup ∧ (qm.ioKeys.map Prod.snd).Nodup := by
  have hids : ∀ k ∈ qm.nvmeQueues.keys, k ≠ (0, 0) → k.1 < 2 ^ 16 ∧ k.2 < 2 ^ 16 :=
    fun k hk hne => (h.ids k (List.mem_filter.mpr ⟨hk, decide_eq_true hne⟩)).2.2
  unfold deleteIoQueues at hok
  obtain ⟨⟨qm₁, d₁⟩, hfirst, hsecond⟩ := bind_eq_ok hok
  obtain ⟨hsqs, _, hkeys⟩ := distinct_of_deleteSqs (fun k hk hne => (hids k hk hne).1) hfirst
  have hcqs := (distinct_of_deleteCqs (fun k hk hne => (hids k (hkeys ▸ hk) hne).2) hsecond).1
  rw [hkeys] at hcqs
  exact ⟨hsqs, hcqs⟩

/--
**When all IO queues are deleted**: exactly if no submission queue and no completion queue is
in two pairs.

The loops go from pair to pair and never ask whether its queue is still there, so a shared queue
is deleted once for each of its pairs; and the device rejects the second command.
-/
theorem deletesAll_iff (qm : QueueMgr SQ CQ) (h : Whole qm) :
    DeletesAll qm ↔ (qm.ioKeys.map Prod.fst).Nodup ∧ (qm.ioKeys.map Prod.snd).Nodup :=
  ⟨fun ⟨_, _, hok, _⟩ => h.distinct_of_returns hok, fun ⟨hsqs, hcqs⟩ => h.deletesAll hsqs hcqs⟩

/-- The admin pair and pairs of a submission and a completion queue. -/
def paired (pairs : List (Nat × Nat)) : QueueMgr Nat Nat :=
  pairs.foldl (fun qm k => qm.add k.1 k.1 k.2 k.2) (({} : QueueMgr Nat Nat).add 0 0 0 0)

theorem deletesAll_iff_three : DeletesAll (paired [(1, 1), (2, 2), (3, 3)]) :=
  (deletesAll_iff _ ⟨by decide, by decide, by decide, by decide, by decide⟩).mpr
    ⟨by decide, by decide⟩

/-- Two submission queues with one completion queue: it is deleted twice. -/
theorem not_deletesAll_shared : ¬ ∀ qm : QueueMgr Nat Nat, Whole qm → DeletesAll qm := by
  intro h
  have hwhole : Whole (paired [(1, 1), (2, 1)]) :=
    ⟨by decide, by decide, by decide, by decide, by decide⟩
  obtain ⟨qm', d', hok, _⟩ := h _ hwhole
  exact absurd (hwhole.distinct_of_returns hok).2 (by decide)

end QueueMgr

end LoneNvme
