import LoneNvme.CompletionFailures
import LoneNvme.HostFrame
import LoneNvme.Lib.Machine

/-!
# Completions signalled by interrupts

The device posts an entry and then signals the vector of the queue, which the kernel
turns into an increment of the eventfd registered for that vector. The host reads the
eventfd at the *index* of the vector, which clears it, and drains the one queue it is
looking at.

`enable_msix` registers its eventfds for the vectors from `start` on, and a read
serves one queue of those that share an eventfd. So no wakeup is lost exactly when the
host reads, for each queue, the eventfd of its own vector, and for no other queue.

All of this is about runs in which `get_completion` completes what it finds. The eventfd
has been cleared by then, and where it raises the entry stays on the queue.
-/

namespace LoneNvme

open Lib

/-! ## Eventfds -/

/-- The counts of `self.eventfds`, and which of them the kernel has registered for a vector. -/
structure SysVfioIfc where
  eventfds : List Nat := []
  trigger : Nat → Option Nat := fun _ => none

namespace SysVfioIfc

/-- `enable_msix`. The array it hands the kernel takes 4096 eventfds. -/
def enableMsix (ifc : SysVfioIfc) (numVectors startVector : Nat) : Except Exc SysVfioIfc :=
  if 4096 < numVectors then
    .error (.indexError "invalid index")
  else
    .ok
      { eventfds := ifc.eventfds ++ List.replicate numVectors 0
        trigger := fun vector =>
          if startVector ≤ vector ∧ vector < startVector + numVectors then
            some (ifc.eventfds.length + (vector - startVector))
          else
            ifc.trigger vector }

/-- The device signals a vector. -/
def signal (ifc : SysVfioIfc) (vector : Nat) : SysVfioIfc :=
  match ifc.trigger vector with
  | some fd => { ifc with eventfds := ifc.eventfds.modify fd (· + 1) }
  | none => ifc

/-- The count of the eventfd `self.eventfds[vector]`, if there is one. -/
def count (ifc : SysVfioIfc) (vector : Int) : Option Nat :=
  (indexPosition ifc.eventfds.length vector).bind fun fd => ifc.eventfds[fd]?

/-- What a read of that eventfd leaves. -/
def cleared (ifc : SysVfioIfc) (vector : Int) : SysVfioIfc :=
  match indexPosition ifc.eventfds.length vector with
  | some fd => { ifc with eventfds := ifc.eventfds.set fd 0 }
  | none => ifc

/-- `get_msix_vector_pending_count`: a read returns the count and clears it. -/
def getMsixVectorPendingCount (ifc : SysVfioIfc) (vector : Int) : Except Exc (Nat × SysVfioIfc) :=
  match ifc.count vector with
  | some count => .ok (count, ifc.cleared vector)
  | none => .error (.indexError "list index out of range")

variable {ifc ifc' : SysVfioIfc} {vector other : Int} {fd n : Nat}

theorem pendingCount_ok (h : ifc.getMsixVectorPendingCount vector = .ok (n, ifc')) :
    ifc.count vector = some n ∧ ifc' = ifc.cleared vector := by
  unfold getMsixVectorPendingCount at h
  split at h
  · rename_i count hcount
    obtain ⟨rfl, rfl⟩ := Prod.mk.inj (Except.ok.inj h)
    exact ⟨hcount, rfl⟩
  · exact absurd h (by simp)

/-- The count is that of the eventfd at the position read. -/
theorem count_eq (h : indexPosition ifc.eventfds.length vector = some fd) :
    ifc.count vector = ifc.eventfds[fd]? := by
  unfold count
  rw [h]
  rfl

theorem position_of_count (h : ifc.count vector = some n) :
    ∃ fd, indexPosition ifc.eventfds.length vector = some fd ∧ ifc.eventfds[fd]? = some n :=
  Option.bind_eq_some_iff.mp h

@[simp] theorem cleared_trigger : (ifc.cleared vector).trigger = ifc.trigger := by
  unfold cleared; split <;> rfl

@[simp] theorem cleared_length : (ifc.cleared vector).eventfds.length = ifc.eventfds.length := by
  unfold cleared
  split
  · exact List.length_set ..
  · rfl

/-- Reading one eventfd leaves the others alone. -/
theorem count_cleared (hne : indexPosition ifc.eventfds.length other
    ≠ indexPosition ifc.eventfds.length vector) : (ifc.cleared vector).count other = ifc.count other := by
  unfold count
  rw [cleared_length]
  cases hother : indexPosition ifc.eventfds.length other with
  | none => rfl
  | some fd =>
      show (ifc.cleared vector).eventfds[fd]? = ifc.eventfds[fd]?
      unfold cleared
      split
      · rename_i fd' hfd'
        refine List.getElem?_set_ne fun he => hne ?_
        rw [hother, hfd', he]
      · rfl

/-- And its own count is gone. -/
theorem count_cleared_self (h : indexPosition ifc.eventfds.length vector = some fd)
    (hother : indexPosition ifc.eventfds.length other = some fd) :
    (ifc.cleared vector).count other = some 0 := by
  rw [count_eq (by rw [cleared_length]; exact hother)]
  unfold cleared
  rw [h]
  exact List.getElem?_set_self (indexPosition_lt h)

@[simp] theorem signal_trigger (vector : Nat) : (ifc.signal vector).trigger = ifc.trigger := by
  unfold signal; split <;> rfl

@[simp] theorem signal_length (vector : Nat) :
    (ifc.signal vector).eventfds.length = ifc.eventfds.length := by
  unfold signal
  split
  · exact List.length_modify ..
  · rfl

/-- A signal only ever raises counts. -/
theorem count_signal (signalled : Nat) (h : ifc.count vector = some n) :
    ∃ k, (ifc.signal signalled).count vector = some k ∧ n ≤ k := by
  obtain ⟨fd, hfd, hn⟩ := position_of_count h
  rw [count_eq (by rw [signal_length]; exact hfd)]
  unfold signal
  split
  · rename_i fd' _
    refine ⟨if fd' = fd then n + 1 else n, ?_, ?_⟩
    · rw [List.getElem?_modify, hn]
      split <;> rfl
    · split <;> omega
  · exact ⟨n, hn, Nat.le_refl _⟩

/-- A signal raises the count of its own eventfd. -/
theorem count_signal_self {signalled : Nat} (ht : ifc.trigger signalled = some fd)
    (hfd : indexPosition ifc.eventfds.length vector = some fd) :
    ∃ k, (ifc.signal signalled).count vector = some (k + 1) := by
  rw [count_eq (by rw [signal_length]; exact hfd)]
  unfold signal
  rw [ht]
  dsimp only
  rw [List.getElem?_modify_eq, List.getElem?_eq_getElem (indexPosition_lt hfd)]
  exact ⟨_, rfl⟩

/-- A signal leaves an eventfd alone that is not registered for its vector. -/
theorem count_signal_of_ne {signalled : Nat}
    (hfd : indexPosition ifc.eventfds.length vector = some fd)
    (h : ifc.trigger signalled ≠ some fd) : (ifc.signal signalled).count vector = ifc.count vector := by
  rw [count_eq hfd, count_eq (by rw [signal_length]; exact hfd)]
  unfold signal
  split
  · rename_i fd' hfd'
    exact List.getElem?_modify_ne _ _ fun he => h (by rw [hfd', he])
  · rfl

end SysVfioIfc

/-- The check `create_io_queue_pair` makes on a vector, which may be any integer. -/
def checkVector (numMsixVectors : Nat) (cqIv : Int) : Except Exc Unit :=
  assertThat (cqIv ≤ numMsixVectors)
    ("Invalid Interrupt requested: " ++ toString cqIv ++ ", num_msix_vectors: "
      ++ toString numMsixVectors)

/-! ## The completion queues -/

/-- The queue pairs of a device, and the arguments of `init_msix_interrupts`. -/
structure MsixConfig extends RingsConfig where
  numVectors : Nat
  start : Nat
  /-- The `int_vector` of a completion queue. -/
  vector : Nat → Int
  /-- `enable_msix` returned. -/
  numVectors_le : numVectors ≤ 4096
  /-- The admin queues are queue pair `0` on vector `0`. -/
  admin : 0 ∈ sqs ∧ cqOf 0 = 0 ∧ vector 0 = 0
  /-- The other vectors passed the check. -/
  accepted : ∀ i ∈ sqs, cqOf i ≠ 0 → checkVector (start + numVectors) (vector (cqOf i)) = .ok ()

namespace MsixConfig

/-- The vector the device signals: `IV` of the create command, a field of 16 bits. -/
def iv (cfg : MsixConfig) (c : Nat) : Nat := (BitVec.ofInt 16 (cfg.vector c)).toNat

/-- The eventfd the host reads for a queue. -/
def fd (cfg : MsixConfig) (c : Nat) : Option Nat := indexPosition cfg.numVectors (cfg.vector c)

/--
Every queue that can hold a completion has an eventfd to itself: the one the host reads is
the one registered for the vector the device signals, and is read for no other queue.
-/
def OwnEventfds (cfg : MsixConfig) : Prop :=
  ∀ c ∈ cfg.cqs, 2 ≤ cfg.cqEntries c →
    ∃ fd, cfg.fd c = some fd ∧ cfg.iv c = cfg.start + fd ∧ ∀ c' ∈ cfg.cqs, cfg.fd c' = some fd → c' = c

/-- For a vector that fits `IV` the eventfds have to start at vector `0` and reach it. -/
theorem reads_own_iff {cfg : MsixConfig} {c : Nat} (hpos : 0 ≤ cfg.vector c)
    (hfits : cfg.vector c < 2 ^ 16) : (∃ fd, cfg.fd c = some fd ∧ cfg.iv c = cfg.start + fd)
      ↔ cfg.start = 0 ∧ cfg.vector c < cfg.numVectors := by
  have hiv : (cfg.iv c : Int) = cfg.vector c := by
    unfold iv
    rw [BitVec.toNat_ofInt]
    omega
  constructor
  · rintro ⟨fd, hfd, hown⟩
    obtain ⟨heq, hlt⟩ := (indexPosition_eq_some_iff hpos).mp hfd
    omega
  · rintro ⟨hstart, hlt⟩
    exact ⟨cfg.iv c, (indexPosition_eq_some_iff hpos).mpr ⟨hiv.symm, by omega⟩, by omega⟩

end MsixConfig

namespace Rings

/-- The device posts an entry to its object `c`, if there is room. -/
def postCompletion (r : Rings) (c : Nat) (cqe : CQE) : Option Rings :=
  match (r.simCq c).postCompletion (r.CQHEAD (r.simCq c).qid) (r.cqRing (r.simCq c).baseAddress)
    cqe with
  | .ok (cq, ring) => some (r.withEntry c cq ring cqe)
  | .error _ => none

/-- The completion queues of a device at work: objects, memory and history agree. -/
structure Queues (cfg : MsixConfig) (r : Rings) : Prop where
  hostAt : ∀ c ∈ cfg.cqs, (r.hostCq c).qid = c ∧ (r.hostCq c).baseAddress = cfg.cqBase c
    ∧ (r.hostCq c).intVector = some (cfg.vector c)
  simAt : ∀ c ∈ cfg.cqs, (r.simCq c).qid = c ∧ (r.simCq c).baseAddress = cfg.cqBase c
  cq : ∀ c ∈ cfg.cqs, CqInv (cfg.cqEntries c) (r.cqRing (cfg.cqBase c)) (r.CQHEAD c) (r.hostCq c)
    (r.simCq c) (r.cposted c) (r.consumed c)

/-- Nothing has happened to the completion queues. -/
structure SameCqs (r r' : Rings) : Prop where
  cqRing : r'.cqRing = r.cqRing
  CQHEAD : r'.CQHEAD = r.CQHEAD
  hostCq : r'.hostCq = r.hostCq
  simCq : r'.simCq = r.simCq
  cposted : r'.cposted = r.cposted
  consumed : r'.consumed = r.consumed

variable {cfg : MsixConfig} {r r' : Rings} {c : Nat} {cqe : CQE}

theorem SameCqs.pending (h : SameCqs r r') (c : Nat) : r'.pending c = r.pending c := by
  unfold Rings.pending
  rw [h.cposted, h.consumed]

theorem Queues.congr (h : Queues cfg r) (hsame : SameCqs r r') : Queues cfg r' := by
  refine ⟨?_, ?_, ?_⟩
  · rw [hsame.hostCq]
    exact h.hostAt
  · rw [hsame.simCq]
    exact h.simAt
  · rw [hsame.cqRing, hsame.CQHEAD, hsame.hostCq, hsame.simCq, hsame.cposted, hsame.consumed]
    exact h.cq

/-- The host sees a new entry exactly when one is pending. -/
theorem Queues.phaseMatch_iff (h : Queues cfg r) (hc : c ∈ cfg.cqs) :
    r.phaseMatch c = true ↔ r.pending c ≠ [] := by
  obtain ⟨hqid, hbase, _⟩ := h.hostAt c hc
  have hm := (h.cq c hc).match_iff
  rw [phaseMatch, nextCompletion, beq_iff_eq, hqid, hbase, hm, Rings.pending, Ne,
    List.drop_eq_nil_iff]
  omega

theorem Queues.post (h : Queues cfg r) (hc : c ∈ cfg.cqs) (hok : r.postCompletion c cqe = some r') :
    Queues cfg r' ∧ r'.pending c ≠ [] ∧ ∀ d, d ≠ c → r'.pending d = r.pending d := by
  obtain ⟨hqid, hbase⟩ := h.simAt c hc
  have hle := (h.cq c hc).le
  have h32 := RingsConfig.cqEntries_le_of_mem hc
  unfold postCompletion at hok
  split at hok
  · rename_i cq ring hpost
    obtain rfl := Option.some.inj hok
    -- the slot has the entry given, with the phase of the lap
    have hlogged := slot_eq_logged hpost
    rw [hqid, hbase] at hpost
    have hcq := (h.cq c hc).post h32 hpost
    rw [← (h.cq c hc).post_slot h32 hpost, hlogged] at hcq
    have hobj := NVMeCompletionQueue.postCompletion_object hpost
    refine ⟨⟨h.hostAt, ?_, ?_⟩, ?_, ?_⟩
    · intro d hd
      dsimp only [withEntry]
      by_cases hdc : d = c
      · subst hdc
        rw [Function.update_self, hobj]
        exact ⟨hqid, hbase⟩
      · rw [Function.update_of_ne hdc]
        exact h.simAt d hd
    · intro d hd
      dsimp only [withEntry]
      rw [hbase]
      by_cases hdc : d = c
      · subst hdc
        rw [Function.update_self, Function.update_self, Function.update_self]
        exact hcq
      · have hne : cfg.cqBase d ≠ cfg.cqBase c := fun he => hdc (RingsConfig.cqBase_eq hd hc he)
        rw [Function.update_of_ne hne, Function.update_of_ne hdc, Function.update_of_ne hdc]
        exact h.cq d hd
    · show (Function.update r.cposted c _ c).drop (r.consumed c) ≠ []
      rw [Function.update_self, List.drop_append_of_le_length hle]
      simp
    · intro d hdc
      show (Function.update r.cposted c _ d).drop (r.consumed d) = _
      rw [Function.update_of_ne hdc]
      rfl
  · exact absurd hok (by simp)

/-- A queue that is not full takes a post. -/
theorem Queues.post_room (h : Queues cfg r) (hc : c ∈ cfg.cqs)
    (hroom : (r.pending c).length + 1 < cfg.cqEntries c) (cqe : CQE) :
    ∃ r', r.postCompletion c cqe = some r' := by
  have hle := (h.cq c hc).le
  have hfull : (r.simCq c).isFull (r.CQHEAD (r.simCq c).qid) = false := by
    rw [(h.simAt c hc).1]
    rw [Rings.pending, List.length_drop] at hroom
    by_contra hne
    have := (h.cq c hc).isFull_iff.mp (by simpa using hne)
    omega
  unfold postCompletion
  rw [NVMeCompletionQueue.postCompletion_ok hfull]
  exact ⟨_, rfl⟩

/-- Consuming an entry that is pending. The submission queues do not matter. -/
theorem Queues.consume (h : Queues cfg r) (hc : c ∈ cfg.cqs) (hm : r.phaseMatch c = true)
    (i value : Nat) : Queues cfg ((r.consumeCompletion c).setHead i value)
      ∧ ∀ d, d ≠ c → ((r.consumeCompletion c).setHead i value).pending d = r.pending d := by
  obtain ⟨hqid, hbase, hvector⟩ := h.hostAt c hc
  -- a matching phase bit means that one is left to consume
  have hlt : r.consumed c < (r.cposted c).length := by
    have hne := (h.phaseMatch_iff hc).mp hm
    rw [Rings.pending, Ne, List.drop_eq_nil_iff] at hne
    omega
  have hcq := (h.cq c hc).consume (RingsConfig.cqEntries_le_of_mem hc) hlt
  refine ⟨⟨?_, h.simAt, ?_⟩, ?_⟩
  · intro d hd
    dsimp only [setHead, consumeCompletion]
    by_cases hdc : d = c
    · subst hdc
      rw [Function.update_self, NVMeCompletionQueue.consumeCompletion_object]
      exact ⟨hqid, hbase, hvector⟩
    · rw [Function.update_of_ne hdc]
      exact h.hostAt d hd
  · intro d hd
    dsimp only [setHead, consumeCompletion]
    rw [hqid]
    by_cases hdc : d = c
    · subst hdc
      rw [Function.update_self, Function.update_self, Function.update_self]
      exact hcq
    · rw [Function.update_of_ne hdc, Function.update_of_ne hdc, Function.update_of_ne hdc]
      exact h.cq d hd
  · intro d hdc
    show (r.cposted d).drop (Function.update r.consumed c _ d) = _
    rw [Function.update_of_ne hdc]
    rfl

end Rings

namespace NVMeDeviceCommon

/--
A new entry of queue `c`, if there is one, is for an outstanding command of that queue that
passes the checks of `complete_command`, and whose data can be copied.
-/
def Completes (d : NVMeDeviceCommon) (c : Nat) (dataIn : Except Exc (List (BitVec 8))) : Prop :=
  d.rings.phaseMatch c = true → ∃ k i, Finds d c c k ∧ Sane d k (d.rings.nextCompletion c) i
    ∧ ((d.commands k).dataIn ≠ none → ∃ bytes, dataIn = .ok bytes) ∧ (d.commands k).cq = .queue c

variable {d : NVMeDeviceCommon} {c : Nat} {dataIn : Except Exc (List (BitVec 8))}

/-- Then `get_completion` finds nothing new, or completes it and moves the queue on. -/
theorem Completes.getCompletion (h : Completes d c dataIn)
    (hget : ∃ sq, d.queueMgr.get (if c = 0 then some 0 else none) (some c) = .ok (sq, .queue c)) :
    d.rings.phaseMatch c = false ∧ d.getCompletion c dataIn = (d, .ok false)
      ∨ d.rings.phaseMatch c = true ∧ ∃ d' i value, d.getCompletion c dataIn = (d', .ok true)
        ∧ d'.queueMgr = d.queueMgr ∧ d'.rings = (d.rings.consumeCompletion c).setHead i value := by
  obtain ⟨sq, hget⟩ := hget
  cases hmatch : d.rings.phaseMatch c with
  | false =>
      refine Or.inl ⟨rfl, ?_⟩
      unfold NVMeDeviceCommon.getCompletion
      rw [hget]
      dsimp only
      rw [hmatch, if_neg (by simp)]
  | true =>
      obtain ⟨k, i, hf, hs, hdata, hcq⟩ := h hmatch
      have hkey := Dict.mem_keys.mpr ⟨k, Dict.get?_eq_some_iff.mp hf.command⟩
      obtain ⟨d', hok, hqm, hrings⟩ := hs.completed hdata hcq hkey
      refine Or.inr ⟨rfl, d', i, _, ?_, hqm, hrings⟩
      rw [hf.getCompletion, hok]
      rfl

/-- Starting a command does nothing to the completion queues. -/
theorem sameCqs_startCmd (d : NVMeDeviceCommon) (k : Nat) (sqid cqid : Option Nat) :
    Rings.SameCqs d.rings (d.startCmd k sqid cqid).1.rings
      ∧ (d.startCmd k sqid cqid).1.queueMgr.nvmeQueues = d.queueMgr.nvmeQueues := by
  rcases startCmd_posted d k sqid cqid with ⟨hnot, _⟩ | ⟨i, cq, _, hposted⟩
  · rw [hnot.rings]
    exact ⟨⟨rfl, rfl, rfl, rfl, rfl, rfl⟩, hnot.queueMgr.nvmeQueues⟩
  · obtain ⟨cid, hpost⟩ := hposted.rings
    obtain ⟨sqtail, ring, _, hrings⟩ := Rings.postCommand_spec hpost
    rw [hrings]
    exact ⟨⟨rfl, rfl, rfl, rfl, rfl, rfl⟩, hposted.queueMgr.nvmeQueues⟩

end NVMeDeviceCommon

/-! ## The interrupts of a device -/

/-- Where a call of `get_msix_completions` is. Its queues are as the manager lists them. -/
inductive MsixPc where
  /-- Between calls; the last one returned, or raised. -/
  | idle (result : Except Exc Nat)
  /-- In the `for` loop over `all`, before the queues in `rest`; `n` completions so far. -/
  | scan (all rest : List (Option Nat)) (maxCompletions n : Nat)
  /-- In the `while` loop of queue `c`. -/
  | drain (all : List (Option Nat)) (c : Nat) (rest : List (Option Nat)) (maxCompletions n : Nat)

namespace MsixPc

/-- The queue being drained. -/
def draining : MsixPc → Option Nat
  | .drain _ c _ _ _ => some c
  | _ => none

/-- The queues the call is still about. -/
def queues : MsixPc → List (Option Nat)
  | .idle _ => []
  | .scan all rest _ _ => all ++ rest
  | .drain all c rest _ _ => some c :: (all ++ rest)

end MsixPc

/--
The kernel, and the host with the rings it shares with the device. `owed` counts the posts
that are not signalled yet.
-/
structure MsixWorld where
  ifc : SysVfioIfc
  host : NVMeDeviceCommon
  owed : Nat → Nat
  pc : MsixPc

inductive MsixOp where
  /-- The device posts to a queue. -/
  | post (c : Nat) (cqe : CQE)
  /-- It signals the vector of a queue, for one post. -/
  | signal (c : Nat)
  /-- The host starts a command. -/
  | startCmd (k : Nat) (sqid cqid : Option Nat)
  /-- A call of `get_msix_completions`, on one queue or on all. -/
  | call (cqids : Option Nat) (maxCompletions : Nat)
  /--
  The call goes on. `stop` says whether the time is up or `CSTS.CFS` is set, and `dataIn` is
  what copying the data buffer gives if a command is completed.
  -/
  | host (stop : Bool) (dataIn : Except Exc (List (BitVec 8)))

namespace MsixWorld

/-- The queues a call is about. -/
def cqsFor (qm : QueueMgr Nat Nat) : Option Nat → List (Option Nat)
  | none => qm.getCqs
  | some cqid =>
      match qm.get none (some cqid) with
      | .ok (_, .queue c) => [some c]
      | _ => []

/-- The next thing `get_msix_completions` does. -/
def hostStep (w : MsixWorld) (stop : Bool) (dataIn : Except Exc (List (BitVec 8))) :
    Option MsixWorld :=
  match w.pc with
  | .idle _ => none
  | .scan all [] maxCompletions n =>
      let finished := n ≥ maxCompletions ∨ stop = true
      some { w with pc := if finished then .idle (.ok n) else .scan all all maxCompletions n }
  | .scan _ (none :: _) _ _ =>
      some { w with pc := .idle (.error (.attributeError
        "'NoneType' object has no attribute 'int_vector'")) }
  | .scan all (some c :: rest) maxCompletions n =>
      match (w.host.rings.hostCq c).intVector with
      | none =>
          some { w with pc := .idle (.error (.custom "TypeError"
            "list indices must be integers or slices, not NoneType")) }
      | some vector =>
          match w.ifc.getMsixVectorPendingCount vector with
          | .error e => some { w with pc := .idle (.error e) }
          | .ok (count, ifc) =>
              some { w with
                ifc
                pc := if count = 0 then .scan all rest maxCompletions n
                  else .drain all c rest maxCompletions n }
  | .drain all c rest maxCompletions n =>
      match w.host.getCompletion (w.host.rings.hostCq c).qid dataIn with
      | (host, .ok true) => some { w with host, pc := .drain all c rest maxCompletions (n + 1) }
      | (host, .ok false) => some { w with host, pc := .scan all rest maxCompletions n }
      -- the eventfd has been cleared, and the entry is still there
      | (host, .error e) => some { w with host, pc := .idle (.error e) }

def step (cfg : MsixConfig) (w : MsixWorld) : MsixOp → Option MsixWorld
  | .post c cqe =>
      if c ∈ cfg.cqs then
        (w.host.rings.postCompletion c cqe).map fun rings =>
          { w with
            host := { w.host with rings }
            owed := Function.update w.owed c (w.owed c + 1) }
      else none
  | .signal c =>
      if 0 < w.owed c then
        some { w with
          ifc := w.ifc.signal (cfg.iv c)
          owed := Function.update w.owed c (w.owed c - 1) }
      else none
  | .startCmd k sqid cqid =>
      match w.pc with
      | .idle _ => some { w with host := (w.host.startCmd k sqid cqid).1 }
      | _ => none
  | .call cqids maxCompletions =>
      match w.pc with
      | .idle _ =>
          let cqs := cqsFor w.host.queueMgr cqids
          some { w with pc := if cqs = [] then .idle (.ok 0) else .scan cqs cqs maxCompletions 0 }
      | _ => none
  | .host stop dataIn => w.hostStep stop dataIn

variable {cfg : MsixConfig} {w w' : MsixWorld} {c : Nat}

/-- Right after `init_msix_interrupts` and the creation of the queues: nothing is pending. -/
structure Init (cfg : MsixConfig) (w : MsixWorld) : Prop where
  ifc : SysVfioIfc.enableMsix {} cfg.numVectors cfg.start = .ok w.ifc
  queueMgr : NVMeDeviceCommon.Serves cfg.toRingsConfig w.host.queueMgr.nvmeQueues
  queues : Rings.Queues cfg w.host.rings
  empty : ∀ c ∈ cfg.cqs, w.host.rings.pending c = []
  owed : ∀ c, w.owed c = 0
  pc : ∃ result, w.pc = .idle result

def machine (cfg : MsixConfig) : Machine MsixWorld MsixOp := ⟨Init cfg, step cfg⟩

/-- The host can complete what it comes to in the queue it drains. -/
def Completes (w : MsixWorld) : MsixOp → Prop
  | .host _ dataIn => ∀ c, w.pc.draining = some c → w.host.Completes c dataIn
  | _ => True

/--
**No wakeup is lost.** Between calls, with everything signalled, a queue that holds a
completion has a count to be read.
-/
def NoLostWakeup (cfg : MsixConfig) (w : MsixWorld) : Prop :=
  (∃ result, w.pc = .idle result) → (∀ c, w.owed c = 0) →
    ∀ c ∈ cfg.cqs, w.host.rings.pending c ≠ [] →
      ∃ count, w.ifc.count (cfg.vector c) = some count ∧ count ≠ 0

/-! ### What the steps can do -/

/--
**A step of `get_msix_completions`** moves on in its loops or raises, or reads the
eventfd of a queue, or looks for a completion in the queue it drains.
-/
theorem hostStep_cases {stop : Bool} {dataIn : Except Exc (List (BitVec 8))}
    (h : w.hostStep stop dataIn = some w') :
    ∃ pc, (∀ x ∈ pc.queues, x ∈ w.pc.queues)
      ∧ ((w.pc.draining = none ∧ pc.draining = none ∧ w' = { w with pc })
        ∨ (∃ c vector count ifc, w.pc.draining = none ∧ some c ∈ w.pc.queues
          ∧ (w.host.rings.hostCq c).intVector = some vector
          ∧ w.ifc.getMsixVectorPendingCount vector = .ok (count, ifc)
          ∧ pc.draining = (if count = 0 then none else some c) ∧ w' = { w with ifc, pc })
        ∨ ∃ c host result, w.pc.draining = some c ∧ some c ∈ w.pc.queues
          ∧ w.host.getCompletion (w.host.rings.hostCq c).qid dataIn = (host, result)
          ∧ pc.draining = (if result = .ok true then some c else none) ∧ w' = { w with host, pc }) := by
  -- by where the host is in its loops
  unfold hostStep at h
  split at h
  · exact absurd h (by simp)
  · -- the end of a round
    rename_i all m n hpc
    obtain rfl := Option.some.inj h
    rw [hpc]
    refine ⟨_, ?_, Or.inl ⟨rfl, ?_, rfl⟩⟩
    · split
      · exact fun _ hx => absurd hx (by simp [MsixPc.queues])
      · exact fun x hx => by simpa [MsixPc.queues] using hx
    · split <;> rfl
  · rename_i hpc
    rw [hpc]
    obtain rfl := Option.some.inj h
    exact ⟨_, fun _ hx => absurd hx (by simp [MsixPc.queues]), Or.inl ⟨rfl, rfl, rfl⟩⟩
  · rename_i all c rest m n hpc
    rw [hpc]
    split at h
    · obtain rfl := Option.some.inj h
      exact ⟨_, fun _ hx => absurd hx (by simp [MsixPc.queues]), Or.inl ⟨rfl, rfl, rfl⟩⟩
    · rename_i vector hv
      split at h
      · obtain rfl := Option.some.inj h
        exact ⟨_, fun _ hx => absurd hx (by simp [MsixPc.queues]), Or.inl ⟨rfl, rfl, rfl⟩⟩
      · -- the count was read: its queue is gone through if it is not zero, and waits its turn if it is
        rename_i count ifc hread
        obtain rfl := Option.some.inj h
        refine ⟨_, ?_, Or.inr (Or.inl ⟨c, vector, count, ifc, rfl, ?_, hv, hread, ?_, rfl⟩)⟩
        · split
          · intro x hx
            rcases List.mem_append.mp hx with hx | hx
            · exact List.mem_append_left _ hx
            · exact List.mem_append_right _ (List.mem_cons_of_mem _ hx)
          · intro x hx
            rcases List.mem_cons.mp hx with rfl | hx
            · exact List.mem_append_right _ List.mem_cons_self
            · rcases List.mem_append.mp hx with hx | hx
              · exact List.mem_append_left _ hx
              · exact List.mem_append_right _ (List.mem_cons_of_mem _ hx)
        · exact List.mem_append_right _ List.mem_cons_self
        · split <;> rfl
  · rename_i all c rest m n hpc
    rw [hpc]
    split at h
    · -- a completion was there, so the host looks for another
      rename_i host hget
      obtain rfl := Option.some.inj h
      exact ⟨.drain all c rest m (n + 1), fun _ hx => hx, Or.inr (Or.inr
        ⟨c, host, _, rfl, List.mem_cons_self, hget, (if_pos rfl).symm, rfl⟩)⟩
    · rename_i host hget
      obtain rfl := Option.some.inj h
      exact ⟨.scan all rest m n, fun _ hx => List.mem_cons_of_mem _ hx, Or.inr (Or.inr
        ⟨c, host, _, rfl, List.mem_cons_self, hget, (if_neg (by simp)).symm, rfl⟩)⟩
    · rename_i host e hget
      obtain rfl := Option.some.inj h
      -- what `get_completion` raises ends the call
      exact ⟨.idle (.error e), fun _ hx => absurd hx (by simp [MsixPc.queues]), Or.inr (Or.inr
        ⟨c, host, _, rfl, List.mem_cons_self, hget, (if_neg (by simp)).symm, rfl⟩)⟩

/-- A lookup without a submission queue finds a queue in use. -/
theorem get_cq {qm : QueueMgr Nat Nat} (h : NVMeDeviceCommon.Serves cfg.toRingsConfig qm.nvmeQueues)
    (hc : c ∈ cfg.cqs) : ∃ sq, qm.get none (some c) = .ok (sq, .queue c) := by
  rcases qm.firstPair_spec (fun k => k.2 == c) with ⟨k, v, hm, hk, he⟩ | ⟨hk, _⟩
  · obtain ⟨_, _, rfl⟩ := (h k v).mp hm
    have hkc : k.2 = c := by simpa using hk
    refine ⟨.queue k.1, ?_⟩
    rw [QueueMgr.get, he, ← hkc]
    rfl
  · obtain ⟨i, hi, hic⟩ := Finset.mem_image.mp hc
    have hm := (h (i, c) (some i, some c)).mpr ⟨hi, hic.symm, rfl⟩
    exact absurd (hk _ (Dict.mem_keys.mpr ⟨_, hm⟩)) (by simp)

theorem mem_cqsFor {qm : QueueMgr Nat Nat}
    (h : NVMeDeviceCommon.Serves cfg.toRingsConfig qm.nvmeQueues) (cqids : Option Nat) :
    ∀ x ∈ cqsFor qm cqids, ∃ c ∈ cfg.cqs, x = some c := by
  intro x hx
  cases cqids with
  | none =>
      obtain ⟨⟨k, v⟩, hm, rfl⟩ := List.mem_map.mp hx
      obtain ⟨hi, hkc, rfl⟩ := (h k v).mp hm
      exact ⟨k.2, hkc ▸ RingsConfig.cqOf_mem hi, rfl⟩
  | some cqid =>
      unfold cqsFor at hx
      dsimp only at hx
      split at hx
      · rename_i sq c hget
        obtain rfl := List.mem_singleton.mp hx
        rcases qm.firstPair_spec (fun k => k.2 == cqid) with ⟨k, v, hm, _, he⟩ | ⟨_, he⟩
        · obtain ⟨hi, hkc, rfl⟩ := (h k v).mp hm
          rw [QueueMgr.get, he] at hget
          have hck : k.2 = c := QueueRef.queue.inj (Prod.mk.inj (Except.ok.inj hget)).2
          exact ⟨c, hck ▸ hkc ▸ RingsConfig.cqOf_mem hi, rfl⟩
        · rw [QueueMgr.get, he] at hget
          exact absurd (Prod.mk.inj (Except.ok.inj hget)).2 (by simp)
      · exact absurd hx (by simp)

theorem cqsFor_some {qm : QueueMgr Nat Nat}
    (h : NVMeDeviceCommon.Serves cfg.toRingsConfig qm.nvmeQueues) (hc : c ∈ cfg.cqs) :
    cqsFor qm (some c) = [some c] := by
  obtain ⟨sq, hget⟩ := get_cq h hc
  unfold cqsFor
  dsimp only
  rw [hget]

/-! ### The invariant -/

/-- A queue's completions will be noticed: a signal is owed, counted, or the host is at it. -/
def Noticed (cfg : MsixConfig) (w : MsixWorld) (c : Nat) : Prop :=
  w.owed c ≠ 0 ∨ (∃ count, w.ifc.count (cfg.vector c) = some count ∧ count ≠ 0)
    ∨ w.pc.draining = some c

/-- Where the host is not at it, a signal is owed or counted. -/
theorem Noticed.signalled (h : Noticed cfg w c) (hd : w.pc.draining ≠ some c) :
    w.owed c ≠ 0 ∨ ∃ count, w.ifc.count (cfg.vector c) = some count ∧ count ≠ 0 := by
  rcases h with howed | hcount | hdrain
  · exact Or.inl howed
  · exact Or.inr hcount
  · exact absurd hdrain hd

structure Inv (cfg : MsixConfig) (w : MsixWorld) : Prop where
  fds : w.ifc.eventfds.length = cfg.numVectors
  trigger : ∀ vector, w.ifc.trigger vector
    = if cfg.start ≤ vector ∧ vector < cfg.start + cfg.numVectors then some (vector - cfg.start) else none
  queueMgr : NVMeDeviceCommon.Serves cfg.toRingsConfig w.host.queueMgr.nvmeQueues
  queues : Rings.Queues cfg w.host.rings
  members : ∀ x ∈ w.pc.queues, ∃ c ∈ cfg.cqs, x = some c
  /-- What is pending is noticed. -/
  awake : cfg.OwnEventfds → ∀ c ∈ cfg.cqs, w.host.rings.pending c ≠ [] → Noticed cfg w c

theorem inv_init (h : Init cfg w) : Inv cfg w := by
  obtain ⟨result, hpc⟩ := h.pc
  have hifc := h.ifc
  unfold SysVfioIfc.enableMsix at hifc
  rw [if_neg (Nat.not_lt.mpr cfg.numVectors_le)] at hifc
  have hifc := Except.ok.inj hifc
  refine ⟨?_, fun vector => ?_, h.queueMgr, h.queues, ?_, ?_⟩
  · rw [← hifc]
    simp
  · rw [← hifc]
    dsimp only
    rw [List.length_nil, Nat.zero_add]
  · intro x hx
    rw [hpc] at hx
    exact absurd hx (by simp [MsixPc.queues])
  · intro _ c hc hp
    exact absurd (h.empty c hc) hp

/-- Where a queue holds a completion it has room for one, hence an eventfd to itself. -/
theorem Inv.own (h : Inv cfg w) (hown : cfg.OwnEventfds) (hc : c ∈ cfg.cqs)
    (hp : w.host.rings.pending c ≠ []) :
    ∃ fd, cfg.fd c = some fd ∧ cfg.iv c = cfg.start + fd
      ∧ ∀ c' ∈ cfg.cqs, cfg.fd c' = some fd → c' = c := by
  have hgap := (h.queues.cq c hc).gap
  rw [Rings.pending, Ne, List.drop_eq_nil_iff] at hp
  exact hown c hc (by omega)

/-- What the kernel has registered for the vector of an eventfd. -/
theorem Inv.trigger_eq (h : Inv cfg w) {fd : Nat} (hfd : fd < cfg.numVectors) :
    w.ifc.trigger (cfg.start + fd) = some fd := by
  rw [h.trigger, if_pos (by omega)]
  congr 1
  omega

theorem Inv.post (h : Inv cfg w) (hc : c ∈ cfg.cqs) {cqe : CQE} {rings : Rings}
    (hpost : w.host.rings.postCompletion c cqe = some rings) :
    Inv cfg { w with
      host := { w.host with rings }
      owed := Function.update w.owed c (w.owed c + 1) } := by
  obtain ⟨hqueues, _, hothers⟩ := h.queues.post hc hpost
  refine ⟨h.fds, h.trigger, h.queueMgr, hqueues, h.members, fun hown d hd hp => ?_⟩
  by_cases hdc : d = c
  · subst hdc
    left
    show Function.update w.owed d (w.owed d + 1) d ≠ 0
    rw [Function.update_self]
    exact Nat.succ_ne_zero _
  · dsimp only at hp
    rw [hothers d hdc] at hp
    rcases h.awake hown d hd hp with howed | hcount
    · left
      show Function.update w.owed c _ d ≠ 0
      rw [Function.update_of_ne hdc]
      exact howed
    · exact Or.inr hcount

theorem Inv.signal (h : Inv cfg w) : Inv cfg { w with
    ifc := w.ifc.signal (cfg.iv c)
    owed := Function.update w.owed c (w.owed c - 1) } := by
  refine ⟨by rw [SysVfioIfc.signal_length, h.fds], by rw [SysVfioIfc.signal_trigger]; exact h.trigger,
    h.queueMgr, h.queues, h.members, fun hown d hd hp => ?_⟩
  by_cases hdc : d = c
  · -- the signal is counted where the host will read
    subst hdc
    obtain ⟨fd, hfd, hiv, _⟩ := h.own hown hd hp
    have htrigger : w.ifc.trigger (cfg.iv d) = some fd := by
      rw [hiv]
      exact h.trigger_eq (indexPosition_lt hfd)
    obtain ⟨k, hk⟩ := SysVfioIfc.count_signal_self htrigger (by rw [h.fds]; exact hfd)
    exact Or.inr (Or.inl ⟨k + 1, hk, Nat.succ_ne_zero k⟩)
  · rcases h.awake hown d hd hp with howed | ⟨count, hcount, hne0⟩ | hdrain
    · left
      show Function.update w.owed c _ d ≠ 0
      rw [Function.update_of_ne hdc]
      exact howed
    · obtain ⟨k, hk, hle⟩ := SysVfioIfc.count_signal (cfg.iv c) hcount
      exact Or.inr (Or.inl ⟨k, hk, by omega⟩)
    · exact Or.inr (Or.inr hdrain)

/-- Starting a command touches no completion queue. -/
theorem Inv.startCmd (h : Inv cfg w) (k : Nat) (sqid cqid : Option Nat) :
    Inv cfg { w with host := (w.host.startCmd k sqid cqid).1 } := by
  obtain ⟨hsame, hqm⟩ := NVMeDeviceCommon.sameCqs_startCmd w.host k sqid cqid
  refine ⟨h.fds, h.trigger, by rw [hqm]; exact h.queueMgr, h.queues.congr hsame, h.members,
    fun hown c hc hp => h.awake hown c hc ?_⟩
  rw [← hsame.pending]
  exact hp

/-- The lookup of `get_completion` finds the queue being drained. -/
theorem Inv.get_draining (h : Inv cfg w) (hc : c ∈ cfg.cqs) :
    ∃ sq, w.host.queueMgr.get (if c = 0 then some 0 else none) (some c) = .ok (sq, .queue c) := by
  rcases h.queueMgr.get_cq ⟨cfg.admin.1, cfg.admin.2.1⟩ c with ⟨_, hget⟩ | ⟨hnot, _⟩
  · exact hget
  · exact absurd hc hnot

/-- The host moves on in its loops: no eventfd and no ring is touched. -/
theorem Inv.moved (h : Inv cfg w) {pc : MsixPc} (hmembers : ∀ x ∈ pc.queues, ∃ c ∈ cfg.cqs, x = some c)
    (hold : w.pc.draining = none) : Inv cfg { w with pc } := by
  refine ⟨h.fds, h.trigger, h.queueMgr, h.queues, hmembers, fun hown c hc hp => ?_⟩
  rcases (h.awake hown c hc hp).signalled (by simp [hold]) with howed | hcount
  · exact Or.inl howed
  · exact Or.inr (Or.inl hcount)

/-- The host reads the eventfd of queue `c`, and goes through the queue if there was a count. -/
theorem Inv.readCount (h : Inv cfg w) {pc : MsixPc} {count : Nat} {ifc : SysVfioIfc}
    (hmembers : ∀ x ∈ pc.queues, ∃ c ∈ cfg.cqs, x = some c) (hold : w.pc.draining = none)
    (hc : c ∈ cfg.cqs)
    (hread : w.ifc.getMsixVectorPendingCount (cfg.vector c) = .ok (count, ifc))
    (hnew : pc.draining = if count = 0 then none else some c) : Inv cfg { w with ifc, pc } := by
  obtain ⟨hcount, rfl⟩ := SysVfioIfc.pendingCount_ok hread
  refine ⟨SysVfioIfc.cleared_length.trans h.fds,
    by rw [SysVfioIfc.cleared_trigger]; exact h.trigger, h.queueMgr, h.queues, hmembers,
    fun hown d hd hp => ?_⟩
  by_cases hdc : d = c
  · -- the queue read from: it is the one to be drained now
    subst hdc
    rcases (h.awake hown d hd hp).signalled (by simp [hold]) with howed | ⟨k, hk, hk0⟩
    · exact Or.inl howed
    · rw [hcount] at hk
      obtain rfl := Option.some.inj hk
      exact Or.inr (Or.inr (by rw [hnew, if_neg hk0]))
  · -- nobody else's eventfd is cleared
    obtain ⟨fd, hfd, _, halone⟩ := h.own hown hd hp
    have hother : indexPosition w.ifc.eventfds.length (cfg.vector d)
        ≠ indexPosition w.ifc.eventfds.length (cfg.vector c) := by
      rw [h.fds]
      exact fun he => hdc (halone c hc (he.symm.trans hfd)).symm
    rcases (h.awake hown d hd hp).signalled (by simp [hold]) with howed | ⟨k, hk, hk0⟩
    · exact Or.inl howed
    · exact Or.inr (Or.inl ⟨k, (SysVfioIfc.count_cleared hother).trans hk, hk0⟩)

/-- The host looks for a completion in the queue it drains, and leaves the queue if there is none. -/
theorem Inv.looked (h : Inv cfg w) {pc : MsixPc} {host : NVMeDeviceCommon}
    {dataIn : Except Exc (List (BitVec 8))} {result : Except Exc Bool}
    (hmembers : ∀ x ∈ pc.queues, ∃ c ∈ cfg.cqs, x = some c) (hold : w.pc.draining = some c)
    (hc : c ∈ cfg.cqs) (hcompletes : w.host.Completes c dataIn)
    (hget : w.host.getCompletion c dataIn = (host, result))
    (hnew : pc.draining = if result = .ok true then some c else none) :
    Inv cfg { w with host, pc } := by
  have hstill : ∀ d ∈ cfg.cqs, d ≠ c → cfg.OwnEventfds → w.host.rings.pending d ≠ [] →
      w.owed d ≠ 0 ∨ ∃ count, w.ifc.count (cfg.vector d) = some count ∧ count ≠ 0 :=
    fun d hd hdc hown hp => (h.awake hown d hd hp).signalled fun he =>
      hdc (Option.some.inj (hold.symm.trans he)).symm
  rcases hcompletes.getCompletion (h.get_draining hc) with
    ⟨hmatch, hok⟩ | ⟨hmatch, host', i, value, hok, hqm, hrings⟩
  · -- none is left
    obtain ⟨rfl, rfl⟩ := Prod.mk.inj (hget.symm.trans hok)
    refine ⟨h.fds, h.trigger, h.queueMgr, h.queues, hmembers, fun hown d hd hp => ?_⟩
    by_cases hdc : d = c
    · rw [hdc] at hp
      rw [(h.queues.phaseMatch_iff hc).mpr hp] at hmatch
      exact absurd hmatch (by simp)
    · rcases hstill d hd hdc hown hp with howed | hcount
      · exact Or.inl howed
      · exact Or.inr (Or.inl hcount)
  · -- one is completed, and the host goes on
    obtain ⟨rfl, rfl⟩ := Prod.mk.inj (hget.symm.trans hok)
    obtain ⟨hq, hothers⟩ := h.queues.consume hc hmatch i value
    refine ⟨h.fds, h.trigger, by dsimp only; rw [hqm]; exact h.queueMgr,
      by dsimp only; rw [hrings]; exact hq, hmembers, fun hown d hd hp => ?_⟩
    by_cases hdc : d = c
    · exact Or.inr (Or.inr (by rw [hnew, if_pos rfl, hdc]))
    · dsimp only at hp
      rw [hrings, hothers d hdc] at hp
      rcases hstill d hd hdc hown hp with howed | hcount
      · exact Or.inl howed
      · exact Or.inr (Or.inl hcount)

theorem Inv.hostStep (h : Inv cfg w) {stop : Bool} {dataIn : Except Exc (List (BitVec 8))}
    (hcompletes : Completes w (.host stop dataIn)) (hs : w.hostStep stop dataIn = some w') :
    Inv cfg w' := by
  obtain ⟨pc, hqueues, hcases⟩ := hostStep_cases hs
  have hmembers : ∀ x ∈ pc.queues, ∃ c ∈ cfg.cqs, x = some c := fun x hx => h.members x (hqueues x hx)
  rcases hcases with ⟨hold, _, rfl⟩ | ⟨c, vector, count, ifc, hold, hc, hvec, hread, hnew, rfl⟩
    | ⟨c, host, result, hold, hc, hget, hnew, rfl⟩
  · exact h.moved hmembers hold
  · obtain ⟨_, hcc, he⟩ := h.members _ hc
    obtain rfl := Option.some.inj he
    rw [(h.queues.hostAt c hcc).2.2] at hvec
    obtain rfl := Option.some.inj hvec
    exact h.readCount hmembers hold hcc hread hnew
  · obtain ⟨_, hcc, he⟩ := h.members _ hc
    obtain rfl := Option.some.inj he
    rw [(h.queues.hostAt c hcc).1] at hget
    exact h.looked hmembers hold hcc (hcompletes c hold) hget hnew

theorem inv_step {a : MsixOp} (h : Inv cfg w) (hok : Completes w a)
    (hs : step cfg w a = some w') : Inv cfg w' := by
  cases a with
  | post c cqe =>
      obtain ⟨hc, hp⟩ := Option.ite_none_right_eq_some.mp hs
      obtain ⟨rings, hpost, rfl⟩ := Option.map_eq_some_iff.mp hp
      exact h.post hc hpost
  | signal c =>
      obtain ⟨_, he⟩ := Option.ite_none_right_eq_some.mp hs
      obtain rfl := Option.some.inj he
      exact h.signal
  | startCmd k sqid cqid =>
      unfold step at hs
      dsimp only at hs
      split at hs
      · obtain rfl := Option.some.inj hs
        exact h.startCmd k sqid cqid
      · exact absurd hs (by simp)
  | call cqids maxCompletions =>
      unfold step at hs
      dsimp only at hs
      split at hs
      · rename_i result hpc
        obtain rfl := Option.some.inj hs
        refine ⟨h.fds, h.trigger, h.queueMgr, h.queues, ?_, fun hown c hc hp => ?_⟩
        · intro x hx
          dsimp only at hx
          split at hx
          · exact absurd hx (by simp [MsixPc.queues])
          · exact mem_cqsFor h.queueMgr cqids x (by simpa [MsixPc.queues] using hx)
        · rcases (h.awake hown c hc hp).signalled (by rw [hpc]; simp [MsixPc.draining])
            with howed | hcount
          · exact Or.inl howed
          · exact Or.inr (Or.inl hcount)
      · exact absurd hs (by simp)
  | host stop dataIn => exact h.hostStep hok hs

theorem inv_reachableBy (h : (machine cfg).ReachableBy Completes w) : Inv cfg w :=
  Machine.ReachableBy.invariant (I := Inv cfg) (fun _ h0 => inv_init h0)
    (fun _ _ _ _ hi hok hs => inv_step hi hok hs) h

/-- **Enough.** With an eventfd for each queue no wakeup is lost. -/
theorem noLostWakeup_of_own (hown : cfg.OwnEventfds) (h : (machine cfg).ReachableBy Completes w) :
    NoLostWakeup cfg w := by
  rintro ⟨result, hpc⟩ howed c hc hp
  rcases (inv_reachableBy h).awake hown c hc hp with hne | hcount | hdrain
  · exact absurd (howed c) hne
  · exact hcount
  · rw [hpc] at hdrain
    exact absurd hdrain (by simp [MsixPc.draining])

/-! ### Where a wakeup is lost -/

/-- A manager of the configured pairs. -/
theorem exists_serves (cfg : MsixConfig) :
    ∃ queues, NVMeDeviceCommon.Serves cfg.toRingsConfig queues := by
  let pair : Nat → (Nat × Nat) × (Option Nat × Option Nat) :=
    fun i => ((i, cfg.cqOf i), (some i, some (cfg.cqOf i)))
  refine ⟨⟨cfg.sqs.toList.map pair, ?_⟩, fun k v => ?_⟩
  · rw [List.map_map]
    exact List.Nodup.map (fun _ _ he => (Prod.mk.inj he).1) cfg.sqs.nodup_toList
  · rw [List.mem_map]
    constructor
    · rintro ⟨i, hi, he⟩
      obtain ⟨rfl, rfl⟩ := Prod.mk.inj he
      exact ⟨Finset.mem_toList.mp hi, rfl, rfl⟩
    · obtain ⟨i, c⟩ := k
      rintro ⟨hi, hc, rfl⟩
      dsimp only at hc
      subst hc
      exact ⟨i, Finset.mem_toList.mpr hi, rfl⟩

/-- Fresh queues right after `init_msix_interrupts`, and no command outstanding. -/
theorem exists_init (cfg : MsixConfig) :
    ∃ w, Init cfg w ∧ w.pc = .idle (.ok 0) ∧ w.host.outstandingCommands = Dict.empty := by
  obtain ⟨queues, hserves⟩ := exists_serves cfg
  let rings : Rings := { Rings.start cfg.toRingsConfig with
    hostCq := fun c => { (Rings.start cfg.toRingsConfig).hostCq c with
      intVector := some (cfg.vector c) } }
  refine ⟨{ ifc := _
            host :=
              { cidMgr := {}
                queueMgr := { nvmeQueues := queues }
                outstandingCommands := Dict.empty
                commands := fun _ => {}
                rings }
            owed := fun _ => 0
            pc := .idle (.ok 0) },
    ⟨if_neg (Nat.not_lt.mpr cfg.numVectors_le), hserves, ?_, fun _ _ => rfl, fun _ => rfl, _, rfl⟩,
    rfl, rfl⟩
  refine ⟨fun _ _ => ⟨rfl, rfl, rfl⟩, fun _ _ => ⟨rfl, rfl⟩, fun c hc => ?_⟩
  obtain ⟨i, hi, rfl⟩ := Finset.mem_image.mp hc
  exact CqInv.init (cfg.cqEntries_pos i hi) rfl rfl rfl rfl fun _ _ => rfl

/-- A completion is posted to a fresh queue and signalled. -/
theorem exists_signalled (hc : c ∈ cfg.cqs) (hroom : 2 ≤ cfg.cqEntries c) :
    ∃ w ifc, (machine cfg).ReachableBy Completes w ∧ w.pc = .idle (.ok 0) ∧ (∀ d, w.owed d = 0)
      ∧ w.host.rings.pending c ≠ [] ∧ (∀ d ∈ cfg.cqs, d ≠ c → w.host.rings.pending d = [])
      ∧ w.host.outstandingCommands = Dict.empty
      ∧ SysVfioIfc.enableMsix {} cfg.numVectors cfg.start = .ok ifc
      ∧ w.ifc = ifc.signal (cfg.iv c) := by
  obtain ⟨w, hinit, hpc, hout⟩ := exists_init cfg
  have hempty := hinit.empty c hc
  obtain ⟨rings, hpost⟩ := hinit.queues.post_room hc (by rw [hempty, List.length_nil]; omega) {}
  obtain ⟨_, hp, hothers⟩ := hinit.queues.post hc hpost
  -- post one completion from the first state, and signal it before the host looks
  let posted : MsixWorld := { w with
    host := { w.host with rings }
    owed := Function.update w.owed c (w.owed c + 1) }
  have hstep : step cfg w (.post c {}) = some posted := by
    rw [step, if_pos hc, hpost]
    rfl
  have howed : posted.owed c = 1 := by
    show Function.update w.owed c (w.owed c + 1) c = 1
    rw [Function.update_self, hinit.owed c]
  have hsignal : step cfg posted (.signal c) = some { posted with
      ifc := posted.ifc.signal (cfg.iv c)
      owed := Function.update posted.owed c (posted.owed c - 1) } := by
    rw [step, if_pos (by omega)]
  have h₁ : (machine cfg).ReachableBy Completes posted :=
    .tail (.init hinit) (a := .post c {}) trivial hstep
  refine ⟨_, w.ifc, .tail h₁ (a := .signal c) trivial hsignal, hpc, fun d => ?_, hp,
    fun d hd hdc => (hothers d hdc).trans (hinit.empty d hd), hout, hinit.ifc, rfl⟩
  dsimp only
  by_cases hdc : d = c
  · subst hdc
    rw [Function.update_self, howed]
  · rw [Function.update_of_ne hdc]
    exact (Function.update_of_ne hdc _ _).trans (hinit.owed d)

/-- **Needed: the index.** The eventfd the host reads is the one whose count the kernel raises. -/
theorem index_of_noLostWakeup (h : ∀ w, (machine cfg).ReachableBy Completes w → NoLostWakeup cfg w)
    (hc : c ∈ cfg.cqs) (hroom : 2 ≤ cfg.cqEntries c) :
    ∃ fd, cfg.fd c = some fd ∧ cfg.iv c = cfg.start + fd := by
  obtain ⟨w, ifc, hr, hpc, howed, hp, _, _, henable, hifc⟩ := exists_signalled hc hroom
  obtain ⟨count, hcount, hne⟩ := h w hr ⟨_, hpc⟩ howed c hc hp
  obtain ⟨fd, hfd, _⟩ := SysVfioIfc.position_of_count hcount
  rw [(inv_reachableBy hr).fds] at hfd
  refine ⟨fd, hfd, ?_⟩
  by_contra hiv
  -- the signal goes elsewhere, and the count the host reads is still zero
  unfold SysVfioIfc.enableMsix at henable
  rw [if_neg (Nat.not_lt.mpr cfg.numVectors_le)] at henable
  have henable := Except.ok.inj henable
  have hlen : ifc.eventfds = List.replicate cfg.numVectors 0 := by
    rw [← henable]
    rfl
  have hposition : indexPosition ifc.eventfds.length (cfg.vector c) = some fd := by
    rw [hlen, List.length_replicate]
    exact hfd
  rw [hifc, SysVfioIfc.count_signal_of_ne hposition, SysVfioIfc.count_eq hposition, hlen,
    List.getElem?_replicate_of_lt (indexPosition_lt hfd)] at hcount
  · exact hne (Option.some.inj hcount).symm
  · intro htrigger
    rw [← henable] at htrigger
    obtain ⟨hin, he⟩ := Option.ite_none_right_eq_some.mp htrigger
    have he := Option.some.inj he
    rw [List.length_nil] at he
    omega

/-- A call for one queue reads its eventfd. -/
theorem exists_reading (h : (machine cfg).ReachableBy Completes w) (hpc : w.pc = .idle (.ok 0))
    (hc : c ∈ cfg.cqs) {count : Nat} (hcount : w.ifc.count (cfg.vector c) = some count)
    (hne : count ≠ 0) : (machine cfg).ReachableBy Completes { w with
      ifc := w.ifc.cleared (cfg.vector c)
      pc := .drain [some c] c [] 0 0 } := by
  have hinv := inv_reachableBy h
  have hcall : step cfg w (.call (some c) 0) = some { w with pc := .scan [some c] [some c] 0 0 } := by
    unfold step
    rw [hpc]
    dsimp only
    rw [cqsFor_some hinv.queueMgr hc, if_neg (by simp)]
  have hread : step cfg { w with pc := .scan [some c] [some c] 0 0 } (.host false (.ok []))
      = some { w with ifc := w.ifc.cleared (cfg.vector c), pc := .drain [some c] c [] 0 0 } := by
    unfold step hostStep
    dsimp only
    rw [(hinv.queues.hostAt c hc).2.2]
    dsimp only
    unfold SysVfioIfc.getMsixVectorPendingCount
    rw [hcount]
    dsimp only
    rw [if_neg hne]
  refine .tail (.tail h (a := .call (some c) 0) trivial hcall) (a := .host false (.ok [])) ?_ hread
  exact fun d hd => absurd hd (by simp [MsixPc.draining])

/-- **Needed: no sharing.** A call for the other queue eats the count. -/
theorem alone_of_noLostWakeup (h : ∀ w, (machine cfg).ReachableBy Completes w → NoLostWakeup cfg w)
    {c' fd : Nat} (hc : c ∈ cfg.cqs) (hroom : 2 ≤ cfg.cqEntries c) (hc' : c' ∈ cfg.cqs)
    (hfd : cfg.fd c = some fd) (hshared : cfg.fd c' = some fd) : c' = c := by
  by_contra hne
  obtain ⟨w, ifc, hr, hpc, howed, hp, hothers, _, _, _⟩ := exists_signalled hc hroom
  have hinv := inv_reachableBy hr
  obtain ⟨count, hcount, hne0⟩ := h w hr ⟨_, hpc⟩ howed c hc hp
  have hposition : indexPosition w.ifc.eventfds.length (cfg.vector c) = some fd := by
    rw [hinv.fds]
    exact hfd
  have hposition' : indexPosition w.ifc.eventfds.length (cfg.vector c') = some fd := by
    rw [hinv.fds]
    exact hshared
  have hcount' : w.ifc.count (cfg.vector c') = some count := by
    rw [SysVfioIfc.count_eq hposition', ← SysVfioIfc.count_eq hposition]
    exact hcount
  -- the host reads the count for the other queue, finds that queue empty and returns
  have h₁ := exists_reading hr hpc hc' hcount' hne0
  have hmatch : w.host.rings.phaseMatch c' = false := by
    rw [Bool.eq_false_iff, Ne, hinv.queues.phaseMatch_iff hc', not_not]
    exact hothers c' hc' hne
  have hcompletes : Completes { w with
      ifc := w.ifc.cleared (cfg.vector c')
      pc := .drain [some c'] c' [] 0 0 } (.host false (.ok [])) := by
    intro d hd hd'
    obtain rfl := Option.some.inj hd
    exact absurd (hmatch.symm.trans hd') (by simp)
  obtain ⟨_, hget⟩ : w.host.rings.phaseMatch c' = false
      ∧ w.host.getCompletion c' (.ok []) = (w.host, .ok false) := by
    rcases (hcompletes c' rfl).getCompletion (hinv.get_draining hc') with hnone | ⟨hm, _⟩
    · exact hnone
    · exact absurd (hmatch.symm.trans hm) (by simp)
  have hempty : step cfg { w with
      ifc := w.ifc.cleared (cfg.vector c')
      pc := .drain [some c'] c' [] 0 0 } (.host false (.ok [])) = some { w with
        ifc := w.ifc.cleared (cfg.vector c')
        pc := .scan [some c'] [] 0 0 } := by
    unfold step hostStep
    dsimp only
    rw [(hinv.queues.hostAt c' hc').1, hget]
  have h₂ := Machine.ReachableBy.tail h₁ hcompletes hempty
  have h₃ : (machine cfg).ReachableBy Completes { w with
      ifc := w.ifc.cleared (cfg.vector c')
      pc := .idle (.ok 0) } :=
    .tail h₂ (a := .host false (.ok [])) (fun d hd => absurd hd (by simp [MsixPc.draining])) rfl
  obtain ⟨count', hlast, hne'⟩ := h _ h₃ ⟨_, rfl⟩ howed c hc hp
  dsimp only at hlast
  rw [SysVfioIfc.count_cleared_self hposition' hposition] at hlast
  exact hne' (Option.some.inj hlast).symm

/--
**When interrupts lose no wakeup.** In all runs in which the host can complete what it finds,
exactly when every queue that can hold a completion has an eventfd to itself.

Reading an eventfd clears it, whatever it counted, while only one queue is drained after it. An
exception on the way has the same effect, since the entry stays and the count is gone.
-/
theorem noLostWakeup_iff (cfg : MsixConfig) :
    (∀ w, (machine cfg).ReachableBy Completes w → NoLostWakeup cfg w) ↔ cfg.OwnEventfds := by
  refine ⟨fun h c hc hroom => ?_, fun hown w hr => noLostWakeup_of_own hown hr⟩
  obtain ⟨fd, hfd, hiv⟩ := index_of_noLostWakeup h hc hroom
  exact ⟨fd, hfd, hiv, fun c' hc' hshared => alone_of_noLostWakeup h hc hroom hc' hfd hshared⟩

/--
**And where it cannot**, any configuration loses one, as soon as a queue can hold a completion:
`get_completion` raises with the eventfd cleared, and leaves the entry on the queue.
-/
theorem lost_of_raise (hc : c ∈ cfg.cqs) (hroom : 2 ≤ cfg.cqEntries c) :
    ∃ w, (machine cfg).Reachable w ∧ ¬ NoLostWakeup cfg w := by
  obtain ⟨w, ifc, hr, hpc, howed, hp, _, hout, _, _⟩ := exists_signalled hc hroom
  have hinv := inv_reachableBy hr
  by_cases hnoticed : ∃ count, w.ifc.count (cfg.vector c) = some count ∧ count ≠ 0
  · obtain ⟨count, hcount, hne⟩ := hnoticed
    have h₁ := (exists_reading hr hpc hc hcount hne).reachable
    -- the entry is for no command the host knows
    obtain ⟨sq, hget⟩ := hinv.get_draining hc
    obtain ⟨e, hraise⟩ : ∃ e, w.host.getCompletion c (.ok []) = (w.host, .error e) := by
      unfold NVMeDeviceCommon.getCompletion
      rw [hget]
      dsimp only
      rw [(hinv.queues.phaseMatch_iff hc).mpr hp, if_pos rfl, hout]
      exact ⟨_, rfl⟩
    have hstep : step cfg { w with
        ifc := w.ifc.cleared (cfg.vector c)
        pc := .drain [some c] c [] 0 0 } (.host false (.ok [])) = some { w with
          ifc := w.ifc.cleared (cfg.vector c)
          pc := .idle (.error e) } := by
      unfold step hostStep
      dsimp only
      rw [(hinv.queues.hostAt c hc).1, hraise]
    refine ⟨_, h₁.next (a := .host false (.ok [])) hstep, fun hno => ?_⟩
    obtain ⟨count', hcount', hne'⟩ := hno ⟨_, rfl⟩ howed c hc hp
    dsimp only at hcount'
    obtain ⟨fd, hfd, _⟩ := SysVfioIfc.position_of_count hcount
    rw [SysVfioIfc.count_cleared_self hfd hfd] at hcount'
    exact hne' (Option.some.inj hcount').symm
  · exact ⟨w, hr.reachable, fun hno => hnoticed (hno ⟨_, hpc⟩ howed c hc hp)⟩

/-- One vector, and an IO queue on vector `1`, which passes the check. -/
def oneVector : MsixConfig where
  sqs := {1, 0}
  cqOf i := i
  sqEntries _ := 2
  cqEntries _ := 2
  sqBase i := i
  cqBase c := c
  sqEntries_pos := by decide
  cqEntries_pos := by decide
  sqEntries_le := by decide
  cqEntries_le := by decide
  sqid_lt := by decide
  sqBase_inj := by decide
  cqBase_inj := by decide
  numVectors := 1
  start := 0
  vector c := c
  numVectors_le := by decide
  admin := by decide
  accepted := by
    intro i hi hne
    obtain rfl : i = 1 := by simpa [hne] using hi
    rfl

/-- The IO queue has no eventfd: its first completion is lost. -/
theorem not_noLostWakeup_oneVector : ¬ ∀ (cfg : MsixConfig) (w : MsixWorld),
    (machine cfg).ReachableBy Completes w → NoLostWakeup cfg w := by
  intro hall
  obtain ⟨fd, hfd, _⟩ := @index_of_noLostWakeup oneVector 1 (hall oneVector) (by decide) (by decide)
  obtain ⟨hvector, hlt⟩ := (indexPosition_eq_some_iff (show 0 ≤ oneVector.vector 1 by decide)).mp hfd
  have hone : (1 : Int) = fd := hvector
  have hnone : fd < 1 := hlt
  omega

end MsixWorld

end LoneNvme
