import LoneNvme.Complete
import LoneNvme.Lib.Fifo
import LoneNvme.Lib.Lists

/-!
# The submission ring

Three positions move around one ring: the shared tail, the simulator's private
head, and the host's private head. The last one only learns where the simulator
stood from the `SQHD` of a consumed completion, so it lags.

`SqInv` orders the absolute counters behind them, `acked ≤ fetched ≤ posted`, with
`posted` less than a lap ahead of `acked`. The slot of a command is then safe from
the fetch until the host has seen its completion, which is what lets `get_command`
hand out a view of ring memory instead of a copy.
-/

namespace LoneNvme

open Lib

/-- Ring memory, doorbell, the two queue objects, and the counters of the history. -/
structure SqInv (n : Nat) (ring : Nat → Generic) (sqtail : Nat) (host sim : NVMeSubmissionQueue)
    (posted : List Generic) (fetched acked : Nat) : Prop where
  hostEntries : host.entries = n
  simEntries : sim.entries = n
  /-- The doorbell counts the posts. -/
  tail : sqtail = posted.length % n
  /-- The simulator's head counts the fetches. -/
  simHead : sim.head = fetched % n
  /-- The host's head is where the simulator stood at the last completion it consumed. -/
  hostHead : host.head = acked % n
  ackLe : acked ≤ fetched
  fetchLe : fetched ≤ posted.length
  /-- One slot stays free, as the host sees it. -/
  gap : posted.length < acked + n
  /-- Every slot holds the last command posted into it. -/
  logged : Ring.Logged n ring posted

namespace SqInv

variable {n : Nat} {ring ring' : Nat → Generic} {sqtail sqtail' fetched acked : Nat}
  {host sim sim' : NVMeSubmissionQueue} {posted : List Generic} {command : Generic}

theorem init (hn : 0 < n) (hhe : host.entries = n) (hse : sim.entries = n) (hh : host.head = 0)
    (hs : sim.head = 0) (ring : Nat → Generic) : SqInv n ring 0 host sim [] 0 0 where
  hostEntries := hhe
  simEntries := hse
  tail := (Nat.zero_mod n).symm
  simHead := by rw [hs]; exact (Nat.zero_mod n).symm
  hostHead := by rw [hh]; exact (Nat.zero_mod n).symm
  ackLe := Nat.le_refl 0
  fetchLe := Nat.le_refl 0
  gap := by rw [List.length_nil]; omega
  logged := Ring.logged_nil n ring

theorem pos (h : SqInv n ring sqtail host sim posted fetched acked) : 0 < n := by
  have := h.ackLe; have := h.fetchLe; have := h.gap; omega

/-- **`SQ FULL` fires exactly when `n - 1` posts are not acknowledged.** -/
theorem isFull_iff (h : SqInv n ring sqtail host sim posted fetched acked) :
    host.isFull sqtail = true ↔ posted.length + 1 = acked + n := by
  rw [NVMeSubmissionQueue.isFull, h.hostEntries, h.tail, h.hostHead]
  exact NVMeQueue.isFull_window (Nat.le_trans h.ackLe h.fetchLe) h.gap

/-- What the simulator takes for the number of commands in the queue. -/
theorem sim_numEntries (h : SqInv n ring sqtail host sim posted fetched acked) :
    sim.numEntries sqtail = ((posted.length - fetched : Nat) : Int) := by
  rw [NVMeSubmissionQueue.numEntries, h.simEntries, h.tail, h.simHead]
  have := h.ackLe; have := h.gap
  exact NVMeQueue.numEntries_window h.fetchLe (by omega)

/-- The slot of a command the host has not seen completed still holds it. -/
theorem slot (h : SqInv n ring sqtail host sim posted fetched acked) {k : Nat}
    (hk : k < posted.length) (hack : acked ≤ k) : ring (k % n) = posted[k] := by
  have := h.gap
  exact h.logged k hk (by omega)

/-- **A post that passes the assertion** appends its command. -/
theorem post (h32 : n ≤ 2 ^ 32) (h : SqInv n ring sqtail host sim posted fetched acked)
    (hok : host.postCommand sqtail ring command = .ok (sqtail', ring')) :
    SqInv n ring' sqtail' host sim (posted ++ [command]) fetched acked := by
  have hn := h.pos
  have hnf := NVMeSubmissionQueue.postCommand_room hok
  have hroom : posted.length + 1 ≠ acked + n := fun he => by
    rw [← h.isFull_iff, hnf] at he; exact absurd he (by simp)
  rw [NVMeSubmissionQueue.postCommand_ok hnf, h.hostEntries, h.tail,
    NVMeHeadTail.advance_mod hn h32] at hok
  injection hok with hok
  injection hok with htail hring
  subst htail hring
  have hlen : (posted ++ [command]).length = posted.length + 1 := by
    rw [List.length_append, List.length_singleton]
  refine ⟨h.hostEntries, h.simEntries, by rw [hlen], h.simHead, h.hostHead, h.ackLe, ?_, ?_,
    h.logged.push _⟩
  · have := h.fetchLe; omega
  · have := h.gap; omega

/-- The simulator finds a command exactly when one is posted and not fetched. -/
theorem getCommand_none_iff (h : SqInv n ring sqtail host sim posted fetched acked) :
    sim.getCommand sqtail = none ↔ posted.length = fetched := by
  have hle := h.fetchLe
  rw [NVMeSubmissionQueue.getCommand, h.sim_numEntries]
  split
  · rename_i h0; exact iff_of_true rfl (by omega)
  · rename_i h0; exact iff_of_false (by simp) (by omega)

/-- **A fetch** yields a view of the slot of the next command, in posted order. -/
theorem fetch (h32 : n ≤ 2 ^ 32) (h : SqInv n ring sqtail host sim posted fetched acked)
    {slot : Nat} (hok : sim.getCommand sqtail = some (slot, sim')) :
    fetched < posted.length ∧ slot = fetched % n ∧ sim'.qid = sim.qid
      ∧ sim'.baseAddress = sim.baseAddress ∧ SqInv n ring sqtail host sim' posted (fetched + 1) acked := by
  have hn := h.pos
  have hle := h.fetchLe
  have hne : posted.length ≠ fetched := fun he => by
    rw [h.getCommand_none_iff.mpr he] at hok; exact absurd hok (by simp)
  rw [NVMeSubmissionQueue.getCommand] at hok
  split at hok
  · exact absurd hok (by simp)
  · injection hok with hok
    injection hok with hslot hsim
    subst hslot hsim
    have hlt : fetched < posted.length := by omega
    refine ⟨hlt, h.simHead, rfl, rfl, h.hostEntries, h.simEntries, h.tail, ?_, h.hostHead, ?_, hlt,
      h.gap, h.logged⟩
    · rw [h.simEntries, h.simHead, NVMeHeadTail.advance_mod hn h32]
    · have := h.ackLe; omega

/-- **Consuming a completion** moves the host's head to a position the simulator reached. -/
theorem ack (h32 : n ≤ 2 ^ 32) (h : SqInv n ring sqtail host sim posted fetched acked)
    {value acked' : Nat} (hv : value = acked' % n) (hle : acked ≤ acked')
    (hf : acked' ≤ fetched) :
    SqInv n ring sqtail (host.setHead value) sim posted fetched acked' := by
  have hlt : acked' % n < n := Nat.mod_lt _ h.pos
  refine ⟨h.hostEntries, h.simEntries, h.tail, h.simHead, ?_, hf, h.fetchLe, ?_, h.logged⟩
  · show u32 value = acked' % n
    rw [hv, u32_of_lt (by omega)]
  · have := h.gap; omega

end SqInv

/-! ## Completions on their way back -/

/--
The completions the host has not consumed, oldest first: each carries the position
the simulator's head had after the next command in turn.
-/
def Flight (n : Nat) (flight : List CQE) (acked : Nat) : Prop :=
  ∀ (j : Nat) (h : j < flight.length), (flight[j]).SQHD.toNat = (acked + j + 1) % n

namespace Flight

variable {n acked : Nat} {flight : List CQE} {cqe : CQE}

theorem nil (n acked : Nat) : Flight n [] acked := fun _ h => absurd h (Nat.not_lt_zero _)

/-- The next completion joins at the end. -/
theorem push (h : Flight n flight acked) (hq : cqe.SQHD.toNat = (acked + flight.length + 1) % n) :
    Flight n (flight ++ [cqe]) acked := by
  intro j hj
  rw [List.length_append, List.length_singleton] at hj
  rcases Nat.lt_or_ge j flight.length with hlt | hge
  · rw [List.getElem_append_left hlt]; exact h j hlt
  · have : j = flight.length := by omega
    subst this
    rw [List.getElem_concat_length rfl]; exact hq

/-- The oldest one carries the position right after the last acknowledged one. -/
theorem head (h : Flight n (cqe :: flight) acked) : cqe.SQHD.toNat = (acked + 1) % n :=
  h 0 (Nat.zero_lt_succ _)

theorem pop (h : Flight n (cqe :: flight) acked) : Flight n flight (acked + 1) := by
  intro j hj
  have := h (j + 1) (Nat.succ_lt_succ hj)
  rw [List.getElem_cons_succ] at this
  rw [this]; congr 1; omega

end Flight

/-! ## Every interleaving of host and simulator -/

/-- Whether the simulator is between a fetch and the completion of what it fetched. -/
inductive SqPc where
  | idle
  /-- A handler runs on a view of this slot. -/
  | fetched (slot : Nat)
  deriving DecidableEq, Repr

/-- How many fetched commands a handler holds. -/
def SqPc.held : SqPc → Nat
  | .idle => 0
  | .fetched _ => 1

/-- One submission queue, its two users, and the history of what crossed it. -/
structure SqWorld where
  ring : Nat → Generic
  sqtail : Nat
  host : NVMeSubmissionQueue
  sim : NVMeSubmissionQueue
  pc : SqPc
  /-- Completions posted and not consumed, oldest first. -/
  completions : List CQE
  /-- Every command posted. -/
  posted : List Generic
  /-- What the simulator saw through each view when it got it. -/
  fetched : List Generic
  /-- How many completions the host has consumed. -/
  consumed : Nat

/-- The atomic steps of the two sides. -/
inductive SqOp where
  | post (command : Generic)
  | fetch
  | complete (statusCode : Nat)
  | consume

namespace SqWorld

def step (w : SqWorld) : SqOp → Option SqWorld
  | .post command =>
      match w.host.postCommand w.sqtail w.ring command with
      | .ok (sqtail, ring) => some { w with sqtail, ring, posted := w.posted ++ [command] }
      | .error _ => none
  | .fetch =>
      match w.pc, w.sim.getCommand w.sqtail with
      | .idle, some (slot, sim) =>
          some { w with sim, pc := .fetched slot, fetched := w.fetched ++ [w.ring slot] }
      | _, _ => none
  | .complete statusCode =>
      match w.pc with
      | .fetched slot => some { w with
          completions := w.completions ++
            [NVSimCmdHandlerInterface.completionEntry (w.ring slot).CID w.sim statusCode]
          pc := .idle }
      | .idle => none
  | .consume =>
      match w.completions with
      | cqe :: completions => some { w with
          host := w.host.setHead cqe.SQHD.toNat, completions, consumed := w.consumed + 1 }
      | [] => none

/-! ### What each step can do -/

theorem step_post {w w' : SqWorld} {command : Generic} (h : w.step (.post command) = some w') :
    ∃ sqtail ring, w.host.postCommand w.sqtail w.ring command = .ok (sqtail, ring)
      ∧ w' = { w with sqtail, ring, posted := w.posted ++ [command] } := by
  rw [step] at h
  split at h
  · rename_i sqtail ring hok
    exact ⟨sqtail, ring, hok, (Option.some.inj h).symm⟩
  · exact absurd h (by simp)

theorem step_fetch {w w' : SqWorld} (h : w.step .fetch = some w') :
    ∃ slot sim, w.pc = .idle ∧ w.sim.getCommand w.sqtail = some (slot, sim)
      ∧ w' = { w with sim, pc := .fetched slot, fetched := w.fetched ++ [w.ring slot] } := by
  rw [step] at h
  split at h
  · rename_i slot sim hpc hget
    exact ⟨slot, sim, hpc, hget, (Option.some.inj h).symm⟩
  · exact absurd h (by simp)

theorem step_complete {w w' : SqWorld} {statusCode : Nat}
    (h : w.step (.complete statusCode) = some w') :
    ∃ slot, w.pc = .fetched slot ∧ w' = { w with
      completions := w.completions ++
        [NVSimCmdHandlerInterface.completionEntry (w.ring slot).CID w.sim statusCode]
      pc := .idle } := by
  rw [step] at h
  split at h
  · rename_i slot hpc
    exact ⟨slot, hpc, (Option.some.inj h).symm⟩
  · exact absurd h (by simp)

theorem step_consume {w w' : SqWorld} (h : w.step .consume = some w') :
    ∃ cqe completions, w.completions = cqe :: completions ∧ w' = { w with
      host := w.host.setHead cqe.SQHD.toNat, completions, consumed := w.consumed + 1 } := by
  rw [step] at h
  split at h
  · rename_i cqe completions hc
    exact ⟨cqe, completions, hc, (Option.some.inj h).symm⟩
  · exact absurd h (by simp)

/-- Two fresh queues of `n` entries over one ring, nothing posted. -/
structure Init (n : Nat) (w : SqWorld) : Prop where
  hostEntries : w.host.entries = n
  simEntries : w.sim.entries = n
  sqtail : w.sqtail = 0
  hostHead : w.host.head = 0
  simHead : w.sim.head = 0
  pc : w.pc = .idle
  completions : w.completions = []
  posted : w.posted = []
  fetched : w.fetched = []
  consumed : w.consumed = 0

/-- The submission queue of `n` entries under every interleaving. -/
def machine (n : Nat) : Machine SqWorld SqOp := ⟨Init n, step⟩

/-- **The invariant of the submission ring.** -/
structure Inv (n : Nat) (w : SqWorld) : Prop where
  cells : SqInv n w.ring w.sqtail w.host w.sim w.posted w.fetched.length w.consumed
  /-- What is fetched is consumed, on its way back, or in the handler's hands. -/
  count : w.fetched.length = w.consumed + w.completions.length + w.pc.held
  flight : Flight n w.completions w.consumed
  /-- The views showed what was posted. -/
  fetched : w.fetched <+: w.posted
  /-- The handler's view is that of the last command fetched. -/
  view : ∀ slot, w.pc = .fetched slot → slot = (w.fetched.length - 1) % n

theorem inv_init {n : Nat} (hn : 0 < n) {w : SqWorld} (h : Init n w) : Inv n w where
  cells := by
    rw [h.sqtail, h.posted, h.fetched, h.consumed]
    exact SqInv.init hn h.hostEntries h.simEntries h.hostHead h.simHead w.ring
  count := by rw [h.fetched, h.consumed, h.completions, h.pc]; rfl
  flight := by rw [h.completions]; exact Flight.nil n w.consumed
  fetched := by rw [h.fetched]; exact List.nil_prefix
  view := fun slot hpc => by rw [h.pc] at hpc; exact absurd hpc (by simp)

/-- The entry answering the command just fetched carries the next position of the flight. -/
theorem Inv.answer {n : Nat} (h16 : n ≤ 2 ^ 16) {w : SqWorld} (h : Inv n w) {slot : Nat}
    (hpc : w.pc = .fetched slot) (cid : BitVec 16) (statusCode : Nat) :
    (NVSimCmdHandlerInterface.completionEntry cid w.sim statusCode).SQHD.toNat
      = (w.consumed + w.completions.length + 1) % n := by
  have hcount := h.count
  rw [hpc, SqPc.held] at hcount
  have hhead := h.cells.simHead
  rw [hcount] at hhead
  have hlt : (w.consumed + w.completions.length + 1) % n < n := Nat.mod_lt _ h.cells.pos
  rw [NVSimCmdHandlerInterface.completionEntry_SQHD (by omega), hhead]

/-- **The invariant is preserved by every step.** -/
theorem inv_step {n : Nat} (h16 : n ≤ 2 ^ 16) {w w' : SqWorld} {a : SqOp} (h : Inv n w)
    (hs : w.step a = some w') : Inv n w' := by
  have h32 : n ≤ 2 ^ 32 := Nat.le_trans h16 (by decide)
  have hc := h.cells
  cases a with
  | post command =>
      obtain ⟨sqtail, ring, hok, rfl⟩ := step_post hs
      exact ⟨hc.post h32 hok, h.count, h.flight, h.fetched.trans (List.prefix_append _ _), h.view⟩
  | fetch =>
      obtain ⟨slot, sim, hpc, hget, rfl⟩ := step_fetch hs
      obtain ⟨hlt, hslot, _, _, hc'⟩ := hc.fetch h32 hget
      have hlen : (w.fetched ++ [w.ring slot]).length = w.fetched.length + 1 := by
        rw [List.length_append, List.length_singleton]
      have hcount := h.count
      rw [hpc, SqPc.held] at hcount
      refine ⟨by rw [hlen]; exact hc', by rw [hlen, SqPc.held, hcount], h.flight, ?_, ?_⟩
      · -- what was fetched is what the host posted there
        have hack := hc.ackLe
        rw [hslot, hc.slot hlt hack]
        exact List.concat_get_prefix h.fetched hlt
      · rintro slot' hpc'
        injection hpc' with he
        subst he
        show slot = ((w.fetched ++ [w.ring slot]).length - 1) % n
        rw [hlen, Nat.add_sub_cancel]
        exact hslot
  | complete statusCode =>
      obtain ⟨slot, hpc, rfl⟩ := step_complete hs
      have hcount := h.count
      rw [hpc, SqPc.held] at hcount
      refine ⟨hc, ?_, h.flight.push (h.answer h16 hpc _ _), h.fetched, ?_⟩
      · rw [List.length_append, List.length_singleton, SqPc.held]; omega
      · intro slot' hpc'; exact absurd hpc' (by simp)
  | consume =>
      obtain ⟨cqe, completions, hcs, rfl⟩ := step_consume hs
      have hcount := h.count
      have hfl := h.flight
      rw [hcs] at hfl
      rw [hcs, List.length_cons] at hcount
      -- the completion carries the head as of its command
      have hack : SqInv n w.ring w.sqtail (w.host.setHead cqe.SQHD.toNat) w.sim w.posted
          w.fetched.length (w.consumed + 1) := hc.ack h32 hfl.head (by omega) (by omega)
      refine ⟨hack, ?_, hfl.pop, h.fetched, h.view⟩
      show w.fetched.length = w.consumed + 1 + completions.length + w.pc.held
      omega

theorem inv_reachable {n : Nat} (hn : 0 < n) (h16 : n ≤ 2 ^ 16) {w : SqWorld}
    (h : (machine n).Reachable w) : Inv n w :=
  Machine.Reachable.invariant (I := Inv n) (fun _ hi => inv_init hn hi)
    (fun _ _ _ _ hi hs => inv_step h16 hi hs) h

/-- **The submission ring is a bounded queue** of capacity `n - 1`, emptied by acknowledgement. -/
theorem simulates_fifo {n : Nat} (hn : 0 < n) (h16 : n ≤ 2 ^ 16) {w : SqWorld}
    (h : (machine n).Reachable w) :
    (Fifo.machine Generic (n - 1)).Reachable ⟨w.posted, w.consumed⟩ := by
  refine Machine.Reachable.simulates (M := machine n) (N := Fifo.machine Generic (n - 1))
    (fun w => ⟨w.posted, w.consumed⟩) ?_ ?_ h
  · intro w hi
    show (⟨w.posted, w.consumed⟩ : Fifo Generic) = ⟨[], 0⟩
    rw [hi.posted, hi.consumed]
  · intro w w' a hr hs
    have hi' := inv_step h16 (inv_reachable hn h16 hr) hs
    cases a with
    | post command =>
        obtain ⟨_, _, _, rfl⟩ := step_post hs
        have hgap : w.posted.length + 1 < w.consumed + n := by
          have := hi'.cells.gap
          rwa [List.length_append, List.length_singleton] at this
        -- the post was possible, so the ring had room by its positions
        have hroom : w.posted.length < w.consumed + (n - 1) := by omega
        exact Or.inr ⟨.push command, if_pos hroom⟩
    | fetch => obtain ⟨_, _, _, _, rfl⟩ := step_fetch hs; exact Or.inl rfl
    | complete statusCode => obtain ⟨_, _, rfl⟩ := step_complete hs; exact Or.inl rfl
    | consume =>
        obtain ⟨_, _, _, rfl⟩ := step_consume hs
        have hlt : w.consumed < w.posted.length :=
          Nat.le_trans hi'.cells.ackLe hi'.cells.fetchLe
        exact Or.inr ⟨.pop, if_pos hlt⟩

/-- What the submission ring promises in a state. -/
structure Faithful (n : Nat) (w : SqWorld) : Prop where
  /-- Nothing is lost, duplicated, reordered or changed. -/
  fetched : w.fetched <+: w.posted
  /-- Through its view a handler still sees the command it fetched. -/
  view : ∀ slot, w.pc = .fetched slot → w.fetched.getLast? = some (w.ring slot)
  /-- `SQ FULL` fires exactly on `n - 1` commands without a consumed completion. -/
  full : w.host.isFull w.sqtail = true ↔ w.posted.length = w.consumed + (n - 1)

/--
**The submission ring is faithful** in every interleaving, for every size whose
positions fit the 16 bits of `SQHD`.

The host learns the simulator's head from completions, so its own head may be old, which only
makes the queue look fuller than it is. With more positions than `SQHD` has values the head it
is told is another position, and an empty queue may look full.
-/
theorem faithful_reachable {n : Nat} (hn : 0 < n) (h16 : n ≤ 2 ^ 16) {w : SqWorld}
    (h : (machine n).Reachable w) : Faithful n w := by
  have hi := inv_reachable hn h16 h
  refine ⟨hi.fetched, ?_, ?_⟩
  · intro slot hpc
    have hcount := hi.count
    rw [hpc, SqPc.held] at hcount
    have hk : w.fetched.length - 1 < w.posted.length := by
      have := hi.cells.fetchLe; omega
    rw [hi.view slot hpc, hi.cells.slot hk (by omega), List.getLast?_eq_getElem?,
      List.getElem?_eq_getElem (by omega)]
    exact congrArg some (hi.fetched.getElem _)
  · rw [hi.cells.isFull_iff]; omega

/-- Two fresh queues of `n` entries over zeroed memory. -/
def start (n : Nat) : SqWorld where
  ring := fun _ => {}
  sqtail := 0
  host := { baseAddress := 0, entries := n, entrySize := 64, qid := 1 }
  sim := { baseAddress := 0, entries := n, entrySize := 64, qid := 1 }
  pc := .idle
  completions := []
  posted := []
  fetched := []
  consumed := 0

theorem init_start (n : Nat) : Init n (start n) :=
  ⟨rfl, rfl, rfl, rfl, rfl, rfl, rfl, rfl, rfl, rfl⟩

theorem faithful_reachable_post :
    ∃ w, (machine 2).run (start 2) [.post { OPC := 1 }, .fetch] = some w
      ∧ w.host.isFull w.sqtail = true ∧ Faithful 2 w :=
  ⟨_, rfl, rfl, faithful_reachable (n := 2) (by decide) (by decide)
    ((Machine.Reachable.start (init_start 2)).run [.post { OPC := 1 }, .fetch] rfl)⟩

/-! ### One entry too many for `SQHD` -/

/-- After `k` rounds of post, fetch, complete and consume on a ring of `65537` entries. -/
structure Lapped (k : Nat) (w : SqWorld) : Prop where
  hostEntries : w.host.entries = 65537
  simEntries : w.sim.entries = 65537
  sqtail : w.sqtail = k
  simHead : w.sim.head = k
  /-- The host's head is what 16 bits kept of the simulator's. -/
  hostHead : w.host.head = k % 65536
  pc : w.pc = .idle
  completions : w.completions = []
  posted : w.posted.length = k
  consumed : w.consumed = k

/-- One more round: while `k` fits 16 bits the queue does not look full. -/
theorem Lapped.round {k : Nat} (hk : k < 65536) {w : SqWorld} (h : Lapped k w) :
    ∃ w', (machine 65537).run w [.post {}, .fetch, .complete 0, .consume] = some w'
      ∧ Lapped (k + 1) w' := by
  have hmod : k % 65536 = k := Nat.mod_eq_of_lt hk
  have hadv : NVMeHeadTail.advance 65537 k = k + 1 := by
    rw [NVMeHeadTail.advance, if_neg (by omega), u32_of_lt (by omega)]
  -- the head has followed the tail, so there is room
  have hroom : w.host.isFull w.sqtail = false := by
    rw [NVMeSubmissionQueue.isFull, h.hostEntries, h.hostHead, h.sqtail, NVMeQueue.isFull,
      NVMeHeadTail.peek, if_neg (by omega), beq_eq_false_iff_ne]
    omega
  have hpost : w.host.postCommand w.sqtail w.ring {} = .ok (k + 1, Function.update w.ring k {}) := by
    rw [NVMeSubmissionQueue.postCommand_ok hroom, h.hostEntries, h.sqtail, hadv]
  have hget : w.sim.getCommand (k + 1) = some (k, { w.sim with head := k + 1 }) := by
    have hnum : w.sim.numEntries (k + 1) ≠ 0 := by
      rw [NVMeSubmissionQueue.numEntries, h.simEntries, h.simHead, NVMeQueue.numEntries]
      split
      · decide
      · rw [if_neg (by omega), if_pos (by omega)]; omega
    simp only [NVMeSubmissionQueue.getCommand, if_neg hnum, h.simEntries, h.simHead, hadv]
  refine ⟨_, by simp only [Machine.run, machine, step, hpost, hget, h.pc, h.completions,
    List.nil_append, Option.bind_some]; rfl, ?_⟩
  refine ⟨h.hostEntries, h.simEntries, rfl, rfl, ?_, rfl, rfl, ?_, ?_⟩
  · show u32 (BitVec.ofNat 16 (k + 1)).toNat = (k + 1) % 65536
    rw [BitVec.toNat_ofNat, u32_of_lt (by omega)]
  · rw [List.length_append, h.posted]; rfl
  · show w.consumed + 1 = k + 1
    rw [h.consumed]

theorem exists_lapped (k : Nat) (hk : k ≤ 65536) :
    ∃ w, (machine 65537).Reachable w ∧ Lapped k w := by
  induction k with
  | zero =>
      exact ⟨start 65537, Machine.Reachable.start (init_start 65537),
        rfl, rfl, rfl, rfl, rfl, rfl, rfl, rfl, rfl⟩
  | succ k ih =>
      obtain ⟨w, hr, hw⟩ := ih (by omega)
      obtain ⟨w', hrun, hw'⟩ := hw.round (by omega)
      exact ⟨w', hr.run _ hrun, hw'⟩

/--
On `65537` entries the host's head wraps with `SQHD`: after `65536` commands, all of
them completed and consumed, the empty queue looks full.
-/
theorem not_faithful_of_65537 :
    ¬ ∀ n, 0 < n → ∀ w, (machine n).Reachable w → Faithful n w := by
  intro hall
  obtain ⟨w, hr, hw⟩ := exists_lapped 65536 (Nat.le_refl _)
  have hfull := (hall 65537 (by decide) w hr).full
  rw [hw.posted, hw.consumed, NVMeSubmissionQueue.isFull, hw.hostEntries, hw.hostHead,
    hw.sqtail] at hfull
  exact absurd (hfull.mp (by decide)) (by decide)

end SqWorld

end LoneNvme
