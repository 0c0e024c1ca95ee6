import LoneNvme.Queues
import LoneNvme.Lib.Fifo
import LoneNvme.Lib.Lists

/-!
# The completion queue phase protocol

The poster and the consumer never exchange a count. The poster inverts whatever
phase bit is stored in the slot it is about to overwrite; the consumer compares
the bit at its head with a phase it toggles when its head returns to slot `0`.

`CqInv` ties the two rules together through absolute counters: item `k` is posted
into slot `k % n` with the phase of lap `k / n`, and the consumer's phase is that of
the lap its head is in. The poster keeps one slot free, so the slot at the tail
always lags a lap behind, and a bit that matches means an item not yet consumed.
-/

namespace LoneNvme

open Lib

/-- The phase bit of the lap that item `k` of a ring of `n` slots falls in. -/
def lapPhase (n k : Nat) : BitVec 1 := if k / n % 2 = 0 then 1 else 0

theorem lapPhase_zero (n : Nat) : lapPhase n 0 = 1 := by
  unfold lapPhase; rw [Nat.zero_div]; rfl

/-- One lap on, the phase is the other one. -/
theorem lapPhase_sub {n k : Nat} (hn : 0 < n) (h : n ≤ k) :
    lapPhase n k = if lapPhase n (k - n) = 1 then 0 else 1 := by
  have hlap := Ring.lap_sub h hn
  unfold lapPhase
  rcases Nat.mod_two_eq_zero_or_one ((k - n) / n) with hp | hp <;> simp [hlap, Nat.add_mod, hp]

theorem lapPhase_of_lt {n k : Nat} (h : k < n) : lapPhase n k = 1 := by
  unfold lapPhase; rw [Nat.div_eq_of_lt h]; rfl

/--
The relation between the shared memory, the two queue objects built over it, and
the history: `posted` is every entry ever posted, `consumed` of them have been consumed.
-/
structure CqInv (n : Nat) (ring : Nat → CQE) (cqhead : Nat) (host sim : NVMeCompletionQueue)
    (posted : List CQE) (consumed : Nat) : Prop where
  hostEntries : host.entries = n
  simEntries : sim.entries = n
  /-- The poster's private tail counts the posts. -/
  tail : sim.tail = posted.length % n
  /-- The shared head counts what has been consumed. -/
  head : cqhead = consumed % n
  /-- The consumer's phase is that of the lap of its head. -/
  phase : host.phase = lapPhase n consumed
  /-- Nothing is consumed before it is posted. -/
  le : consumed ≤ posted.length
  /-- One slot stays free. -/
  gap : posted.length < consumed + n
  /-- Every slot holds the last entry posted into it. -/
  logged : Ring.Logged n ring posted
  /-- Entries carry the phase of their lap. -/
  bits : ∀ (k : Nat) (h : k < posted.length), (posted[k]).SF.P = lapPhase n k
  /-- A slot nobody has posted into still has phase bit `0`. -/
  blank : ∀ j, posted.length ≤ j → j < n → (ring j).SF.P = 0

namespace CqInv

variable {n : Nat} {ring ring' : Nat → CQE} {cqhead consumed : Nat}
  {host sim sim' : NVMeCompletionQueue} {posted : List CQE} {cqe : CQE}

/-- Two fresh queues over a ring whose phase bits are all `0`. -/
theorem init (hn : 0 < n) (hhe : host.entries = n) (hse : sim.entries = n) (ht : sim.tail = 0)
    (hp : host.phase = 1) (hz : ∀ j, j < n → (ring j).SF.P = 0) :
    CqInv n ring 0 host sim [] 0 where
  hostEntries := hhe
  simEntries := hse
  tail := by rw [ht]; exact (Nat.zero_mod n).symm
  head := (Nat.zero_mod n).symm
  phase := by rw [hp, lapPhase_zero]
  le := Nat.le_refl 0
  gap := by rw [List.length_nil]; omega
  logged := Ring.logged_nil n ring
  bits := fun _ h => absurd h (Nat.not_lt_zero _)
  blank := fun j _ hj => hz j hj

theorem pos (h : CqInv n ring cqhead host sim posted consumed) : 0 < n := by
  have := h.le; have := h.gap; omega

/-- The `CQ FULL` assertion fires exactly when `n - 1` entries wait to be consumed. -/
theorem isFull_iff (h : CqInv n ring cqhead host sim posted consumed) :
    sim.isFull cqhead = true ↔ posted.length + 1 = consumed + n := by
  rw [NVMeCompletionQueue.isFull, h.simEntries, h.tail, h.head]
  exact NVMeQueue.isFull_window h.le h.gap

/-- The slot of an entry at most one lap old still holds it. -/
theorem entry (h : CqInv n ring cqhead host sim posted consumed) {k : Nat}
    (hk : k < posted.length) (hlap : posted.length ≤ k + n) : ring (k % n) = posted[k] :=
  h.logged k hk hlap

/-- Inverting the stored bit gives the phase of the lap being written. -/
theorem nextPhase_eq (h : CqInv n ring cqhead host sim posted consumed) :
    NVMeCompletionQueue.nextPhase ring sim.tail = lapPhase n posted.length := by
  have hn := h.pos
  unfold NVMeCompletionQueue.nextPhase
  rw [h.tail]
  rcases Nat.lt_or_ge posted.length n with hlt | hge
  · -- first lap: the slot is blank
    rw [Nat.mod_eq_of_lt hlt, h.blank _ (Nat.le_refl _) hlt, lapPhase_of_lt hlt]
    rfl
  · -- later laps: the slot holds the entry of the lap before
    have hk : posted.length - n < posted.length := by omega
    rw [← Ring.mod_sub hge, h.entry hk (by omega), h.bits _ hk, lapPhase_sub hn hge]

/-- **A post that passes the assertion** appends its entry, with the phase of its lap. -/
theorem post (h32 : n ≤ 2 ^ 32) (h : CqInv n ring cqhead host sim posted consumed)
    (hok : sim.postCompletion cqhead ring cqe = .ok (sim', ring')) :
    CqInv n ring' cqhead host sim' (posted ++ [cqe.setP (lapPhase n posted.length)]) consumed := by
  have hn := h.pos
  have hnf := NVMeCompletionQueue.postCompletion_room hok
  -- the ring is not full, as the source checks before it posts
  have hroom : posted.length + 1 ≠ consumed + n := fun he => by
    rw [← h.isFull_iff, hnf] at he; exact absurd he (by simp)
  rw [NVMeCompletionQueue.postCompletion_ok hnf, h.nextPhase_eq, h.tail, h.simEntries,
    NVMeHeadTail.advance_mod hn h32] at hok
  injection hok with hok
  injection hok with hsim hring
  subst hsim hring
  have hlen : (posted ++ [cqe.setP (lapPhase n posted.length)]).length = posted.length + 1 := by
    rw [List.length_append, List.length_singleton]
  refine ⟨h.hostEntries, rfl, by rw [hlen], h.head, h.phase, ?_, ?_, h.logged.push _, ?_, ?_⟩
  · have := h.le; omega
  · have := h.gap; omega
  · intro k hk
    rw [hlen] at hk
    rcases Nat.lt_or_ge k posted.length with hlt | hge
    · rw [List.getElem_append_left hlt]; exact h.bits k hlt
    · have : k = posted.length := by omega
      subst this
      rw [List.getElem_concat_length rfl, CQE.setP_P]
  · intro j hj hjn
    rw [hlen] at hj
    have hne : j ≠ posted.length % n := by
      rw [Nat.mod_eq_of_lt (by omega)]; omega
    rw [Function.update_of_ne hne]
    exact h.blank j (by omega) hjn

/-- The entry as the post left it in its slot. -/
theorem post_slot (h32 : n ≤ 2 ^ 32) (h : CqInv n ring cqhead host sim posted consumed)
    (hok : sim.postCompletion cqhead ring cqe = .ok (sim', ring')) :
    ring' sim.tail = cqe.setP (lapPhase n posted.length) := by
  have hentry := (h.post h32 hok).entry (k := posted.length) (by simp) (by simp; exact h.pos)
  rw [← h.tail] at hentry
  rw [hentry, List.getElem_concat_length rfl]

/-- **The phase matches exactly when an entry waits.** -/
theorem match_iff (h : CqInv n ring cqhead host sim posted consumed) :
    (ring (host.getNextCompletion cqhead)).SF.P = host.phase ↔ consumed < posted.length := by
  have hn := h.pos
  have hle := h.le
  rw [NVMeCompletionQueue.getNextCompletion, h.head, h.phase]
  rcases Nat.lt_or_ge consumed posted.length with hlt | hge
  · have hgap := h.gap
    rw [h.entry hlt (by omega), h.bits _ hlt]
    exact iff_of_true rfl hlt
  · -- empty: the slot at the head was last written a lap ago, if at all
    have he : consumed = posted.length := by omega
    subst he
    refine iff_of_false ?_ (Nat.lt_irrefl _)
    have hinv := h.nextPhase_eq
    rw [h.tail] at hinv
    rw [← hinv, NVMeCompletionQueue.nextPhase]
    split
    · rename_i h1; rw [h1]; decide
    · rename_i h1; exact h1

/-- The entry the host looks at on a match is the next one in posted order. -/
theorem entry_head (h : CqInv n ring cqhead host sim posted consumed)
    (hlt : consumed < posted.length) :
    ring (host.getNextCompletion cqhead) = posted[consumed] := by
  have := h.gap
  rw [NVMeCompletionQueue.getNextCompletion, h.head]
  exact h.entry hlt (by omega)

/-- **Consuming an entry** moves head and phase on together. -/
theorem consume (h32 : n ≤ 2 ^ 32) (h : CqInv n ring cqhead host sim posted consumed)
    (hlt : consumed < posted.length) :
    CqInv n ring (host.consumeCompletion cqhead).2 (host.consumeCompletion cqhead).1 sim posted
      (consumed + 1) := by
  have hn := h.pos
  have hadv : NVMeHeadTail.advance host.entries cqhead = (consumed + 1) % n := by
    rw [h.hostEntries, h.head, NVMeHeadTail.advance_mod hn h32]
  have hlap := Ring.lap_succ hn consumed
  rw [Ring.next_mod hn] at hlap
  -- the phase turns where the head wraps
  have hphase : (host.consumeCompletion cqhead).1.phase = lapPhase n (consumed + 1) := by
    rw [NVMeCompletionQueue.consumeCompletion, hadv]
    by_cases h0 : (consumed + 1) % n = 0
    · rw [if_pos h0] at hlap
      rw [if_pos h0]
      show (if host.phase = 1 then (0 : BitVec 1) else 1) = _
      rw [h.phase]
      have hpar := Nat.mod_two_eq_zero_or_one (consumed / n)
      unfold lapPhase
      rcases hpar with hp | hp <;> simp [hlap, Nat.add_mod, hp]
    · rw [if_neg h0] at hlap
      rw [if_neg h0]
      show host.phase = _
      rw [h.phase, lapPhase, lapPhase, hlap]
  have hentries : (host.consumeCompletion cqhead).1.entries = n := by
    rw [NVMeCompletionQueue.consumeCompletion]
    dsimp only
    split <;> exact h.hostEntries
  refine ⟨hentries, h.simEntries, h.tail, ?_, hphase, hlt, ?_, h.logged, h.bits, h.blank⟩
  · exact hadv
  · have := h.gap; omega

end CqInv

/-! ## Every interleaving of poster and consumer -/

/-- Where the host is between two looks at its completion queue. -/
inductive CqPc where
  | idle
  /-- The phase matched; the host holds a view of the slot. -/
  | matched (slot : Nat)
  /-- The entry has been copied into `command.cqe`. -/
  | copied (slot : Nat)
  /-- `consume_completion` is done; `SQHD` has still to be read through the view. -/
  | advanced (slot : Nat)
  deriving DecidableEq, Repr

/-- One completion queue, its two users, and the history of what crossed it. -/
structure CqWorld where
  ring : Nat → CQE
  cqhead : Nat
  sim : NVMeCompletionQueue
  host : NVMeCompletionQueue
  pc : CqPc
  /-- Every entry handed to `post_completion`, with the phase bit of its lap. -/
  posted : List CQE
  /-- How often `consume_completion` has run. -/
  consumed : Nat
  /-- The copies the host made, in order. -/
  used : List CQE
  /-- The `SQHD` values the host read after advancing, in order. -/
  sqhds : List (BitVec 16)

/-- The atomic steps of the two sides. -/
inductive CqOp where
  /-- The simulator's `post_completion`. -/
  | post (cqe : CQE)
  /-- `get_next_completion` and the comparison of `SF.P` with the phase. -/
  | look
  | copy
  | consume
  | readSqhd

namespace CqWorld

/-- What the comparison in `get_completion` yields in this state. -/
def phaseMatch (w : CqWorld) : Bool :=
  (w.ring (w.host.getNextCompletion w.cqhead)).SF.P == w.host.phase

/-- The next entry of the history: the one given, of the lap that is due. -/
def logged (w : CqWorld) (cqe : CQE) : CQE := cqe.setP (lapPhase w.sim.entries w.posted.length)

def step (w : CqWorld) : CqOp → Option CqWorld
  | .post cqe =>
      match w.sim.postCompletion w.cqhead w.ring cqe with
      | .ok (sim, ring) => some { w with sim, ring, posted := w.posted ++ [w.logged cqe] }
      | .error _ => none
  | .look =>
      match w.pc with
      | .idle => some (if w.phaseMatch then
          { w with pc := .matched (w.host.getNextCompletion w.cqhead) } else w)
      | _ => none
  | .copy =>
      match w.pc with
      | .matched slot => some { w with used := w.used ++ [w.ring slot], pc := .copied slot }
      | _ => none
  | .consume =>
      match w.pc with
      | .copied slot => some { w with
          host := (w.host.consumeCompletion w.cqhead).1
          cqhead := (w.host.consumeCompletion w.cqhead).2
          consumed := w.consumed + 1
          pc := .advanced slot }
      | _ => none
  | .readSqhd =>
      match w.pc with
      | .advanced slot => some { w with sqhds := w.sqhds ++ [(w.ring slot).SQHD], pc := .idle }
      | _ => none

/-! ### What each step can do -/

theorem step_post {w w' : CqWorld} {cqe : CQE} (h : w.step (.post cqe) = some w') :
    ∃ sim ring, w.sim.postCompletion w.cqhead w.ring cqe = .ok (sim, ring)
      ∧ w' = { w with sim, ring, posted := w.posted ++ [w.logged cqe] } := by
  rw [step] at h
  split at h
  · rename_i sim ring hok
    exact ⟨sim, ring, hok, (Option.some.inj h).symm⟩
  · exact absurd h (by simp)

theorem step_look {w w' : CqWorld} (h : w.step .look = some w') :
    w.pc = .idle ∧ ((w.phaseMatch = false ∧ w' = w)
      ∨ (w.phaseMatch = true
        ∧ w' = { w with pc := .matched (w.host.getNextCompletion w.cqhead) })) := by
  rw [step] at h
  split at h
  · rename_i hpc
    refine ⟨hpc, ?_⟩
    cases hm : w.phaseMatch with
    | false => rw [hm] at h; exact Or.inl ⟨rfl, (Option.some.inj h).symm⟩
    | true => rw [hm] at h; exact Or.inr ⟨rfl, (Option.some.inj h).symm⟩
  · exact absurd h (by simp)

theorem step_copy {w w' : CqWorld} (h : w.step .copy = some w') :
    ∃ slot, w.pc = .matched slot
      ∧ w' = { w with used := w.used ++ [w.ring slot], pc := .copied slot } := by
  rw [step] at h
  split at h
  · rename_i slot hpc
    exact ⟨slot, hpc, (Option.some.inj h).symm⟩
  · exact absurd h (by simp)

theorem step_consume {w w' : CqWorld} (h : w.step .consume = some w') :
    ∃ slot, w.pc = .copied slot
      ∧ w' = { w with
          host := (w.host.consumeCompletion w.cqhead).1
          cqhead := (w.host.consumeCompletion w.cqhead).2
          consumed := w.consumed + 1
          pc := .advanced slot } := by
  rw [step] at h
  split at h
  · rename_i slot hpc
    exact ⟨slot, hpc, (Option.some.inj h).symm⟩
  · exact absurd h (by simp)

theorem step_readSqhd {w w' : CqWorld} (h : w.step .readSqhd = some w') :
    ∃ slot, w.pc = .advanced slot
      ∧ w' = { w with sqhds := w.sqhds ++ [(w.ring slot).SQHD], pc := .idle } := by
  rw [step] at h
  split at h
  · rename_i slot hpc
    exact ⟨slot, hpc, (Option.some.inj h).symm⟩
  · exact absurd h (by simp)

/-- Both queues fresh over a ring of `n` slots whose phase bits are all `0`. -/
structure Init (n : Nat) (w : CqWorld) : Prop where
  hostEntries : w.host.entries = n
  simEntries : w.sim.entries = n
  cqhead : w.cqhead = 0
  simTail : w.sim.tail = 0
  hostPhase : w.host.phase = 1
  blank : ∀ j, j < n → (w.ring j).SF.P = 0
  pc : w.pc = .idle
  posted : w.posted = []
  consumed : w.consumed = 0
  used : w.used = []
  sqhds : w.sqhds = []

/-- The completion queue of `n` entries under every interleaving. -/
def machine (n : Nat) : Machine CqWorld CqOp := ⟨Init n, step⟩

/--
Where the host stands in the history. `used` and `sqhds` are counted against
`consumed`, and a view held across steps is a view of the slot of a known entry.
-/
def PcInv (n : Nat) (w : CqWorld) : Prop :=
  match w.pc with
  | .idle => w.used.length = w.consumed ∧ w.sqhds.length = w.consumed
  | .matched slot => w.used.length = w.consumed ∧ w.sqhds.length = w.consumed
      ∧ slot = w.consumed % n ∧ w.consumed < w.posted.length
  | .copied slot => w.used.length = w.consumed + 1 ∧ w.sqhds.length = w.consumed
      ∧ slot = w.consumed % n ∧ w.consumed < w.posted.length
  | .advanced slot => w.used.length = w.consumed ∧ w.sqhds.length + 1 = w.consumed
      ∧ slot = w.sqhds.length % n

/-- The whole invariant. -/
structure Inv (n : Nat) (w : CqWorld) : Prop where
  cells : CqInv n w.ring w.cqhead w.host w.sim w.posted w.consumed
  at_pc : PcInv n w
  /-- Copies are a prefix of what was posted. -/
  used : w.used <+: w.posted
  /-- Late reads are a prefix of the posted `SQHD`s. -/
  sqhds : w.sqhds <+: w.posted.map CQE.SQHD

theorem inv_init {n : Nat} (hn : 0 < n) {w : CqWorld} (h : Init n w) : Inv n w where
  cells := by
    rw [h.cqhead, h.posted, h.consumed]
    exact CqInv.init hn h.hostEntries h.simEntries h.simTail h.hostPhase h.blank
  at_pc := by rw [PcInv, h.pc, h.used, h.sqhds, h.consumed]; exact ⟨rfl, rfl⟩
  used := by rw [h.used]; exact List.nil_prefix
  sqhds := by rw [h.sqhds]; exact List.nil_prefix

/-- **The invariant is preserved by every step.** -/
theorem inv_step {n : Nat} (h32 : n ≤ 2 ^ 32) {w w' : CqWorld} {a : CqOp} (h : Inv n w)
    (hs : w.step a = some w') : Inv n w' := by
  have hc := h.cells
  have hp := h.at_pc
  have hle := hc.le
  have hgap := hc.gap
  cases a with
  | post cqe =>
      obtain ⟨sim, ring, hok, rfl⟩ := step_post hs
      have hpost := hc.post h32 hok
      have hlog : w.logged cqe = cqe.setP (lapPhase n w.posted.length) := by
        rw [logged, hc.simEntries]
      rw [← hlog] at hpost
      refine ⟨hpost, ?_, h.used.trans (List.prefix_append _ _), ?_⟩
      · -- the counts and the views are those of the host, which did not move
        unfold PcInv at hp ⊢
        dsimp only
        cases hpc : w.pc <;> rw [hpc] at hp <;> dsimp only at hp ⊢
        · exact hp
        · exact ⟨hp.1, hp.2.1, hp.2.2.1, by rw [List.length_append]; omega⟩
        · exact ⟨hp.1, hp.2.1, hp.2.2.1, by rw [List.length_append]; omega⟩
        · exact hp
      · rw [List.map_append]; exact h.sqhds.trans (List.prefix_append _ _)
  | look =>
      obtain ⟨hpc, ⟨_, rfl⟩ | ⟨hm, rfl⟩⟩ := step_look hs
      · exact h
      · rw [PcInv, hpc] at hp
        have hlt : w.consumed < w.posted.length := hc.match_iff.mp (beq_iff_eq.mp hm)
        exact ⟨hc, ⟨hp.1, hp.2, hc.head, hlt⟩, h.used, h.sqhds⟩
  | copy =>
      obtain ⟨slot, hpc, rfl⟩ := step_copy hs
      rw [PcInv, hpc] at hp
      obtain ⟨hu, hq, hslot, hlt⟩ := hp
      refine ⟨hc, ⟨by rw [List.length_append, hu]; rfl, hq, hslot, hlt⟩, ?_, h.sqhds⟩
      -- the view still shows the entry the phase matched on
      have hk : w.used.length < w.posted.length := by omega
      have he : w.ring slot = w.posted[w.used.length] := by
        rw [hslot, hc.entry hlt (by omega)]; simp only [hu]
      rw [he]
      exact List.concat_get_prefix h.used hk
  | consume =>
      obtain ⟨slot, hpc, rfl⟩ := step_consume hs
      rw [PcInv, hpc] at hp
      obtain ⟨hu, hq, hslot, hlt⟩ := hp
      exact ⟨hc.consume h32 hlt, ⟨hu, by rw [hq], by rw [hq]; exact hslot⟩, h.used, h.sqhds⟩
  | readSqhd =>
      obtain ⟨slot, hpc, rfl⟩ := step_readSqhd hs
      rw [PcInv, hpc] at hp
      obtain ⟨hu, hq, hslot⟩ := hp
      refine ⟨hc, ⟨hu, by rw [List.length_append]; exact hq⟩, h.used, ?_⟩
      -- the head has moved past this slot, but the free slot keeps the poster off it
      have hk : w.sqhds.length < w.posted.length := by omega
      have hk' : w.sqhds.length < (w.posted.map CQE.SQHD).length := by rwa [List.length_map]
      have he : (w.ring slot).SQHD = (w.posted.map CQE.SQHD)[w.sqhds.length] := by
        rw [hslot, hc.entry hk (by omega), List.getElem_map]
      rw [he]
      exact List.concat_get_prefix h.sqhds hk'

theorem inv_reachable {n : Nat} (hn : 0 < n) (h32 : n ≤ 2 ^ 32) {w : CqWorld}
    (h : (machine n).Reachable w) : Inv n w :=
  Machine.Reachable.invariant (I := Inv n) (fun _ hi => inv_init hn hi)
    (fun _ _ _ _ hi hs => inv_step h32 hi hs) h

/-- **The completion ring is a bounded queue** of capacity `n - 1`. -/
theorem simulates_fifo {n : Nat} (hn : 0 < n) (h32 : n ≤ 2 ^ 32) {w : CqWorld}
    (h : (machine n).Reachable w) : (Fifo.machine CQE (n - 1)).Reachable ⟨w.posted, w.consumed⟩ := by
  refine Machine.Reachable.simulates (M := machine n) (N := Fifo.machine CQE (n - 1))
    (fun w => ⟨w.posted, w.consumed⟩) ?_ ?_ h
  · intro w hi
    show (⟨w.posted, w.consumed⟩ : Fifo CQE) = ⟨[], 0⟩
    rw [hi.posted, hi.consumed]
  · intro w w' a hr hs
    have hi' := inv_step h32 (inv_reachable hn h32 hr) hs
    cases a with
    | post cqe =>
        obtain ⟨sim, ring, _, rfl⟩ := step_post hs
        have hgap : w.posted.length + 1 < w.consumed + n := by
          have := hi'.cells.gap
          rwa [List.length_append, List.length_singleton] at this
        -- the post was possible, so the ring had room by its positions
        have hroom : w.posted.length < w.consumed + (n - 1) := by omega
        exact Or.inr ⟨.push (w.logged cqe), if_pos hroom⟩
    | look =>
        obtain ⟨_, ⟨_, rfl⟩ | ⟨_, rfl⟩⟩ := step_look hs
        · exact Or.inl rfl
        · exact Or.inl rfl
    | copy => obtain ⟨_, _, rfl⟩ := step_copy hs; exact Or.inl rfl
    | consume =>
        obtain ⟨_, _, rfl⟩ := step_consume hs
        exact Or.inr ⟨.pop, if_pos hi'.cells.le⟩
    | readSqhd => obtain ⟨_, _, rfl⟩ := step_readSqhd hs; exact Or.inl rfl

/--
**The phase protocol.** In every interleaving: the host sees a match exactly when a
posted entry has not been consumed; what it has copied is what `post_completion` was
given, in order, each entry once and unchanged but for the phase bit; and the `SQHD` it
reads after advancing the head is that of the same entry.

The phase bit can carry this because what is posted is never a whole lap ahead of what is
consumed: the slot the host looks at holds either the entry it waits for or one of the lap
before, which has the other phase.
-/
theorem phase_protocol {n : Nat} (hn : 0 < n) (h32 : n ≤ 2 ^ 32) {w : CqWorld}
    (h : (machine n).Reachable w) :
    (w.phaseMatch = true ↔ w.consumed < w.posted.length)
      ∧ w.used <+: w.posted
      ∧ w.sqhds <+: w.posted.map CQE.SQHD
      ∧ (w.pc = .idle → w.used.length = w.consumed ∧ w.sqhds.length = w.consumed) := by
  have hi := inv_reachable hn h32 h
  refine ⟨?_, hi.used, hi.sqhds, ?_⟩
  · rw [phaseMatch, beq_iff_eq]
    exact hi.cells.match_iff
  · intro hpc
    have hp := hi.at_pc
    rw [PcInv, hpc] at hp
    exact hp

/-- Two fresh queues of `n` entries over zeroed memory. -/
def start (n : Nat) : CqWorld where
  ring := fun _ => {}
  cqhead := 0
  sim := { baseAddress := 0, entries := n, entrySize := 16, qid := 0 }
  host := { baseAddress := 0, entries := n, entrySize := 16, qid := 0 }
  pc := .idle
  posted := []
  consumed := 0
  used := []
  sqhds := []

theorem init_start (n : Nat) : Init n (start n) :=
  ⟨rfl, rfl, rfl, rfl, rfl, fun _ _ => rfl, rfl, rfl, rfl, rfl, rfl⟩

/-- A run with a post between `consume_completion` and the late read of `SQHD`. -/
def lateRun : List CqOp :=
  [.post { SQHD := 7 }, .look, .copy, .consume, .post { SQHD := 8 }, .readSqhd, .look]

theorem phase_protocol_lateRun :
    ∃ w, (machine 2).run (start 2) lateRun = some w ∧ w.sqhds = [7]
      ∧ (w.phaseMatch = true ↔ w.consumed < w.posted.length)
      ∧ w.used <+: w.posted
      ∧ w.sqhds <+: w.posted.map CQE.SQHD
      ∧ (w.pc = .idle → w.used.length = w.consumed ∧ w.sqhds.length = w.consumed) :=
  ⟨_, rfl, rfl, phase_protocol (n := 2) (by decide) (by decide)
    ((Machine.Reachable.start (init_start 2)).run lateRun rfl)⟩

end CqWorld

end LoneNvme
