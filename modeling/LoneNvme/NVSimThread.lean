import LoneNvme.Lib.Machine
import Mathlib.Data.BitVec

/-!
# The simulator thread and `CC.EN`

The host changes `CC.EN` and then sets `nvme_regs_event`; the thread, when it finds
the event set, compares the register with its last snapshot, enables or disables,
looks for commands, takes a new snapshot and clears the event.

A transition is noticed only if it is written before the comparison of a round, or
survives to the next one. Two windows break this: a write after the comparison goes
into the snapshot unseen, and an event set after the snapshot is wiped by the
clear. Outside the windows the snapshot tells what `CSTS.RDY` is (`Inv`).
-/

namespace LoneNvme

open Lib

/-- Where the host is in `cc_enable` or `cc_disable`. -/
inductive HostPc where
  /-- It has seen `CSTS.RDY` match `CC.EN`. -/
  | ready
  /-- `CC.EN` is written, the event not yet set. -/
  | wrote
  /-- It polls `CSTS.RDY`. -/
  | waiting
  deriving DecidableEq, Repr

/-- The next thing the thread does. -/
inductive SimPc where
  | test
  | compare
  | checkCommands
  | copy
  | clear
  /-- A handler raised and the loop ended. -/
  | stopped
  deriving DecidableEq, Repr

/-- The registers and the event that host and thread share, and where both are. -/
structure EnWorld where
  EN : BitVec 1
  RDY : BitVec 1
  oldEN : BitVec 1
  event : Bool
  host : HostPc
  sim : SimPc
  deriving DecidableEq, Repr

inductive EnOp where
  /-- The host writes `CC.EN`. -/
  | writeEN (value : BitVec 1)
  /-- `set_notify` of that write. -/
  | setEvent
  /-- The host looks at `CSTS.RDY`. -/
  | poll
  /-- The host writes another register, which sets the event too. -/
  | writeOther
  | test
  /-- The comparison, with `enable` or `disable` where it asks for one. -/
  | compare
  /-- `check_commands`, if ready; a handler may raise. -/
  | checkCommands (raises : Bool)
  | copy
  | clear
  deriving DecidableEq, Repr

namespace EnWorld

/-- `enable` and `disable` as far as the registers go. Setting `RDY` sets the event as well. -/
def nvmeRegsCompare (w : EnWorld) : EnWorld :=
  if w.oldEN = 0 ∧ w.EN = 1 then
    { w with RDY := 1, event := true }
  else if w.oldEN = 1 ∧ w.EN = 0 then
    { w with RDY := 0, event := true }
  else
    w

def step (w : EnWorld) : EnOp → Option EnWorld
  | .writeEN value =>
      if w.host = .ready then some { w with EN := value, host := .wrote } else none
  | .setEvent =>
      if w.host = .wrote then some { w with event := true, host := .waiting } else none
  | .poll =>
      if w.host = .waiting then
        some (if w.RDY = w.EN then { w with host := .ready } else w)
      else none
  | .writeOther => if w.host = .ready then some { w with event := true } else none
  | .test =>
      if w.sim = .test then some (if w.event then { w with sim := .compare } else w) else none
  | .compare =>
      if w.sim = .compare then some { w.nvmeRegsCompare with sim := .checkCommands } else none
  | .checkCommands raises =>
      if w.sim = .checkCommands then
        some { w with sim := if raises ∧ w.RDY = 1 then .stopped else .copy }
      else none
  | .copy => if w.sim = .copy then some { w with oldEN := w.EN, sim := .clear } else none
  | .clear => if w.sim = .clear then some { w with event := false, sim := .test } else none

/-- Registers cleared, host ready, thread at the top of its loop; the event may be set. -/
structure Init (w : EnWorld) : Prop where
  EN : w.EN = 0
  RDY : w.RDY = 0
  oldEN : w.oldEN = 0
  host : w.host = .ready
  sim : w.sim = .test

/-- Host and thread under every interleaving. -/
def machine : Machine EnWorld EnOp := ⟨Init, step⟩

/--
The steps after which a change of `CC.EN` can still be noticed: no change is written
between comparison and snapshot, and no event for a change the snapshot missed is
set between snapshot and clear.
-/
def Noticed (w : EnWorld) : EnOp → Prop
  | .writeEN value => w.sim = .checkCommands ∨ w.sim = .copy → value = w.EN
  | .setEvent => w.sim = .clear → w.EN = w.oldEN
  | _ => True

instance (w : EnWorld) : (a : EnOp) → Decidable (Noticed w a)
  | .writeEN value =>
      inferInstanceAs (Decidable (w.sim = .checkCommands ∨ w.sim = .copy → value = w.EN))
  | .setEvent => inferInstanceAs (Decidable (w.sim = .clear → w.EN = w.oldEN))
  | .poll | .writeOther | .test | .compare | .checkCommands _ | .copy | .clear =>
      inferInstanceAs (Decidable True)

/-- **What holds in every round.** -/
structure Inv (w : EnWorld) : Prop where
  /-- Outside the window readiness is what the snapshot says. -/
  snapshot : w.sim = .test ∨ w.sim = .compare ∨ w.sim = .clear → w.RDY = w.oldEN
  /-- Between comparison and snapshot it is what the register says. -/
  compared : w.sim = .checkCommands ∨ w.sim = .copy → w.RDY = w.EN
  /-- A change the snapshot does not have is announced, or about to be. -/
  announced : w.sim = .test ∨ w.sim = .compare → w.EN ≠ w.oldEN →
    w.event = true ∨ w.host = .wrote
  /-- The clear only wipes the event of a change the snapshot has. -/
  clearing : w.sim = .clear → w.EN ≠ w.oldEN → w.host = .wrote

theorem inv_init {w : EnWorld} (h : Init w) : Inv w where
  snapshot _ := by rw [h.RDY, h.oldEN]
  compared hs := by rw [h.sim] at hs; simp at hs
  announced _ hne := absurd (by rw [h.EN, h.oldEN]) hne
  clearing _ hne := absurd (by rw [h.EN, h.oldEN]) hne

/-- **The comparison** brings readiness from the snapshot to the register, and moves nothing else. -/
theorem nvmeRegsCompare_spec {w : EnWorld} (h : w.RDY = w.oldEN) :
    w.nvmeRegsCompare.RDY = w.EN ∧ w.nvmeRegsCompare.EN = w.EN := by
  unfold nvmeRegsCompare
  rcases BitVec.eq_zero_or_eq_one w.EN with he | he <;>
    rcases BitVec.eq_zero_or_eq_one w.oldEN with ho | ho
    <;> simp [he, ho, h]

/-- **The invariant is preserved by every step** that leaves changes noticeable. -/
theorem inv_step {w w' : EnWorld} {a : EnOp} (h : Inv w) (hok : Noticed w a)
    (hs : w.step a = some w') : Inv w' := by
  cases a with
  | writeEN value =>
      obtain ⟨_, he⟩ := Option.ite_none_right_eq_some.mp hs
      cases he
      refine ⟨h.snapshot, ?_, fun _ _ => Or.inr rfl, fun _ _ => rfl⟩
      intro hsim
      rw [hok hsim]
      exact h.compared hsim
  | setEvent =>
      obtain ⟨_, he⟩ := Option.ite_none_right_eq_some.mp hs
      cases he
      -- at the clear the snapshot has the change, so nothing depends on the event
      exact ⟨h.snapshot, h.compared, fun _ _ => Or.inl rfl, fun hsim hne => absurd (hok hsim) hne⟩
  | poll =>
      obtain ⟨hpc, he⟩ := Option.ite_none_right_eq_some.mp hs
      cases he
      split
      · rename_i hrdy
        refine ⟨h.snapshot, h.compared, ?_, ?_⟩
        · intro hsim hne
          rcases h.announced hsim hne with hev | hwr
          · exact Or.inl hev
          · rw [hpc] at hwr; exact absurd hwr (by decide)
        · intro hsim hne
          exact absurd (hrdy.symm.trans (h.snapshot (Or.inr (Or.inr hsim)))) hne
      · exact h
  | writeOther =>
      obtain ⟨_, he⟩ := Option.ite_none_right_eq_some.mp hs
      cases he
      exact ⟨h.snapshot, h.compared, fun _ _ => Or.inl rfl, h.clearing⟩
  | test =>
      obtain ⟨hpc, he⟩ := Option.ite_none_right_eq_some.mp hs
      cases he
      split
      · rename_i hev
        exact ⟨fun _ => h.snapshot (Or.inl hpc), by simp, fun _ _ => Or.inl hev, by simp⟩
      · exact h
  | compare =>
      obtain ⟨hpc, he⟩ := Option.ite_none_right_eq_some.mp hs
      cases he
      obtain ⟨hrdy, hen⟩ := nvmeRegsCompare_spec (h.snapshot (Or.inr (Or.inl hpc)))
      exact ⟨by simp, fun _ => hrdy.trans hen.symm, by simp, by simp⟩
  | checkCommands raises =>
      obtain ⟨hpc, he⟩ := Option.ite_none_right_eq_some.mp hs
      cases he
      split
      · exact ⟨by simp, by simp, by simp, by simp⟩
      · exact ⟨by simp, fun _ => h.compared (Or.inl hpc), by simp, by simp⟩
  | copy =>
      obtain ⟨hpc, he⟩ := Option.ite_none_right_eq_some.mp hs
      cases he
      exact ⟨fun _ => h.compared (Or.inr hpc), by simp, by simp, fun _ hne => absurd rfl hne⟩
  | clear =>
      obtain ⟨hpc, he⟩ := Option.ite_none_right_eq_some.mp hs
      cases he
      refine ⟨fun _ => h.snapshot (Or.inr (Or.inr hpc)), by simp, ?_, by simp⟩
      intro _ hne
      exact Or.inr (h.clearing hpc hne)

theorem inv_reachable {w : EnWorld} (h : machine.ReachableBy Noticed w) : Inv w :=
  Machine.ReachableBy.invariant (I := Inv) (fun _ hi => inv_init hi)
    (fun _ _ _ _ hi hok hs => inv_step hi hok hs) h

/-- The thread is idle: at the top of its loop, no event set, none about to be. -/
def Quiet (w : EnWorld) : Prop := w.sim = .test ∧ w.event = false ∧ w.host ≠ .wrote

instance (w : EnWorld) : Decidable (Quiet w) :=
  inferInstanceAs (Decidable (w.sim = .test ∧ w.event = false ∧ w.host ≠ .wrote))

/--
**No transition is lost** in a run whose changes stay noticeable: when nothing is
left to do, the controller is ready exactly if it is enabled.

A change is noticed as a difference to the thread's copy of the registers. It is lost if it gets
into the copy without having been compared, or if its event is cleared after the copy was made.
-/
theorem rdy_eq_en_of_quiet {w : EnWorld} (h : machine.ReachableBy Noticed w) (hq : Quiet w) :
    w.RDY = w.EN := by
  have hi := inv_reachable h
  obtain ⟨hsim, hev, hwr⟩ := hq
  rw [hi.snapshot (Or.inl hsim)]
  by_contra hne
  rcases hi.announced (Or.inl hsim) (Ne.symm hne) with he | hw
  · rw [hev] at he; exact absurd he (by decide)
  · exact hwr hw

/-- Everything zero, nobody moving. -/
def start : EnWorld := ⟨0, 0, 0, false, .ready, .test⟩

theorem init_start : Init start := ⟨rfl, rfl, rfl, rfl, rfl⟩

/-- One enable, far from the windows. -/
def enableRun : List EnOp :=
  [.writeEN 1, .setEvent, .test, .compare, .checkCommands false, .copy, .clear]

theorem rdy_eq_en_of_quiet_enableRun :
    ∃ w, machine.runBy Noticed start enableRun = some w ∧ w.EN = 1 ∧ w.RDY = w.EN :=
  ⟨⟨1, 1, 1, false, .waiting, .test⟩, rfl, rfl, rdy_eq_en_of_quiet
    ((Machine.ReachableBy.init init_start).run enableRun rfl) (by decide)⟩

/-! ### The two windows -/

/-- The host sees `RDY` right after `enable` and disables before the thread has its snapshot. -/
def disableInWindow : List EnOp :=
  [.writeEN 1, .setEvent, .test, .compare, .poll, .writeEN 0, .setEvent, .checkCommands false,
    .copy, .clear]

/-- The disable is never noticed: it went into the snapshot it should have been compared with. -/
theorem rdy_ne_en_of_disableInWindow :
    ¬ ∀ w, machine.Reachable w → Quiet w → w.RDY = w.EN := by
  intro hall
  have hw := hall ⟨0, 1, 0, false, .waiting, .test⟩
    ((Machine.Reachable.start init_start).run disableInWindow rfl) (by decide)
  exact absurd hw (by decide)

/-- **Neither window can be spared**: any step that falls into one can still end in a lost change. -/
theorem loses_of_not_noticed {w w' : EnWorld} {a : EnOp} (h : machine.ReachableBy Noticed w)
    (hbad : ¬ Noticed w a) (hs : w.step a = some w') :
    ∃ as w'', machine.run w' as = some w'' ∧ Quiet w'' ∧ w''.RDY ≠ w''.EN := by
  have hi := inv_reachable h
  cases a with
  | writeEN value =>
      obtain ⟨_, he⟩ := Option.ite_none_right_eq_some.mp hs
      cases he
      obtain ⟨hsim, hne⟩ := Classical.not_imp.mp hbad
      have hrdy : w.RDY ≠ value := by rw [hi.compared hsim]; exact Ne.symm hne
      rcases hsim with hsim | hsim
      · -- the simulator goes on from its comparison and copies the new value unseen
        refine ⟨[.setEvent, .checkCommands false, .copy, .clear],
          ⟨value, w.RDY, value, false, .waiting, .test⟩, ?_, ⟨rfl, rfl, by simp⟩, hrdy⟩
        simp [Machine.run, machine, step, hsim]
      · refine ⟨[.setEvent, .copy, .clear],
          ⟨value, w.RDY, value, false, .waiting, .test⟩, ?_, ⟨rfl, rfl, by simp⟩, hrdy⟩
        simp [Machine.run, machine, step, hsim]
  | setEvent =>
      obtain ⟨_, he⟩ := Option.ite_none_right_eq_some.mp hs
      cases he
      obtain ⟨hsim, hne⟩ := Classical.not_imp.mp hbad
      have hrdy : w.RDY ≠ w.EN := by
        rw [hi.snapshot (Or.inr (Or.inr hsim))]; exact Ne.symm hne
      refine ⟨[.clear], ⟨w.EN, w.RDY, w.oldEN, false, .waiting, .test⟩, ?_,
        ⟨rfl, rfl, by simp⟩, hrdy⟩
      simp [Machine.run, machine, step, hsim]
  | _ => exact absurd trivial hbad

end EnWorld

end LoneNvme
