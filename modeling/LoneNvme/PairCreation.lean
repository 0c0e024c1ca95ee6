import LoneNvme.HugePagesCalls
import LoneNvme.MemMgr
import LoneNvme.Msix
import LoneNvme.NVSimDevice

/-!
# When creating a queue pair raises

`create_io_queue_pair` allocates memory, checks the vector, sends a command, allocates again,
sends another command and adds the pair, without undoing anything. Whatever raises behind the
first allocation leaves its memory on the list of live ones.

The steps are parameters where they are not the driver's own: the memory manager is any lawful
one and the wait for a completion any function. `createIoQueuePair_ok_iff` says when all of
them return. From the first allocation on, whatever raises leaves at least that memory, so the
call is all or nothing exactly if it returns or already the first allocation fails.
-/

namespace LoneNvme

open Lib

/-- `DevMemMgr`, with the state that a call leaves, whether it returns or raises. -/
class MemMgrCalls (σ : Type) (H : outParam Type) where
  malloc : (size : Nat) → DMADirection → EStateM Exc σ H
  allocatedMemList : σ → List H
  location : σ → H → MemoryLocation

class LawfulMemMgrCalls (σ : Type) {H : outParam Type} [MemMgrCalls σ H] : Prop where
  malloc_live {s s' : σ} {size : Nat} {direction : DMADirection} {h : H} :
    MemMgrCalls.malloc size direction s = .ok h s' →
    MemMgrCalls.allocatedMemList s' = MemMgrCalls.allocatedMemList s ++ [h]
  /-- A call that raises may leave its own memory behind, but takes nobody else's away. -/
  malloc_raises {s s' : σ} {size : Nat} {direction : DMADirection} {e : Exc} :
    MemMgrCalls.malloc size direction s = .error e s' →
    MemMgrCalls.allocatedMemList s <+: MemMgrCalls.allocatedMemList s'

instance {address : Nat → Nat} : MemMgrCalls (SimMemMgr address) Nat where
  malloc size _ mgr := .ok (mgr.malloc size).1 (mgr.malloc size).2
  allocatedMemList mgr := mgr.allocatedMemList
  location := DevMemMgr.location

instance {address : Nat → Nat} : LawfulMemMgrCalls (SimMemMgr address) where
  malloc_live hok := by
    cases hok
    rfl
  malloc_raises hraise := nomatch hraise

namespace HugePagesMemoryMgr

/-- The hugepage manager; `hp` is what the C extension returns and `mapFunc` the functions that map. -/
def Calling (_ : HugePagesConfig) (_ : HugePagesMemoryMgr → Nat → Nat)
    (_ : HugePagesMemoryMgr → Mapping → Except Exc Unit) : Type := HugePagesMemoryMgr

variable {cfg : HugePagesConfig} {hp : HugePagesMemoryMgr → Nat → Nat}
  {mapFunc : HugePagesMemoryMgr → Mapping → Except Exc Unit}

instance : MemMgrCalls (Calling cfg hp mapFunc) Nat where
  malloc size direction mgr := Calls.malloc cfg size direction (hp mgr) (mapFunc mgr) mgr
  allocatedMemList mgr := mgr.mallocMem
  location mgr b := (mgr.page b).toMemoryLocation

theorem mallocRun_ok {mgr mgr' : HugePagesMemoryMgr} {size : Int} {direction : DMADirection}
    {hp : Nat → Nat} {mapFunc : Mapping → Except Exc Unit} {b : Nat}
    (h : Calls.MallocRun cfg mgr size direction hp mapFunc (.ok b mgr')) :
    mgr'.mallocMem = mgr.mallocMem ++ [b] := by
  cases h with
  | block hfinds => exact congrArg (· ++ [b]) hfinds.grown.mallocMem

theorem mallocRun_error {mgr mgr' : HugePagesMemoryMgr} {size : Int} {direction : DMADirection}
    {hp : Nat → Nat} {mapFunc : Mapping → Except Exc Unit} {e : Exc}
    (h : Calls.MallocRun cfg mgr size direction hp mapFunc (.error e mgr')) :
    mgr.mallocMem <+: mgr'.mallocMem := by
  cases h with
  | ungrown _ hleft =>
      have hgrown := mallocHps_induct (fun _ vaddr h => h.withHugepage vaddr) (Grown.refl mgr) hleft
      rw [hgrown.mallocMem]
  | noGroup hgrow _ => rw [(ensureFree_grown hgrow).mallocMem]
  | noIova hfinds _ =>
      show _ <+: HugePagesMemoryMgr.mallocMem _
      rw [← hfinds.grown.mallocMem]
      exact List.prefix_rfl
  | unmapped hfinds _ _ _ =>
      rw [← hfinds.grown.mallocMem]
      exact List.prefix_append _ _

instance : LawfulMemMgrCalls (Calling cfg hp mapFunc) where
  malloc_live {s s' size direction b} hok := by
    have hrun := @Calls.malloc_run cfg s size direction (hp s) (mapFunc s)
    rw [show Calls.malloc cfg size direction (hp s) (mapFunc s) s = .ok b s' from hok] at hrun
    exact mallocRun_ok hrun
  malloc_raises {s s' size direction e} hraise := by
    have hrun := @Calls.malloc_run cfg s size direction (hp s) (mapFunc s)
    rw [show Calls.malloc cfg size direction (hp s) (mapFunc s) s = .error e s' from hraise] at hrun
    exact mallocRun_error hrun

end HugePagesMemoryMgr

/-! ## The call -/

inductive NVMeDeviceIntType where
  | polling
  | intx
  | msi
  | msix
  deriving DecidableEq, Repr

/-- The device with its memory manager and its interrupts. -/
structure InterruptDevice (σ : Type) where
  device : GenericNVMeNVSimDevice
  memMgr : σ
  intType : NVMeDeviceIntType := .polling
  /-- Only `init_msix_interrupts` sets it. -/
  numMsixVectors : Option Nat := none

/--
`self.get_completions(cqid, 1, timeout)`: the host polls or waits for interrupts, and the
device does something meanwhile.
-/
abbrev Wait := GenericNVMeNVSimDevice → Nat → GenericNVMeNVSimDevice × Except Exc Nat

namespace InterruptDevice

variable {σ H : Type} [MemMgrCalls σ H]

/-- A call: it ends in a state, returning or raising. -/
abbrev Call (σ : Type) (α : Type) := EStateM Exc (InterruptDevice σ) α

/-- `mem_mgr.malloc`, with what was in the memory cleared. -/
def malloc (size : Nat) (direction : DMADirection) : Call σ MemoryLocation := fun s =>
  match MemMgrCalls.malloc size direction s.memMgr with
  | .ok h memMgr =>
      let location := MemMgrCalls.location memMgr h
      .ok location { s with memMgr, device := s.device.malloc location.vaddr }
  | .error e memMgr => .error e { s with memMgr }

/-- The vector for the create command, checked if there are interrupts. -/
def vector (q : QueuePair) : Call σ Int := do
  let s ← get
  if s.intType = .msix then
    match s.numMsixVectors with
    | none => throw (.attributeError "object has no attribute 'num_msix_vectors'")
    | some n =>
        match checkVector n q.cqIv with
        | .error e => throw e
        | .ok () => return q.cqIv
  else
    return 0

/-- `sync_cmd` of an admin command. -/
def syncCmd (wait : Wait) (sqe : Generic) : Call σ Unit := fun s =>
  let c := s.device.nextCommand
  let d := s.device.newCommand { sqe, cmdsetAdmin := true }
  match d.host.startCmd c none none with
  | (host, .error e) => .error e { s with device := d.withHost host }
  | (host, .ok (_, cqid)) =>
      match wait (d.withHost host) cqid with
      | (d, .error e) => .error e { s with device := d }
      | (d, .ok _) =>
          let command := d.host.commands c
          if command.complete = false then
            .error (.assertionError "Command not complete at the end of sync_cmd") { s with device := d }
          else if command.cqe.SF.SCT = 0 ∧ command.cqe.SF.SC = 0 then
            .ok () { s with device := d }
          else
            .error (.custom "NVMeStatusCodeException" "") { s with device := d }

/-- `CreateIOCompletionQueue` with its memory and vector. -/
def createIocqCmd (q : QueuePair) (cqMem : MemoryLocation) (iv : Int) : Generic :=
  { q.createIocqCmd with
    PRP1 := BitVec.ofNat 64 cqMem.iova
    DW11 := BitVec.ofInt 16 iv ++ (0 : BitVec 14) ++ BitVec.ofNat 1 q.cqIen ++ BitVec.ofNat 1 q.cqPc }

/-- `CreateIOSubmissionQueue` with its memory. -/
def createIosqCmd (q : QueuePair) (sqMem : MemoryLocation) : Generic :=
  { q.createIosqCmd with PRP1 := BitVec.ofNat 64 sqMem.iova }

/-- `queue_mgr.add` of the new pair. -/
def addPair (q : QueuePair) (cqMem sqMem : MemoryLocation) : Call σ Unit :=
  let q := { q with cqMem := cqMem.vaddr, sqMem := sqMem.vaddr }
  modify fun s => { s with device := s.device.addPair q.sq q.cq }

/-- What comes after the first allocation. -/
def createIn (wait wait' : Wait) (q : QueuePair) (cqMem : MemoryLocation) : Call σ Unit := do
  let iv ← vector q
  syncCmd wait (createIocqCmd q cqMem iv)
  let sqMem ← malloc (64 * q.sqEntries) .hostToDevice
  syncCmd wait' (createIosqCmd q sqMem)
  addPair q cqMem sqMem

/-- `create_io_queue_pair`. Where the queues lie is up to the memory manager. -/
def createIoQueuePair (wait wait' : Wait) (q : QueuePair) : Call σ Unit := do
  let cqMem ← malloc (16 * q.cqEntries) .deviceToHost
  createIn wait wait' q cqMem

/-! ## What it keeps -/

/-- The live allocations. -/
def live (s : InterruptDevice σ) : List H := MemMgrCalls.allocatedMemList s.memMgr

/-- A creation that raises leaves the allocations, the host's queues and the device's as they were. -/
def AllOrNothing (wait wait' : Wait) (q : QueuePair) (s : InterruptDevice σ) : Prop :=
  ∀ e s', createIoQueuePair wait wait' q s = .error e s' →
    s'.live = s.live ∧ s'.device.host.queueMgr = s.device.host.queueMgr
      ∧ ∀ h ∈ s'.device.nvsim.completionQueues, h ∈ s.device.nvsim.completionQueues

/-- The first allocation raises, and leaves nothing behind. -/
def NoMemory (q : QueuePair) (s : InterruptDevice σ) : Prop :=
  ∃ e memMgr, MemMgrCalls.malloc (16 * q.cqEntries) .deviceToHost s.memMgr = .error e memMgr
    ∧ MemMgrCalls.allocatedMemList memMgr = s.live

/-- The device takes a command and completes it with success, which leaves `d'`. -/
def Answers (wait : Wait) (sqe : Generic) (d d' : GenericNVMeNVSimDevice) : Prop :=
  ∃ host sqid cqid n,
    (d.newCommand { sqe, cmdsetAdmin := true }).host.startCmd d.nextCommand none none
      = (host, .ok (sqid, cqid))
    ∧ wait ((d.newCommand { sqe, cmdsetAdmin := true }).withHost host) cqid = (d', .ok n)
    ∧ (d'.host.commands d.nextCommand).complete = true
    ∧ (d'.host.commands d.nextCommand).cqe.SF.SCT = 0 ∧ (d'.host.commands d.nextCommand).cqe.SF.SC = 0

/-- The vector of the create command, if it is one the device has. -/
def HasVector (q : QueuePair) (s : InterruptDevice σ) (iv : Int) : Prop :=
  if s.intType = .msix then ∃ n, s.numMsixVectors = some n ∧ q.cqIv ≤ n ∧ iv = q.cqIv else iv = 0

/--
Everything a new pair needs: a vector, memory for both queues, and a device that completes both
commands with success.
-/
def Granted (wait wait' : Wait) (q : QueuePair) (s : InterruptDevice σ) : Prop :=
  ∃ iv a memMgr b memMgr' d d', HasVector q s iv
    ∧ MemMgrCalls.malloc (16 * q.cqEntries) .deviceToHost s.memMgr = .ok a memMgr
    ∧ MemMgrCalls.malloc (64 * q.sqEntries) .hostToDevice memMgr = .ok b memMgr'
    ∧ Answers wait (createIocqCmd q (MemMgrCalls.location memMgr a) iv)
      (s.device.malloc (MemMgrCalls.location memMgr a).vaddr) d
    ∧ Answers wait' (createIosqCmd q (MemMgrCalls.location memMgr' b))
      (d.malloc (MemMgrCalls.location memMgr' b).vaddr) d'

variable {wait wait' : Wait} {q : QueuePair} {s s' : InterruptDevice σ}

theorem vector_ok_iff {iv : Int} : vector q s = .ok iv s' ↔ HasVector q s iv ∧ s' = s := by
  unfold vector HasVector
  rw [run_get_bind]
  by_cases hint : s.intType = .msix
  · rw [if_pos hint, if_pos hint]
    cases hn : s.numMsixVectors with
    | none => exact ⟨fun h => (nomatch h), fun ⟨⟨_, h, _⟩, _⟩ => absurd h (by simp)⟩
    | some n =>
        dsimp only
        unfold checkVector
        -- the one check: no lower bound, and the number of vectors itself passes
        by_cases hle : q.cqIv ≤ n
        · rw [decide_eq_true hle]
          constructor
          · intro h
            cases h
            exact ⟨⟨n, rfl, hle, rfl⟩, rfl⟩
          · rintro ⟨⟨_, _, _, rfl⟩, rfl⟩
            rfl
        · rw [decide_eq_false hle]
          refine ⟨fun h => (nomatch h), ?_⟩
          rintro ⟨⟨n', hn', hle', _⟩, _⟩
          exact absurd (Option.some.inj hn' ▸ hle') hle
  · rw [if_neg hint, if_neg hint]
    constructor
    · intro h
      cases h
      exact ⟨rfl, rfl⟩
    · rintro ⟨rfl, rfl⟩
      rfl

theorem malloc_ok_iff {size : Nat} {direction : DMADirection} {location : MemoryLocation} :
    malloc size direction s = .ok location s' ↔ ∃ h memMgr,
      MemMgrCalls.malloc size direction s.memMgr = .ok h memMgr
      ∧ location = MemMgrCalls.location memMgr h
      ∧ s' = { s with memMgr, device := s.device.malloc location.vaddr } := by
  unfold malloc
  cases MemMgrCalls.malloc size direction s.memMgr with
  | error e memMgr => exact ⟨fun h => (nomatch h), fun ⟨_, _, h, _⟩ => (nomatch h)⟩
  | ok h memMgr =>
      constructor
      · intro hok
        cases hok
        exact ⟨h, memMgr, rfl, rfl, rfl⟩
      · rintro ⟨h', memMgr', hok, rfl, rfl⟩
        cases hok
        rfl

theorem syncCmd_ok_iff {sqe : Generic} : syncCmd wait sqe s = .ok () s'
    ↔ ∃ d, Answers wait sqe s.device d ∧ s' = { s with device := d } := by
  unfold syncCmd Answers
  dsimp only
  cases (s.device.newCommand { sqe, cmdsetAdmin := true }).host.startCmd s.device.nextCommand none
      none with
  | mk host started =>
      -- each step of the call either raises, on both sides, or hands on what it found
      cases started with
      | error e => exact ⟨fun h => (nomatch h), fun ⟨_, ⟨_, _, _, _, h, _⟩, _⟩ => (nomatch h)⟩
      | ok ids =>
          obtain ⟨sqid, cqid⟩ := ids
          dsimp only
          cases hwait : wait ((s.device.newCommand { sqe, cmdsetAdmin := true }).withHost host) cqid with
          | mk d r =>
              constructor
              · intro h
                cases r with
                | error e => exact nomatch h
                | ok n =>
                    dsimp only at h
                    split at h
                    · exact nomatch h
                    · rename_i hcomplete
                      split at h
                      · rename_i hstatus
                        cases h
                        exact ⟨d, ⟨host, sqid, cqid, n, rfl, hwait,
                          Bool.eq_true_of_not_eq_false hcomplete, hstatus⟩, rfl⟩
                      · exact nomatch h
              · rintro ⟨d', ⟨host', sqid', cqid', n, hstart, hw, hcomplete, hstatus⟩, rfl⟩
                cases hstart
                rw [hwait] at hw
                cases hw
                dsimp only
                rw [if_neg (by rw [hcomplete]; simp), if_pos hstatus]

/-- **It returns** exactly if everything is granted. -/
theorem createIoQueuePair_ok_iff :
    (∃ s', createIoQueuePair wait wait' q s = .ok () s') ↔ Granted wait wait' q s := by
  unfold createIoQueuePair createIn
  constructor
  · rintro ⟨s', h⟩
    obtain ⟨cqMem, s₁, hcq, h⟩ := run_bind_eq_ok.mp h
    obtain ⟨iv, s₂, hv, h⟩ := run_bind_eq_ok.mp h
    obtain ⟨_, s₃, hsync, h⟩ := run_bind_eq_ok.mp h
    obtain ⟨sqMem, s₄, hsq, h⟩ := run_bind_eq_ok.mp h
    obtain ⟨_, s₅, hsync', _⟩ := run_bind_eq_ok.mp h
    obtain ⟨a, memMgr, ha, rfl, rfl⟩ := malloc_ok_iff.mp hcq
    obtain ⟨hiv, rfl⟩ := vector_ok_iff.mp hv
    obtain ⟨d, hd, rfl⟩ := syncCmd_ok_iff.mp hsync
    obtain ⟨b, memMgr', hb, rfl, rfl⟩ := malloc_ok_iff.mp hsq
    obtain ⟨d', hd', rfl⟩ := syncCmd_ok_iff.mp hsync'
    exact ⟨iv, a, memMgr, b, memMgr', d, d', hiv, ha, hb, hd, hd'⟩
  · rintro ⟨iv, a, memMgr, b, memMgr', d, d', hiv, ha, hb, hd, hd'⟩
    refine ⟨_, run_bind_eq_ok.mpr ⟨_, _, malloc_ok_iff.mpr ⟨a, memMgr, ha, rfl, rfl⟩,
      run_bind_eq_ok.mpr ⟨iv, _, vector_ok_iff.mpr ⟨hiv, rfl⟩,
      run_bind_eq_ok.mpr ⟨(), _, syncCmd_ok_iff.mpr ⟨d, hd, rfl⟩,
      run_bind_eq_ok.mpr ⟨_, _, malloc_ok_iff.mpr ⟨b, memMgr', hb, rfl, rfl⟩,
      run_bind_eq_ok.mpr ⟨(), _, syncCmd_ok_iff.mpr ⟨d', hd', rfl⟩, rfl⟩⟩⟩⟩⟩⟩

/-! ## What it leaves behind -/

/-- No allocation is taken back. -/
def Grows (s s' : InterruptDevice σ) : Prop := s.live <+: s'.live

/-- A call that does not concern the memory manager. -/
theorem leaves_of_memMgr {α : Type} {x : Call σ α}
    (hx : ∀ s, (∀ a s', x s = .ok a s' → s'.memMgr = s.memMgr)
      ∧ ∀ e s', x s = .error e s' → s'.memMgr = s.memMgr) : Leaves Grows x := by
  intro s
  have hsame : ∀ {s' : InterruptDevice σ}, s'.memMgr = s.memMgr → Grows s s' := by
    intro s' he
    unfold Grows live
    rw [he]
  exact ⟨fun a s' h => hsame ((hx s).1 a s' h), fun e s' h => hsame ((hx s).2 e s' h)⟩

theorem leaves_vector (q : QueuePair) : Leaves Grows (vector q : Call σ Int) := by
  refine leaves_of_memMgr fun s => ⟨fun iv s' h => by rw [(vector_ok_iff.mp h).2], fun e s' h => ?_⟩
  unfold vector at h
  rw [run_get_bind] at h
  by_cases hint : s.intType = .msix
  · rw [if_pos hint] at h
    cases hn : s.numMsixVectors with
    | none =>
        rw [hn] at h
        cases h
        rfl
    | some n =>
        rw [hn] at h
        dsimp only at h
        cases hcheck : checkVector n q.cqIv with
        | ok u =>
            rw [hcheck] at h
            exact nomatch h
        | error e =>
            rw [hcheck] at h
            cases h
            rfl
  · rw [if_neg hint] at h
    exact nomatch h

theorem leaves_syncCmd (wait : Wait) (sqe : Generic) :
    Leaves Grows (syncCmd wait sqe : Call σ Unit) := by
  refine leaves_of_memMgr fun s => ⟨fun a s' h => ?_, fun e s' h => ?_⟩
  · obtain ⟨d, _, rfl⟩ := syncCmd_ok_iff.mp h
    rfl
  · unfold syncCmd at h
    dsimp only at h
    split at h
    · cases h
      rfl
    · split at h
      · cases h
        rfl
      · split at h
        · cases h
          rfl
        · split at h
          · exact nomatch h
          · cases h
            rfl

theorem leaves_addPair (q : QueuePair) (cqMem sqMem : MemoryLocation) :
    Leaves Grows (addPair q cqMem sqMem : Call σ Unit) := by
  refine leaves_of_memMgr fun s => ⟨fun a s' h => ?_, fun e s' h => (nomatch h)⟩
  cases h
  rfl

variable [LawfulMemMgrCalls σ]

theorem leaves_malloc (size : Nat) (direction : DMADirection) :
    Leaves Grows (malloc size direction : Call σ MemoryLocation) := by
  intro s
  unfold malloc
  cases hok : MemMgrCalls.malloc size direction s.memMgr with
  | ok h memMgr =>
      refine ⟨fun a s' hr => ?_, fun e s' hr => (nomatch hr)⟩
      cases hr
      have hlive := LawfulMemMgrCalls.malloc_live hok
      exact ⟨[h], hlive.symm⟩
  | error e memMgr =>
      refine ⟨fun a s' hr => (nomatch hr), fun e' s' hr => ?_⟩
      cases hr
      exact LawfulMemMgrCalls.malloc_raises hok

/-- Behind the first allocation nothing is taken back, however the call ends. -/
theorem leaves_createIn (wait wait' : Wait) (q : QueuePair) (cqMem : MemoryLocation) :
    Leaves Grows (createIn wait wait' q cqMem : Call σ Unit) := by
  have htrans : ∀ {s s' s'' : InterruptDevice σ}, Grows s s' → Grows s' s'' → Grows s s'' :=
    fun h h' => List.IsPrefix.trans h h'
  exact (leaves_vector q).bind htrans fun iv => (leaves_syncCmd _ _).bind htrans fun _ =>
    (leaves_malloc _ _).bind htrans fun sqMem => (leaves_syncCmd _ _).bind htrans fun _ =>
    leaves_addPair q cqMem sqMem

/-- A call that raises behind the first allocation has leaked it. -/
theorem leaks {a : H} {memMgr : σ} {e : Exc}
    (ha : MemMgrCalls.malloc (16 * q.cqEntries) .deviceToHost s.memMgr = .ok a memMgr)
    (hraise : createIoQueuePair wait wait' q s = .error e s') : s.live ++ [a] <+: s'.live := by
  unfold createIoQueuePair at hraise
  rw [run_bind_ok (malloc_ok_iff.mpr ⟨a, memMgr, ha, rfl, rfl⟩)] at hraise
  have hgrows := (leaves_createIn wait wait' q _ _).2 e s' hraise
  have hlive : MemMgrCalls.allocatedMemList memMgr = s.live ++ [a] := LawfulMemMgrCalls.malloc_live ha
  rw [← hlive]
  exact hgrows

/--
**When creating a pair is all or nothing**: exactly if the first allocation fails and leaves
nothing, or nothing fails.

Nothing is ever taken back: behind the first allocation every exception leaves its memory, and
the later ones also what the device was told.
-/
theorem creation_allOrNothing_iff (wait wait' : Wait) (q : QueuePair) (s : InterruptDevice σ) :
    AllOrNothing wait wait' q s ↔ NoMemory q s ∨ Granted wait wait' q s := by
  -- by the first allocation, behind which every exception leaks
  cases ha : MemMgrCalls.malloc (16 * q.cqEntries) .deviceToHost s.memMgr with
  | error e memMgr =>
      have hrun : createIoQueuePair wait wait' q s = .error e { s with memMgr } := by
        have hfirst : malloc (16 * q.cqEntries) .deviceToHost s = .error e { s with memMgr } := by
          unfold malloc
          rw [ha]
        exact run_bind_error hfirst
      constructor
      · intro hall
        exact Or.inl ⟨e, memMgr, ha, (hall e _ hrun).1⟩
      · rintro (⟨e', memMgr', hfail, hlive⟩ | ⟨_, _, _, _, _, _, _, _, hok, _⟩)
        · rw [ha] at hfail
          cases hfail
          intro e' s' hraise
          rw [hrun] at hraise
          cases hraise
          exact ⟨hlive, rfl, fun h hh => hh⟩
        · exact absurd (ha.symm.trans hok) (by simp)
  | ok a memMgr =>
      constructor
      · intro hall
        refine Or.inr (createIoQueuePair_ok_iff.mp ?_)
        cases hrun : createIoQueuePair wait wait' q s with
        | ok u s' => exact ⟨s', rfl⟩
        | error e s' =>
            have hle := (leaks ha hrun).length_le
            rw [(hall e s' hrun).1, List.length_append, List.length_singleton] at hle
            exact absurd hle (Nat.not_succ_le_self _)
      · rintro (⟨e, memMgr', hfail, _⟩ | hgranted)
        · exact absurd (ha.symm.trans hfail) (by simp)
        · obtain ⟨s', hok⟩ := createIoQueuePair_ok_iff.mpr hgranted
          intro e s'' hraise
          rw [hok] at hraise
          exact nomatch hraise

/-! ## The simulator as the device -/

/-- The simulator looks at its queues, and the host polls. If its thread ends it waits in vain. -/
def simulatorWait (fuel : Nat) : Wait := fun d cqid =>
  match (d.checkCommands fuel).run with
  | some (.ok d) =>
      let (host, polled) := d.host.getCompletion cqid (.ok [])
      (d.withHost host, polled.map fun found => if found then 1 else 0)
  | _ => (d, .ok 0)

/-- **Where `sync_cmd` on the simulated device returns**, the device has answered. -/
theorem answers_of_syncCmd {d d' : GenericNVMeNVSimDevice} {sqe : Generic} {fuel : Nat}
    (h : d.syncCmd sqe fuel = some (.ok d'))
    (hadmin : ∀ host sqid cqid,
      (d.newCommand { sqe, cmdsetAdmin := true }).host.startCmd d.nextCommand none none
        = (host, .ok (sqid, cqid)) → cqid = 0) : Answers (simulatorWait fuel) sqe d d' := by
  unfold GenericNVMeNVSimDevice.syncCmd at h
  dsimp only at h
  generalize hstart : (d.newCommand { sqe, cmdsetAdmin := true }).host.startCmd d.nextCommand none
    none = started at h hadmin
  obtain ⟨host, ids⟩ := started
  obtain ⟨⟨sqid, cqid⟩, hids, h⟩ := bind_eq_some_ok h
  obtain ⟨d₁, hcheck, h⟩ := bind_eq_some_ok h
  generalize hpoll : d₁.host.getCompletion 0 (.ok []) = polled at h
  obtain ⟨host₁, found⟩ := polled
  obtain ⟨n, hn, h⟩ := bind_eq_some_ok h
  obtain ⟨_, hcomplete, h⟩ := bind_eq_some_ok h
  have hids : ids = .ok (sqid, cqid) := Option.some.inj hids
  have hn : found = .ok n := Option.some.inj hn
  have hcomplete := assertThat_eq_ok (Option.some.inj hcomplete)
  split at h
  · rename_i hstatus
    have hd : d₁.withHost host₁ = d' := Except.ok.inj (Option.some.inj h)
    subst hd
    -- an admin command is waited for on queue 0, which is where the call polls
    have hqid := hadmin host sqid cqid (by rw [hids])
    refine ⟨host, sqid, cqid, if n then 1 else 0, by rw [hstart, hids], ?_, hcomplete, hstatus⟩
    unfold simulatorWait
    rw [show ((d.newCommand { sqe, cmdsetAdmin := true }).withHost host).checkCommands fuel
      = some (.ok d₁) from hcheck]
    show (d₁.withHost (d₁.host.getCompletion cqid (.ok [])).1,
      (d₁.host.getCompletion cqid (.ok [])).2.map fun found : Bool => if found then 1 else 0) = _
    rw [hqid, hpoll, hn]
    rfl
  · exact absurd (Option.some.inj h) (by simp)

/-- A device with admin queues of two entries. -/
def readyDevice : GenericNVMeNVSimDevice :=
  match GenericNVMeNVSimDevice.blank.reset ⟨2, 2, 0x1000, 0x2000⟩ with
  | .ok d => d
  | .error _ => GenericNVMeNVSimDevice.blank

def readyPair : QueuePair where
  cqEntries := 2
  cqId := 1
  sqEntries := 2
  sqId := 1
  cqMem := 0
  sqMem := 0

/-- The device, with the simulator's memory manager. -/
def ready : InterruptDevice (SimMemMgr fun k => 0x3000 + 0x1000 * k) where
  device := readyDevice
  memMgr := .new _

theorem creation_allOrNothing_ready :
    AllOrNothing (simulatorWait 1) (simulatorWait 1) readyPair ready :=
  (creation_allOrNothing_iff (simulatorWait 1) (simulatorWait 1) readyPair ready).mpr
    (Or.inr ⟨0, _, _, _, _, _, _, rfl, rfl, rfl, ⟨_, _, _, _, rfl, rfl, rfl, rfl, rfl⟩,
      ⟨_, _, _, _, rfl, rfl, rfl, rfl, rfl⟩⟩)

/-- A vector too high for the device: the memory of the completion queue stays. -/
theorem not_allOrNothing_vector : ¬ ∀ (wait wait' : Wait) (q : QueuePair)
    (s : InterruptDevice (SimMemMgr fun k => 0x3000 + 0x1000 * k)), AllOrNothing wait wait' q s := by
  intro h
  have hlive := (h (simulatorWait 1) (simulatorWait 1) { readyPair with cqIv := 2 }
    { ready with intType := .msix, numMsixVectors := some 1 } _ _ rfl).1
  exact absurd (congrArg List.length hlive) (by decide)

end InterruptDevice

end LoneNvme
