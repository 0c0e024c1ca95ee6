import LoneNvme.Lib.BlockDevice
import LoneNvme.PrpBuffer
import LoneNvme.RoundTrip

/-!
# Reading what was written

The whole stack, from a host's data buffer to the simulator's file and back. A host
allocates and frees `PRP` buffers, and issues one `Write` or `Read` after the other, on
any of its queue pairs. To it every namespace is a block device: `written` is the
history of its successful writes.

The stack moves buffers of at most one page and lists of whole pages. Two pages never
arrive: both sides take the second page for a list. A list with a partial last page
raises when it is filled. So `Movable` is the condition on every transfer in range.
-/

namespace LoneNvme

open Lib

/-- A `Write` or `Read` of `nlb + 1` blocks with buffer `k` on queue `i`. -/
structure Transfer where
  i : Nat
  k : Nat
  cid : BitVec 16
  nsid : BitVec 32
  slba : BitVec 64
  nlb : BitVec 16

namespace Transfer

/-- `Write(SLBA=slba, NLB=nlb, NSID=nsid)`, or `Read`, with the addresses of a buffer copied in. -/
def command (t : Transfer) (opc : BitVec 8) (prp : PRP) : Generic where
  OPC := opc
  CID := t.cid
  NSID := t.nsid
  PRP1 := BitVec.ofNat 64 prp.prp1
  PRP2 := BitVec.ofNat 64 prp.prp2
  DW10 := t.slba.extractLsb' 0 32
  DW11 := t.slba.extractLsb' 32 32
  DW12 := t.nlb.setWidth 32

def numBytes (t : Transfer) (ns : NVSimNamespace) : Nat := (t.nlb.toNat + 1) * ns.blockSize

def InRange (t : Transfer) (ns : NVSimNamespace) : Prop :=
  t.slba.toNat + t.nlb.toNat + 1 ≤ ns.numLbas

instance (t : Transfer) (ns : NVSimNamespace) : Decidable (t.InRange ns) :=
  inferInstanceAs (Decidable (t.slba.toNat + t.nlb.toNat + 1 ≤ ns.numLbas))

theorem slba_command (t : Transfer) (opc : BitVec 8) (prp : PRP) :
    (t.command opc prp).DW11 ++ (t.command opc prp).DW10 = t.slba := by
  show (t.slba.extractLsb' 32 32 ++ t.slba.extractLsb' 0 32 : BitVec 64) = t.slba
  rw [BitVec.extractLsb'_append_extractLsb'_eq_extractLsb' (by rfl)]
  exact BitVec.extractLsb'_eq_self

theorem nlb_command (t : Transfer) (opc : BitVec 8) (prp : PRP) :
    (t.command opc prp).DW12.extractLsb' 0 16 = t.nlb := by
  show (t.nlb.setWidth 32).extractLsb' 0 16 = t.nlb
  rw [← BitVec.setWidth_eq_extractLsb' (by omega)]
  exact BitVec.setWidth_setWidth_of_le _ (by omega)

end Transfer

/-! ## What the handlers do with a transfer -/

/-- A namespace once the blocks from `slba` on hold `data`. -/
def NVSimNamespace.stored (ns : NVSimNamespace) (slba : Nat) (data : List (BitVec 8)) :
    NVSimNamespace :=
  { ns with mm := ns.mm.store (slba * ns.blockSize) data }

namespace NVSim

/-- The controller with another namespace `nsid`. -/
def withNamespace (nvsim : NVSim) (nsid : Nat) (ns : NVSimNamespace) : NVSim :=
  { nvsim with namespaces := nvsim.namespaces.set (nsid - 1) ns }

variable {nvsim : NVSim} {t : Transfer} {ns : NVSimNamespace} {prp other : PRP} {i c : Nat}

theorem namespaceAt_iff {nsid : Nat} :
    nvsim.namespaceAt nsid = .ok (some ns) ↔ nsid ≠ 0 ∧ nvsim.namespaces[nsid - 1]? = some ns := by
  unfold namespaceAt
  by_cases h0 : nsid = 0
  · rw [if_pos h0]
    exact iff_of_false (by simp) fun h => h.1 h0
  · rw [if_neg h0]
    cases hget : nvsim.namespaces[nsid - 1]? with
    | none => exact iff_of_false (by simp) fun h => absurd h.2 (by simp)
    | some ns' =>
        constructor
        · intro h
          exact ⟨h0, by rw [Option.some.inj (Except.ok.inj h)]⟩
        · intro h
          rw [Option.some.inj h.2]

theorem transferNamespace_eq {command : Generic}
    (hns : nvsim.namespaceAt command.NSID.toNat = .ok (some ns)) :
    nvsim.transferNamespace command = .ok ns := by
  unfold transferNamespace
  rw [hns]
  rfl

theorem nvmCmdHandler_write (t : Transfer) (prp : PRP) :
    nvmCmdHandler (t.command Write.OPC prp).OPC = NVSimWrite := rfl

theorem nvmCmdHandler_read (t : Transfer) (prp : PRP) :
    nvmCmdHandler (t.command Read.OPC prp).OPC = NVSimRead := rfl

/-- **Out of range**: answered before anything is moved. -/
theorem NVSimWrite_refused (hns : nvsim.namespaceAt t.nsid.toNat = .ok (some ns))
    (hrange : ¬ t.InRange ns) :
    nvsim.NVSimWrite (t.command Write.OPC prp) i c
      = nvsim.complete t.cid i c StatusCodes.lbaOutOfRange := by
  have hslba : Write.SLBA (t.command Write.OPC prp) = t.slba := t.slba_command Write.OPC prp
  have hnlb : Write.NLB (t.command Write.OPC prp) = t.nlb := t.nlb_command Write.OPC prp
  unfold NVSimWrite
  rw [transferNamespace_eq (show nvsim.namespaceAt (t.command Write.OPC prp).NSID.toNat = _ from hns)]
  dsimp only [bind, Except.bind]
  rw [hslba, hnlb, if_pos (Nat.lt_of_not_le hrange)]
  rfl

theorem NVSimRead_refused (hns : nvsim.namespaceAt t.nsid.toNat = .ok (some ns))
    (hrange : ¬ t.InRange ns) :
    nvsim.NVSimRead (t.command Read.OPC prp) i c
      = nvsim.complete t.cid i c StatusCodes.lbaOutOfRange := by
  have hslba : Read.SLBA (t.command Read.OPC prp) = t.slba := t.slba_command Read.OPC prp
  have hnlb : Read.NLB (t.command Read.OPC prp) = t.nlb := t.nlb_command Read.OPC prp
  unfold NVSimRead
  rw [transferNamespace_eq (show nvsim.namespaceAt (t.command Read.OPC prp).NSID.toNat = _ from hns)]
  dsimp only [bind, Except.bind]
  rw [hslba, hnlb, if_pos (Nat.lt_of_not_le hrange)]
  rfl

/-- A transfer in range stays inside the file. -/
theorem transfer_end (hrange : t.InRange ns) :
    t.slba.toNat * ns.blockSize + t.numBytes ns ≤ ns.size := by
  unfold Transfer.numBytes NVSimNamespace.size
  rw [← Nat.add_mul]
  exact Nat.mul_le_mul_right _ (by unfold Transfer.InRange at hrange; omega)

/-- The object the simulator rebuilds from a command is that of the two addresses. -/
theorem command_prp (t : Transfer) (opc : BitVec 8) {prp : PRP} (h : prp.prp1 < 2 ^ 64 ∧ prp.prp2 < 2 ^ 64) :
    (t.command opc prp).PRP1.toNat = prp.prp1 ∧ (t.command opc prp).PRP2.toNat = prp.prp2 :=
  ⟨by rw [Transfer.command, BitVec.toNat_ofNat, Nat.mod_eq_of_lt h.1],
    by rw [Transfer.command, BitVec.toNat_ofNat, Nat.mod_eq_of_lt h.2]⟩

/-- **A write in range** stores what the buffer holds. -/
theorem NVSimWrite_moved (hns : nvsim.namespaceAt t.nsid.toNat = .ok (some ns))
    (hrange : t.InRange ns) (hptr : prp.prp1 < 2 ^ 64 ∧ prp.prp2 < 2 ^ 64)
    (hother : PRP.attach (t.numBytes ns) mps nvsim.mem prp.prp1 prp.prp2 = .ok other)
    {bytes data : List (BitVec 8)} (hbytes : other.getDataBuffer nvsim.mem = .ok bytes)
    (hdata : bytes.take (t.numBytes ns) = data) (hlen : data.length = t.numBytes ns) :
    nvsim.NVSimWrite (t.command Write.OPC prp) i c
      = (nvsim.withNamespace t.nsid.toNat (ns.stored t.slba.toNat data)).complete t.cid i c
          StatusCodes.successfulCompletion := by
  have hslba : Write.SLBA (t.command Write.OPC prp) = t.slba := t.slba_command Write.OPC prp
  have hnlb : Write.NLB (t.command Write.OPC prp) = t.nlb := t.nlb_command Write.OPC prp
  obtain ⟨hp1, hp2⟩ := command_prp t Write.OPC hptr
  -- in range, so the slice is as long as the data
  have hend := transfer_end hrange
  unfold Transfer.numBytes at hother hdata hlen hend
  unfold NVSimWrite
  rw [transferNamespace_eq (show nvsim.namespaceAt (t.command Write.OPC prp).NSID.toNat = _ from hns)]
  dsimp only [bind, Except.bind]
  rw [hslba, hnlb, if_neg (Nat.not_lt.mpr hrange), hp1, hp2, hother]
  dsimp only
  unfold NVSimNamespace.write NVSimNamespace.setSlice
  rw [hbytes]
  dsimp only [bind, Except.bind]
  rw [Nat.mul_comm ns.blockSize, hdata, if_pos (by omega), Nat.min_eq_left (by omega)]
  rfl

/-- **A read in range** fills the buffer from the file. -/
theorem NVSimRead_moved (hns : nvsim.namespaceAt t.nsid.toNat = .ok (some ns))
    (hrange : t.InRange ns) (hptr : prp.prp1 < 2 ^ 64 ∧ prp.prp2 < 2 ^ 64)
    (hother : PRP.attach (t.numBytes ns) mps nvsim.mem prp.prp1 prp.prp2 = .ok other) {mem : Mem}
    (hset : other.setDataBuffer nvsim.mem
      (ns.mm.load (t.slba.toNat * ns.blockSize) (t.numBytes ns)) = .ok mem) :
    nvsim.NVSimRead (t.command Read.OPC prp) i c
      = { nvsim with mem }.complete t.cid i c StatusCodes.successfulCompletion := by
  have hslba : Read.SLBA (t.command Read.OPC prp) = t.slba := t.slba_command Read.OPC prp
  have hnlb : Read.NLB (t.command Read.OPC prp) = t.nlb := t.nlb_command Read.OPC prp
  obtain ⟨hp1, hp2⟩ := command_prp t Read.OPC hptr
  have hend := transfer_end hrange
  unfold Transfer.numBytes at hother hset hend
  unfold NVSimRead
  rw [transferNamespace_eq (show nvsim.namespaceAt (t.command Read.OPC prp).NSID.toNat = _ from hns)]
  dsimp only [bind, Except.bind]
  rw [hslba, hnlb, if_neg (Nat.not_lt.mpr hrange), hp1, hp2, hother]
  dsimp only
  unfold NVSimNamespace.read NVSimNamespace.slice
  dsimp only
  rw [Nat.min_eq_left (show t.slba.toNat * ns.blockSize ≤ ns.size by omega),
    Nat.min_eq_left hend, Nat.add_sub_cancel_left, hset]
  rfl

end NVSim

/-! ## The stack -/

/-- Host and controller. `written` is history: the successful writes to each namespace, newest first. -/
structure Stack where
  nvsim : NVSim
  buffers : List PRP := []
  written : Nat → List (Nat × List (BitVec 8)) := fun _ => []

/-- What the host does: `page` is where its memory manager puts the pages of a new buffer. -/
inductive StackOp where
  | alloc (numBytes : Nat) (page : Nat → Nat)
  | free (k : Nat)
  | write (t : Transfer) (data : List (BitVec 8))
  | read (t : Transfer)

namespace Stack

/-- `PRP(mem_mgr, num_bytes, mps, ...)`. -/
def alloc (w : Stack) (numBytes : Nat) (page : Nat → Nat) : Except Exc Stack := do
  let prp ← PRP.new numBytes NVSim.mps
  match prp.alloc w.nvsim.mem fun k => PRP.pageAt NVSim.mps (page k) with
  | (prp, mem, .ok ()) =>
      .ok { w with nvsim := { w.nvsim with mem }, buffers := prp :: w.buffers }
  | (_, _, .error e) => .error e

/-- Fill the buffer, and send a `Write` for it. -/
def write (cfg : RingsConfig) (w : Stack) (t : Transfer) (prp : PRP) (data : List (BitVec 8)) :
    Except Exc (Stack × CQE) := do
  let mem ← prp.setDataBuffer w.nvsim.mem data
  let (nvsim, cqe) ← { w.nvsim with mem }.syncCmd NVSim.nvmCmdHandler t.i (cfg.cqOf t.i)
    (t.command Write.OPC prp)
  let written := if cqe.SF.SC = 0 then
      Function.update w.written t.nsid.toNat ((t.slba.toNat, data) :: w.written t.nsid.toNat)
    else w.written
  .ok ({ w with nvsim, written }, cqe)

/-- Send a `Read`, and look into the buffer. -/
def read (cfg : RingsConfig) (w : Stack) (t : Transfer) (prp : PRP) :
    Except Exc (Stack × CQE × List (BitVec 8)) := do
  let (nvsim, cqe) ← w.nvsim.syncCmd NVSim.nvmCmdHandler t.i (cfg.cqOf t.i) (t.command Read.OPC prp)
  let data ← prp.getDataBuffer nvsim.mem
  .ok ({ w with nvsim }, cqe, data)

/-- The namespace and the buffer of a transfer, if the buffer has the size of the transfer. -/
def target (w : Stack) (t : Transfer) : Option (NVSimNamespace × PRP) :=
  match w.nvsim.namespaceAt t.nsid.toNat, w.buffers[t.k]? with
  | .ok (some ns), some prp => if prp.numBytes = t.numBytes ns then some (ns, prp) else none
  | _, _ => none

def step (cfg : RingsConfig) (w : Stack) : StackOp → Option Stack
  | .alloc numBytes page =>
      match w.alloc numBytes page with
      | .ok w' =>
          -- a memory manager hands out pages that are not in use
          if PRP.PagesOk NVSim.mps (w'.buffers.flatMap PRP.memList) then some w' else none
      | .error _ => none
  | .free k => some { w with buffers := w.buffers.eraseIdx k }
  | .write t data =>
      match w.target t with
      | some (_, prp) =>
          if t.i ∈ cfg.sqs ∧ data.length = prp.numBytes then
            (w.write cfg t prp data).toOption.map Prod.fst
          else none
      | none => none
  | .read t =>
      match w.target t with
      | some (_, prp) =>
          if t.i ∈ cfg.sqs then (w.read cfg t prp).toOption.map Prod.fst else none
      | none => none

/-- Idle queues, no buffers, and namespaces nobody wrote to. -/
structure Init (cfg : RingsConfig) (w : Stack) : Prop where
  rings : Rings.Init cfg w.nvsim.rings
  buffers : w.buffers = []
  written : w.written = fun _ => []
  zeros : ∀ ns ∈ w.nvsim.namespaces, ∀ x, x < ns.size → ns.mm x = 0

def machine (cfg : RingsConfig) : Machine Stack StackOp := ⟨Init cfg, step cfg⟩

/-! ### What a transfer should do -/

/-- A successful write: it is recorded, and touches no byte outside its range. -/
structure Wrote (w w' : Stack) (t : Transfer) (ns : NVSimNamespace) (data : List (BitVec 8))
    (cqe : CQE) : Prop where
  cid : cqe.CID = t.cid
  status : cqe.SF.SC = BitVec.ofNat 8 StatusCodes.successfulCompletion
  written : w'.written
    = Function.update w.written t.nsid.toNat ((t.slba.toNat, data) :: w.written t.nsid.toNat)
  others : ∀ nsid, nsid ≠ t.nsid.toNat → w'.nvsim.namespaceAt nsid = w.nvsim.namespaceAt nsid
  range : ∃ ns', w'.nvsim.namespaceAt t.nsid.toNat = .ok (some ns')
    ∧ ns'.blockSize = ns.blockSize ∧ ns'.numLbas = ns.numLbas
    ∧ ∀ x, (x < t.slba.toNat * ns.blockSize
        ∨ (t.slba.toNat + t.nlb.toNat + 1) * ns.blockSize ≤ x) → ns'.mm x = ns.mm x

/-- A successful read: every block of the range as it was last written. -/
structure ReadBack (w w' : Stack) (t : Transfer) (ns : NVSimNamespace) (data : List (BitVec 8))
    (cqe : CQE) : Prop where
  cid : cqe.CID = t.cid
  status : cqe.SF.SC = BitVec.ofNat 8 StatusCodes.successfulCompletion
  blocks : ∀ k, k ≤ t.nlb.toNat → BlockDevice.block ns.blockSize data k
    = BlockDevice.last ns.blockSize (w.written t.nsid.toNat) (t.slba.toNat + k)
  namespaces : w'.nvsim.namespaces = w.nvsim.namespaces

/-- `LBA Out of Range`: nothing but the queues changed since the command was sent. -/
structure Refused (w w' : Stack) (mem : Mem) (t : Transfer) (cqe : CQE) : Prop where
  cid : cqe.CID = t.cid
  status : cqe.SF.SC = BitVec.ofNat 8 StatusCodes.lbaOutOfRange
  written : w'.written = w.written
  nvsim : ∃ rings, w'.nvsim = { w.nvsim with mem, rings }

/-- **The contract of one operation** in the state `w`. -/
def Correct (cfg : RingsConfig) (w : Stack) : StackOp → Prop
  | .alloc _ _ => True
  | .free _ => True
  | .write t data => ∀ ns prp, w.target t = some (ns, prp) → t.i ∈ cfg.sqs →
      data.length = prp.numBytes →
      if t.InRange ns then
        ∃ w' cqe, w.write cfg t prp data = .ok (w', cqe) ∧ Wrote w w' t ns data cqe
      else ∀ mem, prp.setDataBuffer w.nvsim.mem data = .ok mem →
        ∃ w' cqe, w.write cfg t prp data = .ok (w', cqe) ∧ Refused w w' mem t cqe
  | .read t => ∀ ns prp, w.target t = some (ns, prp) → t.i ∈ cfg.sqs →
      if t.InRange ns then
        ∃ w' cqe data, w.read cfg t prp = .ok (w', cqe, data) ∧ ReadBack w w' t ns data cqe
      else ∃ w' cqe data, w.read cfg t prp = .ok (w', cqe, data)
        ∧ Refused w w' w.nvsim.mem t cqe

/-- The transfers in range that the stack moves: one page at most, or whole pages but not two. -/
def Moves (w : Stack) : StackOp → Prop
  | .alloc _ _ => True
  | .free _ => True
  | .write t _ => ∀ ns prp, w.target t = some (ns, prp) → t.InRange ns →
      PRP.Movable NVSim.mps (t.numBytes ns)
  | .read t => ∀ ns prp, w.target t = some (ns, prp) → t.InRange ns →
      PRP.Movable NVSim.mps (t.numBytes ns)

instance (w : Stack) : (a : StackOp) → Decidable (Moves w a)
  | .alloc _ _ => isTrue trivial
  | .free _ => isTrue trivial
  | .write t _ | .read t =>
      decidable_of_iff (∀ x ∈ w.target t, t.InRange x.1 → PRP.Movable NVSim.mps (t.numBytes x.1))
        Prod.forall

/-! ### The invariant -/

/-- Queues idle, buffers laid out, and every namespace the device its history describes. -/
structure Inv (cfg : RingsConfig) (w : Stack) : Prop where
  rings : w.nvsim.rings.Inv cfg
  idle : w.nvsim.rings.Idle cfg
  buffers : PRP.Buffers NVSim.mps w.nvsim.mem w.buffers
  blocks : ∀ nsid ns, w.nvsim.namespaceAt nsid = .ok (some ns) →
    BlockDevice.Represents ns.blockSize ns.numLbas ns.mm (w.written nsid)

variable {cfg : RingsConfig} {w w' : Stack} {t : Transfer} {ns : NVSimNamespace} {prp : PRP}
  {data : List (BitVec 8)}

theorem inv_init (h : Init cfg w) : Inv cfg w where
  rings := Rings.inv_init h.rings
  idle i _ := by rw [(h.rings.posted i).1, (h.rings.posted i).2.2]; rfl
  buffers := by
    rw [h.buffers]
    exact ⟨⟨by simp, by simp, List.Pairwise.nil⟩, by simp⟩
  blocks nsid ns hns := by
    rw [h.written]
    have hmem := List.mem_of_getElem? (NVSim.namespaceAt_iff.mp hns).2
    exact BlockDevice.Represents.zeros (h.zeros ns hmem)

theorem target_spec (h : w.target t = some (ns, prp)) :
    w.nvsim.namespaceAt t.nsid.toNat = .ok (some ns) ∧ prp ∈ w.buffers
      ∧ prp.numBytes = t.numBytes ns := by
  unfold target at h
  split at h
  · rename_i ns' prp' hns hprp
    obtain ⟨hsize, he⟩ := Option.ite_none_right_eq_some.mp h
    injection he with he
    injection he with hn hp
    subst hn hp
    exact ⟨hns, List.mem_of_getElem? hprp, hsize⟩
  · exact absurd h (by simp)

/-- The namespaces after one of them was replaced. -/
theorem namespaceAt_withNamespace {nvsim : NVSim} {nsid : Nat} {ns' : NVSimNamespace}
    (h : nvsim.namespaceAt nsid = .ok (some ns)) :
    (nvsim.withNamespace nsid ns').namespaceAt nsid = .ok (some ns')
      ∧ ∀ other, other ≠ nsid →
        (nvsim.withNamespace nsid ns').namespaceAt other = nvsim.namespaceAt other := by
  obtain ⟨hne, hget⟩ := NVSim.namespaceAt_iff.mp h
  have hlt : nsid - 1 < nvsim.namespaces.length := (List.getElem?_eq_some_iff.mp hget).1
  refine ⟨NVSim.namespaceAt_iff.mpr ⟨hne, List.getElem?_set_self hlt⟩, fun other ho => ?_⟩
  unfold NVSim.namespaceAt
  by_cases h0 : other = 0
  · rw [if_pos h0, if_pos h0]
  · rw [if_neg h0, if_neg h0]
    have hget : (nvsim.withNamespace nsid ns').namespaces[other - 1]?
        = nvsim.namespaces[other - 1]? := List.getElem?_set_ne (by omega)
    rw [hget]

/-- A buffer in use: where its data pages are, and that its addresses fit a command. -/
theorem Inv.buffer (h : Inv cfg w) (hp : prp ∈ w.buffers) :
    prp.mps = NVSim.mps ∧ 0 < prp.numBytes ∧ PRP.PagesOk prp.mps prp.memList
      ∧ ∃ addrs, prp.Laid w.nvsim.mem addrs := by
  obtain ⟨hmps, hn, addrs, hlaid⟩ := h.buffers.laid prp hp
  refine ⟨hmps, hn, ?_, addrs, hlaid⟩
  rw [hmps]
  exact h.buffers.pagesOk hp

/-- A buffer of a movable size has room for the data in its pages. -/
theorem Inv.fits_of_movable (h : Inv cfg w) (ht : w.target t = some (ns, prp))
    (hmove : PRP.Movable NVSim.mps (t.numBytes ns)) :
    ∃ addrs, prp.Laid w.nvsim.mem addrs ∧ PRP.Fits NVSim.mps (t.numBytes ns) addrs.length := by
  obtain ⟨_, hp, hsize⟩ := target_spec ht
  obtain ⟨hmps, _, _, addrs, hlaid⟩ := h.buffer hp
  rw [← hsize, ← hmps] at hmove ⊢
  exact ⟨addrs, hlaid, (hlaid.capacity hmove).2⟩

/-- **A write in range** of a movable size. -/
theorem Inv.write_moved (husable : cfg.Usable) (hfit : cfg.HeadsFit) (h : Inv cfg w)
    (ht : w.target t = some (ns, prp)) (hi : t.i ∈ cfg.sqs) (hlen : data.length = prp.numBytes)
    (hrange : t.InRange ns) (hmove : PRP.Movable NVSim.mps (t.numBytes ns)) :
    ∃ w' cqe, w.write cfg t prp data = .ok (w', cqe) ∧ Wrote w w' t ns data cqe ∧ Inv cfg w' := by
  obtain ⟨hns, hp, hsize⟩ := target_spec ht
  obtain ⟨hmps, hn, hpages, addrs, hlaid⟩ := h.buffer hp
  have hm : 0 < prp.mps := by rw [hmps]; decide
  obtain ⟨hroom, hfits⟩ := hlaid.capacity (by rw [hmps, hsize]; exact hmove)
  rw [← hlen] at hroom hfits
  -- the host fills its buffer
  have hfill := (hlaid.setDataBuffer hm hpages data).1 hfits
  obtain ⟨hlaid', hbuffers⟩ := h.buffers.scatter hp hlaid data
  have hback := hlaid.gather_scatter hpages hroom
  rw [hmps] at hfill hback
  generalize PRP.scatter NVSim.mps w.nvsim.mem (addrs.map (PRP.pageAt NVSim.mps)) data = mem
    at hfill hlaid' hbuffers hback
  -- the simulator takes the data out of it
  obtain ⟨other, hattach, hget, _⟩ := hlaid'.other hm hn hpages
  rw [hmps, hsize] at hattach
  rw [hmps] at hget
  rw [hlen, hsize] at hback
  rw [hsize] at hlen
  obtain ⟨rings, hsync⟩ := @NVSim.syncCmd_eq cfg { w.nvsim with mem } t.i NVSim.nvmCmdHandler h.idle
    husable hfit h.rings hi (t.command Write.OPC prp)
  obtain ⟨rings', cqe, hok, hrings, hidle, hcid, hsc⟩ :=
    hsync ({ w.nvsim with mem }.withNamespace t.nsid.toNat (ns.stored t.slba.toNat data))
      StatusCodes.successfulCompletion 0 (by
        rw [NVSim.nvmCmdHandler_write]
        exact @NVSim.NVSimWrite_moved { w.nvsim with mem, rings } t ns prp other t.i (cfg.cqOf t.i) hns
          hrange (hlaid.prp_lt hpages) hattach _ _ hget hback hlen)
  obtain ⟨hself, hothers⟩ := @namespaceAt_withNamespace ns { w.nvsim with mem, rings := rings' }
    t.nsid.toNat (ns.stored t.slba.toNat data) hns
  have hsuccess : cqe.SF.SC = 0 := hsc
  generalize hafter : ({ { w.nvsim with mem }.withNamespace t.nsid.toNat
    (ns.stored t.slba.toNat data) with rings := rings' } : NVSim) = nvsim' at hok
  have hself' : nvsim'.namespaceAt t.nsid.toNat = .ok (some (ns.stored t.slba.toNat data)) := by
    rw [← hafter]
    exact hself
  have hothers' : ∀ nsid, nsid ≠ t.nsid.toNat →
      nvsim'.namespaceAt nsid = w.nvsim.namespaceAt nsid := by
    rw [← hafter]
    exact hothers
  have hwrite : w.write cfg t prp data = .ok ({ w with
      nvsim := nvsim'
      written := if cqe.SF.SC = 0 then Function.update w.written t.nsid.toNat
        ((t.slba.toNat, data) :: w.written t.nsid.toNat) else w.written }, cqe) := by
    unfold write
    rw [hfill]
    dsimp only [bind, Except.bind]
    rw [hok]
  rw [if_pos hsuccess] at hwrite
  refine ⟨_, cqe, hwrite, ⟨hcid, hsc, rfl, hothers', _, hself', rfl, rfl, fun x hx => ?_⟩,
    by rw [← hafter]; exact hrings, by rw [← hafter]; exact hidle, by rw [← hafter]; exact hbuffers,
    fun nsid ns' hns' => ?_⟩
  · refine Mem.store_outside _ ?_
    rw [hlen]
    unfold Transfer.numBytes
    rw [← Nat.add_mul]
    exact hx
  · dsimp only
    by_cases hsame : nsid = t.nsid.toNat
    · subst hsame
      rw [Option.some.inj (Except.ok.inj (hns'.symm.trans hself')), Function.update_self]
      exact (h.blocks _ ns hns).write hlen
    · rw [Function.update_of_ne hsame]
      exact h.blocks nsid ns' ((hothers' nsid hsame).symm.trans hns')

/-- The invariant holds of any state whose memory and queues alone have changed. -/
theorem Inv.withMem (h : Inv cfg w) {mem : Mem} {rings : Rings}
    (hbuffers : PRP.Buffers NVSim.mps mem w.buffers) (hrings : rings.Inv cfg)
    (hidle : rings.Idle cfg) : Inv cfg { w with nvsim := { w.nvsim with mem, rings } } :=
  ⟨hrings, hidle, hbuffers, h.blocks⟩

/-- **A read in range** that fills the data pages without raising, of whatever size they are. -/
theorem Inv.read_moved (husable : cfg.Usable) (hfit : cfg.HeadsFit) (h : Inv cfg w)
    (ht : w.target t = some (ns, prp)) (hi : t.i ∈ cfg.sqs) (hrange : t.InRange ns)
    {addrs : List Nat} (hlaid : prp.Laid w.nvsim.mem addrs)
    (hfits : PRP.Fits NVSim.mps (t.numBytes ns) addrs.length) :
    ∃ mem rings cqe, mem = PRP.scatter NVSim.mps w.nvsim.mem (addrs.map (PRP.pageAt NVSim.mps))
          (ns.mm.load (t.slba.toNat * ns.blockSize) (t.numBytes ns))
      ∧ w.read cfg t prp = .ok ({ w with nvsim := { w.nvsim with mem, rings } }, cqe,
          PRP.gather NVSim.mps mem (addrs.map (PRP.pageAt NVSim.mps)))
      ∧ cqe.CID = t.cid ∧ cqe.SF.SC = BitVec.ofNat 8 StatusCodes.successfulCompletion
      ∧ Inv cfg { w with nvsim := { w.nvsim with mem, rings } } := by
  obtain ⟨hns, hp, hsize⟩ := target_spec ht
  obtain ⟨hmps, hn, hpages, _⟩ := h.buffer hp
  have hm : 0 < prp.mps := by rw [hmps]; decide
  -- the simulator fills the buffer
  obtain ⟨other, hattach, _, hset⟩ := hlaid.other hm hn hpages
  have hfill := hset (ns.mm.load (t.slba.toNat * ns.blockSize) (t.numBytes ns))
    (by rw [Mem.length_load, hmps]; exact hfits)
  obtain ⟨hlaid', hbuffers⟩ := h.buffers.scatter hp hlaid
    (ns.mm.load (t.slba.toNat * ns.blockSize) (t.numBytes ns))
  rw [hmps] at hfill
  rw [hmps, hsize] at hattach
  generalize PRP.scatter _ _ _ _ = mem at hfill hlaid' hbuffers ⊢
  obtain ⟨rings, hsync⟩ := @NVSim.syncCmd_eq cfg w.nvsim t.i NVSim.nvmCmdHandler h.idle
    husable hfit h.rings hi (t.command Read.OPC prp)
  obtain ⟨rings', cqe, hok, hrings, hidle, hcid, hsc⟩ := hsync { w.nvsim with mem }
    StatusCodes.successfulCompletion 0 (by
      rw [NVSim.nvmCmdHandler_read]
      exact @NVSim.NVSimRead_moved { w.nvsim with rings } t ns prp other t.i (cfg.cqOf t.i) hns hrange
        (hlaid.prp_lt hpages) hattach _ hfill)
  -- and the host looks into it
  have hget := hlaid'.getDataBuffer hm hpages
  rw [hmps] at hget
  refine ⟨mem, rings', cqe, rfl, ?_, hcid, hsc, h.withMem hbuffers hrings hidle⟩
  unfold read
  rw [hok]
  dsimp only [bind, Except.bind]
  rw [hget]

/-- What a read of a movable size returns. -/
theorem Inv.readBack (h : Inv cfg w) (ht : w.target t = some (ns, prp)) (hrange : t.InRange ns)
    (hmove : PRP.Movable NVSim.mps (t.numBytes ns)) {addrs : List Nat}
    (hlaid : prp.Laid w.nvsim.mem addrs) {k : Nat} (hk : k ≤ t.nlb.toNat) :
    BlockDevice.block ns.blockSize (PRP.gather NVSim.mps
        (PRP.scatter NVSim.mps w.nvsim.mem (addrs.map (PRP.pageAt NVSim.mps))
          (ns.mm.load (t.slba.toNat * ns.blockSize) (t.numBytes ns)))
        (addrs.map (PRP.pageAt NVSim.mps))) k
      = BlockDevice.last ns.blockSize (w.written t.nsid.toNat) (t.slba.toNat + k) := by
  obtain ⟨hns, hp, hsize⟩ := target_spec ht
  obtain ⟨hmps, hn, hpages, _⟩ := h.buffer hp
  obtain ⟨hroom, _⟩ := hlaid.capacity (by rw [hmps, hsize]; exact hmove)
  have hback := hlaid.gather_scatter hpages
    (show (ns.mm.load (t.slba.toNat * ns.blockSize) (t.numBytes ns)).length ≤ _ by
      rw [Mem.length_load, ← hsize]; exact hroom)
  rw [Mem.length_load, hmps] at hback
  have hend : (k + 1) * ns.blockSize ≤ t.numBytes ns := Nat.mul_le_mul_right _ (by omega)
  rw [← BlockDevice.block_take hend, hback]
  exact (h.blocks _ ns hns).read (Nat.lt_succ_of_le hk) hrange

/-- **A write out of range**, from a buffer the host could fill. -/
theorem Inv.write_refused (husable : cfg.Usable) (hfit : cfg.HeadsFit) (h : Inv cfg w)
    (ht : w.target t = some (ns, prp)) (hi : t.i ∈ cfg.sqs) (hrange : ¬ t.InRange ns) {mem : Mem}
    (hfill : prp.setDataBuffer w.nvsim.mem data = .ok mem) :
    ∃ w' cqe, w.write cfg t prp data = .ok (w', cqe) ∧ Refused w w' mem t cqe ∧ Inv cfg w' := by
  obtain ⟨hns, hp, _⟩ := target_spec ht
  obtain ⟨hmps, hn, hpages, addrs, hlaid⟩ := h.buffer hp
  have hm : 0 < prp.mps := by rw [hmps]; decide
  have hbuffers : PRP.Buffers NVSim.mps mem w.buffers := by
    obtain ⟨hset, hraise⟩ := hlaid.setDataBuffer hm hpages data
    by_cases hfits : PRP.Fits prp.mps data.length addrs.length
    · rw [hset hfits, hmps] at hfill
      rw [← Except.ok.inj hfill]
      exact (h.buffers.scatter hp hlaid data).2
    · obtain ⟨e, he⟩ := hraise hfits
      rw [he] at hfill
      exact absurd hfill (by simp)
  obtain ⟨rings, hsync⟩ := @NVSim.syncCmd_eq cfg { w.nvsim with mem } t.i NVSim.nvmCmdHandler h.idle
    husable hfit h.rings hi (t.command Write.OPC prp)
  obtain ⟨rings', cqe, hok, hrings, hidle, hcid, hsc⟩ := hsync { w.nvsim with mem }
    StatusCodes.lbaOutOfRange 0 (by
      rw [NVSim.nvmCmdHandler_write]
      exact @NVSim.NVSimWrite_refused { w.nvsim with mem, rings } t ns prp t.i (cfg.cqOf t.i) hns hrange)
  have hstatus : cqe.SF.SC ≠ 0 := by rw [hsc]; decide
  have hwrite : w.write cfg t prp data
      = .ok ({ w with nvsim := { w.nvsim with mem, rings := rings' } }, cqe) := by
    unfold write
    rw [hfill]
    dsimp only [bind, Except.bind]
    rw [hok]
    dsimp only
    rw [if_neg hstatus]
  exact ⟨_, cqe, hwrite, ⟨hcid, hsc, rfl, rings', rfl⟩, h.withMem hbuffers hrings hidle⟩

/-- **A read out of range.** -/
theorem Inv.read_refused (husable : cfg.Usable) (hfit : cfg.HeadsFit) (h : Inv cfg w)
    (ht : w.target t = some (ns, prp)) (hi : t.i ∈ cfg.sqs) (hrange : ¬ t.InRange ns) :
    ∃ w' cqe data, w.read cfg t prp = .ok (w', cqe, data) ∧ Refused w w' w.nvsim.mem t cqe
      ∧ Inv cfg w' := by
  obtain ⟨hns, hp, _⟩ := target_spec ht
  obtain ⟨hmps, hn, hpages, addrs, hlaid⟩ := h.buffer hp
  have hm : 0 < prp.mps := by rw [hmps]; decide
  obtain ⟨rings, hsync⟩ := @NVSim.syncCmd_eq cfg w.nvsim t.i NVSim.nvmCmdHandler h.idle
    husable hfit h.rings hi (t.command Read.OPC prp)
  obtain ⟨rings', cqe, hok, hrings, hidle, hcid, hsc⟩ := hsync w.nvsim StatusCodes.lbaOutOfRange 0 (by
    rw [NVSim.nvmCmdHandler_read]
    exact @NVSim.NVSimRead_refused { w.nvsim with rings } t ns prp t.i (cfg.cqOf t.i) hns hrange)
  have hread : w.read cfg t prp = .ok ({ w with nvsim := { w.nvsim with rings := rings' } }, cqe,
      PRP.gather prp.mps w.nvsim.mem (addrs.map (PRP.pageAt prp.mps))) := by
    unfold read
    rw [hok]
    dsimp only [bind, Except.bind]
    rw [hlaid.getDataBuffer hm hpages]
  exact ⟨_, cqe, _, hread, ⟨hcid, hsc, rfl, rings', rfl⟩, h.withMem h.buffers hrings hidle⟩

/-- What an allocation that does not raise was given and left. -/
theorem alloc_spec {numBytes : Nat} {page : Nat → Nat} (h : w.alloc numBytes page = .ok w') :
    ∃ prp mem, 0 < numBytes
      ∧ PRP.alloc { numBytes, mps := NVSim.mps } w.nvsim.mem (fun k => PRP.pageAt NVSim.mps (page k))
          = (prp, mem, .ok ())
      ∧ w' = { w with nvsim := { w.nvsim with mem }, buffers := prp :: w.buffers } := by
  unfold alloc at h
  have hn : 0 < numBytes := by
    refine Nat.pos_of_ne_zero fun h0 => ?_
    rw [h0] at h
    exact absurd h (by simp [PRP.new, PRP.dataPages, NVSim.mps, bind, Except.bind])
  rw [PRP.new_ok (by decide) hn] at h
  dsimp only [bind, Except.bind] at h
  split at h
  · rename_i prp mem halloc
    exact ⟨prp, mem, hn, halloc, (Except.ok.inj h).symm⟩
  · exact absurd h (by simp)

/-- A write whose step was taken had a buffer the host could fill. -/
theorem write_spec {cqe : CQE} (h : w.write cfg t prp data = .ok (w', cqe)) :
    ∃ mem, prp.setDataBuffer w.nvsim.mem data = .ok mem := by
  unfold write at h
  cases hset : prp.setDataBuffer w.nvsim.mem data with
  | ok mem => exact ⟨mem, rfl⟩
  | error e =>
      rw [hset] at h
      exact absurd h (by simp [bind, Except.bind])

theorem toOption_fst_eq_some {α β ε : Type} {x : Except ε (α × β)} {a : α}
    (h : x.toOption.map Prod.fst = some a) : ∃ b, x = .ok (a, b) := by
  obtain ⟨⟨a', b⟩, hx, rfl⟩ := Option.map_eq_some_iff.mp h
  exact ⟨b, toOption_eq_some hx⟩

/-- A call has one outcome. -/
theorem fst_eq_of_ok {α β ε : Type} {x : Except ε (α × β)} {a a' : α} {b b' : β}
    (h : x = .ok (a, b)) (h' : x = .ok (a', b')) : a = a' :=
  congrArg Prod.fst (Except.ok.inj (h.symm.trans h'))

/-- **One step keeps the invariant**, if transfers in range are movable. -/
theorem inv_step (husable : cfg.Usable) (hfit : cfg.HeadsFit) {a : StackOp} (h : Inv cfg w)
    (hmove : Moves w a) (hs : step cfg w a = some w') : Inv cfg w' := by
  cases a with
  | alloc numBytes page =>
      unfold step at hs
      dsimp only at hs
      split at hs
      · rename_i w'' halloc
        obtain ⟨hpages, he⟩ := Option.ite_none_right_eq_some.mp hs
        rw [Option.some.inj he] at hpages halloc
        -- its pages are apart from those of the other buffers, so nothing of theirs is written
        obtain ⟨prp, mem, hn, hok, rfl⟩ := alloc_spec halloc
        exact ⟨h.rings, h.idle, h.buffers.alloc (by decide) hn (fun _ => rfl) hok hpages, h.blocks⟩
      · exact absurd hs (by simp)
  | free k =>
      rw [← Option.some.inj hs]
      exact ⟨h.rings, h.idle, h.buffers.erase k, h.blocks⟩
  | write t data =>
      unfold step at hs
      dsimp only at hs
      split at hs
      · rename_i ns prp ht
        obtain ⟨⟨hi, hlen⟩, he⟩ := Option.ite_none_right_eq_some.mp hs
        obtain ⟨cqe, hok⟩ := toOption_fst_eq_some he
        by_cases hrange : t.InRange ns
        · obtain ⟨w'', _, hok', _, hinv⟩ :=
            h.write_moved husable hfit ht hi hlen hrange (hmove ns prp ht hrange)
          rw [fst_eq_of_ok hok hok']
          exact hinv
        · -- out of range: the host filled its buffer, and the namespace is as it was
          obtain ⟨mem, hfill⟩ := write_spec hok
          obtain ⟨w'', _, hok', _, hinv⟩ := h.write_refused husable hfit ht hi hrange hfill
          rw [fst_eq_of_ok hok hok']
          exact hinv
      · exact absurd hs (by simp)
  | read t =>
      unfold step at hs
      dsimp only at hs
      split at hs
      · rename_i ns prp ht
        obtain ⟨hi, he⟩ := Option.ite_none_right_eq_some.mp hs
        obtain ⟨⟨cqe, data⟩, hok⟩ := toOption_fst_eq_some he
        by_cases hrange : t.InRange ns
        · -- in range: the pages have room for what is read
          obtain ⟨addrs, hlaid, hfits⟩ := h.fits_of_movable ht (hmove ns prp ht hrange)
          obtain ⟨mem, rings, _, _, hok', _, _, hinv⟩ :=
            h.read_moved husable hfit ht hi hrange hlaid hfits
          rw [fst_eq_of_ok hok hok']
          exact hinv
        · obtain ⟨w'', _, _, hok', _, hinv⟩ := h.read_refused husable hfit ht hi hrange
          rw [fst_eq_of_ok hok hok']
          exact hinv
      · exact absurd hs (by simp)

theorem inv_reachable (husable : cfg.Usable) (hfit : cfg.HeadsFit)
    (h : (machine cfg).ReachableBy Moves w) : Inv cfg w :=
  Machine.ReachableBy.invariant (I := Inv cfg) (fun _ hi => inv_init hi)
    (fun _ _ _ _ hi hok hs => inv_step husable hfit hi hok hs) h

/--
**Read after write.** In every run whose transfers in range are of at most one page or of
whole pages but two, every operation keeps its contract: a read returns each block as it
was last written, a write touches no byte outside its range, and a transfer out of range
changes nothing.

The sizes are those for which the segments of a buffer are its data pages and take the data.
Of two pages the second is taken for a list, since that is what `PRP2` names in a longer buffer;
and behind the first page a page that is not filled raises.
-/
theorem correct_of_moves (husable : cfg.Usable) (hfit : cfg.HeadsFit)
    (h : (machine cfg).ReachableBy Moves w) {a : StackOp} (hmove : Moves w a) :
    w.Correct cfg a := by
  have hinv := inv_reachable husable hfit h
  cases a with
  | alloc _ _ => exact trivial
  | free _ => exact trivial
  | write t data =>
      intro ns prp ht hi hlen
      by_cases hrange : t.InRange ns
      · rw [if_pos hrange]
        obtain ⟨w', cqe, hok, hwrote, _⟩ :=
          hinv.write_moved husable hfit ht hi hlen hrange (hmove ns prp ht hrange)
        exact ⟨w', cqe, hok, hwrote⟩
      · rw [if_neg hrange]
        -- out of range: the simulator refuses what the host has filled in
        intro mem hfill
        obtain ⟨w', cqe, hok, hrefused, _⟩ := hinv.write_refused husable hfit ht hi hrange hfill
        exact ⟨w', cqe, hok, hrefused⟩
  | read t =>
      intro ns prp ht hi
      by_cases hrange : t.InRange ns
      · rw [if_pos hrange]
        have hmoved := hmove ns prp ht hrange
        obtain ⟨addrs, hlaid, hfits⟩ := hinv.fits_of_movable ht hmoved
        obtain ⟨mem, rings, cqe, hmem, hok, hcid, hsc, _⟩ :=
          hinv.read_moved husable hfit ht hi hrange hlaid hfits
        refine ⟨_, cqe, _, hok, hcid, hsc, fun k hk => ?_, rfl⟩
        rw [hmem]
        exact hinv.readBack ht hrange hmoved hlaid hk
      · rw [if_neg hrange]
        obtain ⟨w', cqe, data, hok, hrefused, _⟩ := hinv.read_refused husable hfit ht hi hrange
        exact ⟨w', cqe, data, hok, hrefused⟩

/-- A controller nobody used yet, with one namespace. -/
def withNamespace (ns : NVSimNamespace) : Stack where
  nvsim := { rings := Rings.start Rings.sharedConfig, mem := fun _ => 0, namespaces := [ns] }

theorem init_withNamespace (hz : ∀ x, ns.mm x = 0) :
    Init Rings.sharedConfig (withNamespace ns) where
  rings := Rings.init_start Rings.sharedConfig
  buffers := rfl
  written := rfl
  zeros ns' hns x _ := by rw [List.mem_singleton.mp hns]; exact hz x

/-- A namespace of two blocks. -/
def twoBlocks (blockSize : Nat) (supported : blockSize = 512 ∨ blockSize = 4096) : NVSimNamespace where
  blockSize := blockSize
  numLbas := 2
  mm _ := 0
  supported := supported

/-- The first `n` blocks of the first namespace, with the newest buffer on queue 1. -/
def firstBlocks (nlb : BitVec 16) : Transfer := ⟨1, 0, 7, 1, 0, nlb⟩

/-- A block of data. -/
def aBlock : List (BitVec 8) := List.replicate 512 0xA5

/-- Written from one buffer, and read back into another. -/
theorem correct_of_moves_block : ∃ w, (machine Rings.sharedConfig).runBy Moves
      (withNamespace (twoBlocks 512 (.inl rfl)))
      [.alloc 512 fun _ => 4096, .write (firstBlocks 0) aBlock, .alloc 512 fun _ => 8192] = some w
    ∧ ∃ prp w' cqe data, w.read Rings.sharedConfig (firstBlocks 0) prp = .ok (w', cqe, data)
      ∧ BlockDevice.block 512 data 0 = aBlock := by
  have hok : ((machine Rings.sharedConfig).runBy Moves (withNamespace (twoBlocks 512 (.inl rfl)))
      [.alloc 512 fun _ => 4096, .write (firstBlocks 0) aBlock, .alloc 512 fun _ => 8192]).map
      (fun w => (w.written 1, decide (Moves w (.read (firstBlocks 0))),
        (w.target (firstBlocks 0)).map fun x => (x.1.blockSize, decide ((firstBlocks 0).InRange x.1))))
      = some ([(0, aBlock)], true, some (512, true)) := by decide +kernel
  obtain ⟨w, hrun, hw⟩ := Option.map_eq_some_iff.mp hok
  obtain ⟨hwritten, hw⟩ := Prod.mk.inj hw
  obtain ⟨hmoves, hw⟩ := Prod.mk.inj hw
  obtain ⟨⟨ns, prp⟩, htarget, hns⟩ := Option.map_eq_some_iff.mp hw
  obtain ⟨hbs, hrange⟩ := Prod.mk.inj hns
  have hcorrect := correct_of_moves (by decide) (by decide)
    (Machine.ReachableBy.run (.init (init_withNamespace fun _ => rfl)) _ hrun)
    (of_decide_eq_true hmoves) ns prp htarget (by decide)
  rw [if_pos (of_decide_eq_true hrange)] at hcorrect
  obtain ⟨w', cqe, data, hread, hback⟩ := hcorrect
  refine ⟨w, hrun, prp, w', cqe, data, hread, ?_⟩
  rw [← hbs, hback.blocks 0 (Nat.zero_le _)]
  -- the last write that covers the block is the only one
  show BlockDevice.last ns.blockSize (w.written 1) 0 = aBlock
  rw [hwritten, show ns.blockSize = 512 from hbs]
  decide +kernel

/-- Two pages: the read succeeds, and the second block of the buffer is not there. -/
theorem not_correct_two_pages :
    ¬ ∀ (cfg : RingsConfig) (w : Stack) (a : StackOp), cfg.Usable → cfg.HeadsFit →
      (machine cfg).Reachable w → w.Correct cfg a := by
  intro hall
  have hinit := @init_withNamespace (twoBlocks 4096 (.inr rfl)) fun _ => rfl
  obtain ⟨w, hw⟩ : ∃ w, (machine Rings.sharedConfig).step (withNamespace (twoBlocks 4096 (.inr rfl)))
      (.alloc 8192 fun k => 4096 * (k + 1)) = some w := ⟨_, rfl⟩
  have hinv := @inv_reachable Rings.sharedConfig w (by decide) (by decide)
    (.tail (a := .alloc 8192 fun k => 4096 * (k + 1)) (.init hinit) trivial hw)
  have hread := hall Rings.sharedConfig w (.read (firstBlocks 1)) (by decide) (by decide)
    (.tail (.init hinit) trivial hw)
  obtain ⟨prp, ht⟩ : ∃ prp, w.target (firstBlocks 1) = some (twoBlocks 4096 (.inr rfl), prp) := by
    rw [← Option.some.inj hw]
    exact ⟨_, rfl⟩
  obtain ⟨_, hp, hsize⟩ := target_spec ht
  obtain ⟨hmps, _, _, addrs, hlaid⟩ := hinv.buffer hp
  -- the buffer has one data page
  have hone : addrs.length = 1 := hlaid.length_of_two (by rw [hsize, hmps]; decide)
  obtain ⟨_, _, _, _, hok, _⟩ := hinv.read_moved (by decide) (by decide) ht (by decide) (by decide)
    hlaid (Or.inl (by decide))
  obtain ⟨w', cqe, data, hok', hback⟩ := hread _ prp ht (by decide)
  rw [hok] at hok'
  injection hok' with hok'
  have hlen : data.length = 4096 := by
    injection hok' with _ hok'
    injection hok' with _ hdata
    rw [← hdata, PRP.length_gather, List.length_map, hone]
    rfl
  have hblock := congrArg List.length (hback.blocks 1 (by decide))
  rw [BlockDevice.length_last, BlockDevice.block, List.length_take, List.length_drop, hlen] at hblock
  exact absurd hblock (by decide)

end Stack

end LoneNvme
