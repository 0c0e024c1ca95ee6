import LoneNvme.LbaRetry
import LoneNvme.PrpEnds
import LoneNvme.Session
import LoneNvme.StatusCodes

/-!
# The program that writes, reads and compares

`rw.py` writes one pattern to random addresses of a namespace, starts the generator over,
reads the same addresses and compares. On the simulated controller every command succeeds
and every byte comes back. The comparison is with all that the read buffer holds, and a
buffer is whole pages: a block size that is no multiple of the page size miscompares.

The proof takes the program apart where the source does. A run of the write loop leaves the
pattern on every block it drew (`InWrites`). Since the generator draws the same addresses after
a reset, the read loop finds each of its blocks written (`InReads`), whatever order the
generator draws them in.
-/

namespace LoneNvme

open Lib

/-! ## The addresses drawn -/

namespace LBARandGenLFSR

/-- The addresses that calls of `next` have returned, newest first, and the generator after them. -/
inductive Draws (depth : Nat) (g : LBARandGenLFSR) : List Nat → LBARandGenLFSR → Prop
  | nil : Draws depth g [] g
  | cons {slbas : List Nat} {slba : Nat} {g₁ g₂ : LBARandGenLFSR} :
      Draws depth g slbas g₁ → f depth g₁ = .ok ((slba : Int), g₂) → Draws depth g (slba :: slbas) g₂

namespace Draws

variable {depth slba : Nat} {g g₁ g₂ : LBARandGenLFSR} {slbas slbas' : List Nat}

/-- As many calls draw the same. -/
theorem unique (h : Draws depth g slbas g₁) (h' : Draws depth g slbas' g₂)
    (hlen : slbas.length = slbas'.length) : slbas = slbas' ∧ g₁ = g₂ := by
  induction h generalizing slbas' g₂ with
  | nil =>
      cases h' with
      | nil => exact ⟨rfl, rfl⟩
      | cons _ _ => exact absurd hlen (by simp)
  | cons _ hf ih =>
      cases h' with
      | nil => exact absurd hlen (by simp)
      | cons hrest hf' =>
          obtain ⟨rfl, rfl⟩ := ih hrest (Nat.succ.inj hlen)
          obtain ⟨hslba, rfl⟩ := Prod.mk.inj (Except.ok.inj (hf.symm.trans hf'))
          rw [Int.natCast_inj.mp hslba]
          exact ⟨rfl, rfl⟩

/-- **Starting over** draws nothing new before it has drawn as much. -/
theorem mem (h : Draws depth g slbas g₁) (h' : Draws depth g (slba :: slbas') g₂)
    (hlt : slbas'.length < slbas.length) : slba ∈ slbas := by
  induction h with
  | nil => exact absurd hlt (Nat.not_lt_zero _)
  | @cons slbas last _ _ hrest hf ih =>
      by_cases hlen : slbas'.length = slbas.length
      · obtain ⟨hsame, _⟩ := h'.unique (hrest.cons hf) (congrArg (· + 1) hlen)
        exact hsame ▸ List.mem_cons_self
      · exact List.mem_cons_of_mem last (ih (Nat.lt_of_le_of_ne (Nat.le_of_lt_succ hlt) hlen))

theorem reset (h : Draws depth g slbas g₁) : g₁.reset = g.reset := by
  induction h with
  | nil => rfl
  | cons _ hf ih => rw [reset_f hf, ih]

end Draws

variable {depth : Nat} {g g₁ : LBARandGenLFSR} {slbas : List Nat}

/-- What a call leaves, if it is not too deep: a state in range, of the same register. -/
theorem Holds.f_eq {r : Register} {s max : Nat} (h : Holds r g s) (hmax : g.maxValue = max)
    (habove : 2 ^ (r.n - 1) ≤ max) : ∃ k ≤ r.n, ∃ s' g', Holds r g' s' ∧ s' ≤ max
      ∧ g'.maxValue = g.maxValue ∧ g'.numBlocksPerIo = g.numBlocksPerIo
      ∧ ∀ depth, f depth g = if k < depth then .ok (s' * g.numBlocksPerIo, g')
        else .error (.custom "RecursionError" "maximum recursion depth exceeded") := by
  obtain ⟨k, hk, hreturns⟩ := h.returns hmax habove
  have hholds := h.iterate (k + 1)
  have hkeeps := iterate_turn g (k + 1)
  have hin := of_decide_eq_true hreturns.rejects.accepted
  have hall := hreturns.returns
  generalize LBARandGenLFSR.turn^[k + 1] g = g' at hholds hkeeps hin hall
  have hmax' : g'.maxValue = g.maxValue := by rw [hkeeps]
  have hsize : g'.numBlocksPerIo = g.numBlocksPerIo := by rw [hkeeps]
  rw [hholds.state, hmax', hmax] at hin
  rw [hholds.state] at hall
  exact ⟨k, hk, _, g', hholds, Int.ofNat_le.mp hin, hmax', hsize, hall⟩

namespace Ready

variable (R : g.Ready)

include R

/-- Drawing keeps the register, and the size of a step. -/
theorem holds_of_draws (h : Draws depth g slbas g₁) : g₁.maxValue = R.max
    ∧ g₁.numBlocksPerIo = g.numBlocksPerIo ∧ ∃ s, Holds R.register g₁ s := by
  induction h with
  | nil =>
      exact ⟨R.maxValue, rfl, R.start, R.bits.symm, R.shifts.symm,
        (congrArg LBARandGenLFSR.state R.fresh).symm.trans R.initialState, R.start_mem⟩
  | cons _ hf ih =>
      obtain ⟨hmax, hsize, s, hs⟩ := ih
      obtain ⟨k, _, s', g', hs', _, hmax', hsize', hall⟩ := hs.f_eq hmax R.above
      rw [hall] at hf
      split at hf
      · obtain ⟨_, rfl⟩ := Prod.mk.inj (Except.ok.inj hf)
        exact ⟨hmax'.trans hmax, hsize'.trans hsize, s', hs'⟩
      · exact absurd hf (by simp)

/-- **The next address comes**, and has room for the blocks of a command after it. -/
theorem next_draw {n nsze : Nat} (hpos : 0 < n) (hn : g.numBlocksPerIo = n)
    (hlba : g.maxLba = nsze - n) (hdepth : g.numBits < depth) (h : Draws depth g slbas g₁) :
    ∃ slba g₂, f depth g₁ = .ok (((slba : Nat) : Int), g₂) ∧ slba + n ≤ nsze := by
  obtain ⟨hmax, hsize, s, hs⟩ := R.holds_of_draws h
  obtain ⟨k, hk, s', g', _, hin, _, _, hall⟩ := hs.f_eq hmax R.above
  refine ⟨s' * n, g', ?_, ?_⟩
  · rw [hall, if_pos (by rw [R.bits] at hk; omega), hsize, hn]
    push_cast
    rfl
  · have hslots := R.slots
    rw [R.maxValue, hlba, hn] at hslots
    have hle : (s' : Int) * n ≤ (nsze : Int) - n :=
      Int.mul_le_of_le_ediv (by exact_mod_cast hpos) (by rw [← hslots]; exact_mod_cast hin)
    omega

end Ready

end LBARandGenLFSR

/-! ## What a write leaves alone -/

namespace NVSim

variable {cfg : RingsConfig} {nvsim nvsim' : NVSim} {command : Generic} {i c : Nat}

theorem complete_mem {cid : BitVec 16} {statusCode : Nat} {cmdSpec : BitVec 32}
    (h : nvsim.complete cid i c statusCode cmdSpec = .ok nvsim') : nvsim'.mem = nvsim.mem := by
  unfold complete at h
  split at h
  · rw [← Except.ok.inj h]
  · exact absurd h (by simp)

theorem NVSimWrite_mem (h : nvsim.NVSimWrite command i c = .ok nvsim') : nvsim'.mem = nvsim.mem := by
  unfold NVSimWrite at h
  obtain ⟨ns, _, h⟩ := bind_eq_ok h
  dsimp only at h
  split at h
  · exact complete_mem h
  · obtain ⟨prp, _, h⟩ := bind_eq_ok h
    obtain ⟨ns', _, h⟩ := bind_eq_ok h
    exact (complete_mem h).trans rfl

/-- An IO command that is answered has no status type, and a `Write` has changed no memory. -/
theorem io_answered (hcfg : cfg.Operable) (h : Idle cfg nvsim) (hi : i ∈ cfg.sqs) {cqe : CQE}
    (hsync : nvsim.syncCmd nvmCmdHandler i (cfg.cqOf i) command = .ok (nvsim', cqe)) :
    cqe.SF.SCT = 0 ∧ (command.OPC = Write.OPC → nvsim'.mem = nvsim.mem) := by
  have hsynced : Synced cfg nvmCmdHandler nvsim nvsim' i command cqe :=
    h.synced_of_ok hcfg hi (fun _ _ => nvmCmdHandler_completes) hsync
  obtain ⟨rings, data, after, statusCode, cmdSpec, _, hafter, hdata, hsame, _, _, hsct⟩ := hsynced.handled
  refine ⟨hsct, fun hopc => ?_⟩
  rw [hopc] at hafter
  have hmem := NVSimWrite_mem hafter
  rw [hsame]
  exact (complete_mem hdata).symm.trans hmem

end NVSim

/-! ## The program -/

/--
What a run is given: the arguments, what the device has found out about the namespace,
the pages of the two buffers, a queue and an identifier for each command, the frames the
interpreter has, and the status codes.
-/
structure Rw (C : Type*) where
  nsid : BitVec 32
  blockSize : Nat
  numCmds : Nat
  nsze : Nat
  lbaDsBytes : Nat
  writePage : Nat → Nat
  readPage : Nat → Nat
  queue : Nat → Nat
  cid : Nat → BitVec 16
  depth : Nat
  cls : CommandClasses C
  codes : NVMeStatusCodes C
  write : C
  read : C

/-- The device, and the generator. -/
structure RwState where
  nvsim : NVSim
  slbas : LBARandGenLFSR

namespace Rw

variable {C : Type*} [DecidableEq C] (p : Rw C) (cfg : RingsConfig)

section

omit [DecidableEq C]

/-- `xfer_len // ns_block_size`. -/
def numBlocks : Nat := p.blockSize / p.lbaDsBytes

/-- `data_out`. -/
def dataOut : List (BitVec 8) := List.replicate p.blockSize 0xED

/-- `zero_data`. -/
def zeroData : List (BitVec 8) := List.replicate p.blockSize 0

/-- `PRP(nvme_device.mem_mgr, xfer_len, nvme_device.mps, ...)`. -/
def newPrp (mem : Mem) (page : Nat → Nat) : Except Exc (PRP × Mem) := do
  let prp ← PRP.new p.blockSize NVSim.mps
  let made := prp.alloc mem fun k => PRP.pageAt NVSim.mps (page k)
  made.2.2
  return (made.1, made.2.1)

/-- Command `k`, with the address it is given. -/
def transfer (k : Nat) (slba : Int) : Transfer where
  i := p.queue k
  k := 0
  cid := p.cid k
  nsid := p.nsid
  slba := BitVec.ofInt 64 slba
  nlb := BitVec.ofInt 16 (p.numBlocks - 1)

end

/-- The next address into the command, and `sync_cmd` of it. -/
def syncNext (opc : BitVec 8) (type : C) (prp : PRP) (k : Nat) (s : RwState) :
    Except Exc RwState := do
  let drawn ← s.slbas.f p.depth
  let done ← s.nvsim.syncCmd NVSim.nvmCmdHandler (p.queue k) (cfg.cqOf (p.queue k))
    ((p.transfer k drawn.1).command opc prp)
  p.codes.check p.cls ⟨type, done.2⟩
  return ⟨done.1, drawn.2⟩

/-- A turn of the second loop. It is the write buffer that is zeroed. -/
def compareNext (writePrp readPrp : PRP) (s : RwState) (i : Nat) : Except Exc RwState := do
  let mem ← writePrp.setDataBuffer s.nvsim.mem p.zeroData
  let s ← p.syncNext cfg Read.OPC p.read readPrp (p.numCmds + i)
    { s with nvsim := { s.nvsim with mem } }
  let dataIn ← readPrp.getDataBuffer s.nvsim.mem
  assertThat (p.dataOut = dataIn) "Miscompare detected!"
  return s

/-- `main`, from the first buffer on. -/
def main (nvsim : NVSim) : Except Exc NVSim := do
  let writePrp ← p.newPrp nvsim.mem p.writePage
  let mem ← writePrp.1.setDataBuffer writePrp.2 p.dataOut
  let slbas ← LBARandGenLFSR.init p.nsze p.numBlocks 237
  let s ← (List.range p.numCmds).foldlM
    (fun s i => p.syncNext cfg Write.OPC p.write writePrp.1 i s) ⟨{ nvsim with mem }, slbas⟩
  let readPrp ← p.newPrp s.nvsim.mem p.readPage
  let s ← (List.range p.numCmds).foldlM (p.compareNext cfg writePrp.1 readPrp.1)
    ⟨{ s.nvsim with mem := readPrp.2 }, s.slbas.reset⟩
  return s.nvsim

/-! ## Its buffers -/

section

omit [DecidableEq C]

/-- The buffer that is made of the pages. -/
def prp (page : Nat → Nat) : PRP :=
  PRP.allocated p.blockSize NVSim.mps fun k => PRP.pageAt NVSim.mps (page k)

/--
A namespace of a device, buffers and commands the program works with: whole blocks, of a
size that buffers carry, and fresh pages for them.
-/
structure Suits (nvsim : NVSim) (ns : NVSimNamespace) : Prop where
  found : nvsim.namespaceAt p.nsid.toNat = .ok (some ns)
  lbaDsBytes : p.lbaDsBytes = ns.blockSize
  nsze : p.nsze = ns.numLbas
  addressable : ns.numLbas < 2 ^ 64
  positive : 0 < p.blockSize
  whole : ns.blockSize ∣ p.blockSize
  movable : PRP.Movable NVSim.mps p.blockSize
  capacity : p.blockSize ≤ NVSim.mps / 8 * NVSim.mps
  pages : PRP.PagesOk NVSim.mps ((p.prp p.readPage).memList ++ (p.prp p.writePage).memList)
  queues : ∀ k, p.queue k ∈ cfg.sqs

variable {p cfg} {nvsim : NVSim} {ns : NVSimNamespace}

/-- `PRP(...)`, of pages that no buffer in use has. -/
theorem newPrp_eq (hn : 0 < p.blockSize) (hcap : p.blockSize ≤ NVSim.mps / 8 * NVSim.mps)
    {mem : Mem} {prps : List PRP} (h : PRP.Buffers NVSim.mps mem prps) {page : Nat → Nat}
    (hpages : PRP.PagesOk NVSim.mps ((p.prp page :: prps).flatMap PRP.memList)) :
    ∃ mem', p.newPrp mem page = .ok (p.prp page, mem')
      ∧ PRP.Buffers NVSim.mps mem' (p.prp page :: prps) := by
  have hm : 0 < NVSim.mps := by decide
  obtain ⟨mem', halloc⟩ := PRP.alloc_eq hm hn hcap (fun k => PRP.pageAt NVSim.mps (page k)) mem
  refine ⟨mem', ?_, h.alloc hm hn (fun _ => rfl) halloc hpages⟩
  unfold newPrp
  rw [PRP.new_ok hm hn, ok_bind, halloc]
  rfl

namespace Suits

variable (h : p.Suits cfg nvsim ns)

include h

theorem numBlocks_mul : p.numBlocks * ns.blockSize = p.blockSize := by
  unfold numBlocks
  rw [h.lbaDsBytes]
  exact Nat.div_mul_cancel h.whole

theorem numBlocks_pos : 0 < p.numBlocks := by
  refine Nat.pos_of_ne_zero fun h0 => ?_
  have hmul := h.numBlocks_mul
  rw [h0, Nat.zero_mul] at hmul
  exact absurd h.positive (by omega)

/-- The number of blocks fits its field. -/
theorem numBlocks_lt : p.numBlocks < 2 ^ 16 := by
  have hmul := h.numBlocks_mul
  have hcap := h.capacity
  have hmps : NVSim.mps / 8 * NVSim.mps = 2097152 := by decide
  rcases ns.supported with hs | hs
  · rw [hs] at hmul
    omega
  · rw [hs] at hmul
    omega

/-- The fields of a command are the numbers put into them. -/
theorem transfer {slba : Nat} (hslba : slba + p.numBlocks ≤ ns.numLbas) (k : Nat) :
    (p.transfer k slba).slba.toNat = slba ∧ (p.transfer k slba).nlb.toNat + 1 = p.numBlocks := by
  have hpos := h.numBlocks_pos
  have hlt := h.numBlocks_lt
  have haddr := h.addressable
  refine ⟨?_, ?_⟩
  · show (BitVec.ofInt 64 (slba : Int)).toNat = slba
    rw [BitVec.ofInt_natCast, BitVec.toNat_ofNat, Nat.mod_eq_of_lt (by omega)]
  · show (BitVec.ofInt 16 ((p.numBlocks : Int) - 1)).toNat + 1 = p.numBlocks
    rw [show (p.numBlocks : Int) - 1 = ((p.numBlocks - 1 : Nat) : Int) by omega, BitVec.ofInt_natCast,
      BitVec.toNat_ofNat, Nat.mod_eq_of_lt (by omega)]
    omega

end Suits

/-! ## The device meanwhile -/

variable (p cfg nvsim ns)

/-- The pattern was written to the addresses, newest first. Nothing else has changed. -/
structure Written (slbas : List Nat) (w : Stack) : Prop where
  inv : w.Inv cfg
  found : ∃ ns', w.nvsim.namespaceAt p.nsid.toNat = .ok (some ns')
    ∧ ns'.blockSize = ns.blockSize ∧ ns'.numLbas = ns.numLbas
  others : ∀ nsid, nsid ≠ p.nsid.toNat → w.nvsim.namespaceAt nsid = nvsim.namespaceAt nsid
  written : w.written p.nsid.toNat = slbas.map (fun slba => (slba, p.dataOut))
    ++ [(0, ns.mm.load 0 (ns.numLbas * ns.blockSize))]

variable {p cfg nvsim ns} {slbas : List Nat} {w : Stack} {prp : PRP} {slba k : Nat}

/-- Whatever the namespaces hold, something was written there once. -/
def device (nvsim : NVSim) : Stack where
  nvsim := nvsim
  written nsid := match nvsim.namespaceAt nsid with
    | .ok (some ns) => [(0, ns.mm.load 0 (ns.numLbas * ns.blockSize))]
    | _ => []

theorem written_device (h : p.Suits cfg nvsim ns) (hidle : NVSim.Idle cfg nvsim) :
    p.Written cfg nvsim ns [] (device nvsim) where
  inv :=
    { rings := hidle.rings
      idle := hidle.idle
      buffers := ⟨⟨by simp [device], by simp [device], List.Pairwise.nil⟩, by simp [device]⟩
      blocks := fun nsid ns' hns => by
        unfold device
        dsimp only
        rw [show nvsim.namespaceAt nsid = .ok (some ns') from hns]
        exact BlockDevice.Represents.whole _ _ _ }
  found := ⟨ns, h.found, rfl, rfl⟩
  others _ _ := rfl
  written := by
    unfold device
    dsimp only
    rw [h.found]
    rfl

/-- Memory alone has changed, and the list of buffers. -/
theorem Written.withMem (h : p.Written cfg nvsim ns slbas w) {mem : Mem} {prps : List PRP}
    (hbuffers : PRP.Buffers NVSim.mps mem prps) : p.Written cfg nvsim ns slbas
      { w with nvsim := { w.nvsim with mem }, buffers := prps } :=
  ⟨⟨h.inv.rings, h.inv.idle, hbuffers, h.inv.blocks⟩, h.found, h.others, h.written⟩

/-- What a command of the program is about. -/
theorem Written.target (h : p.Written cfg nvsim ns slbas w) (hs : p.Suits cfg nvsim ns)
    (hprp : w.buffers[0]? = some prp) (hsize : prp.numBytes = p.blockSize)
    (hslba : slba + p.numBlocks ≤ ns.numLbas) (k : Nat) :
    ∃ ns', w.target (p.transfer k slba) = some (ns', prp) ∧ (p.transfer k slba).InRange ns'
      ∧ ns'.blockSize = ns.blockSize ∧ ns'.numLbas = ns.numLbas
      ∧ (p.transfer k slba).numBytes ns' = p.blockSize := by
  obtain ⟨ns', hns, hbs, hnum⟩ := h.found
  obtain ⟨haddr, hnlb⟩ := hs.transfer hslba k
  have hbytes : (p.transfer k slba).numBytes ns' = p.blockSize := by
    unfold Transfer.numBytes
    rw [hnlb, hbs]
    exact hs.numBlocks_mul
  refine ⟨ns', ?_, ?_, hbs, hnum, hbytes⟩
  · unfold Stack.target
    rw [show w.nvsim.namespaceAt (p.transfer k slba).nsid.toNat = .ok (some ns') from hns,
      show w.buffers[(p.transfer k slba).k]? = some prp from hprp]
    dsimp only
    rw [if_pos (hsize.trans hbytes.symm)]
  · unfold Transfer.InRange
    rw [haddr, hnum]
    omega

/-! ## One command -/

end

variable {p cfg} {nvsim : NVSim} {ns : NVSimNamespace} {slbas : List Nat} {w : Stack} {prp : PRP}
  {slba k : Nat} {g₁ g₂ : LBARandGenLFSR}

/-- The host finds no fault with a command that succeeded. -/
theorem check_success {type : C} {cqe : CQE} (hsct : cqe.SF.SCT = 0)
    (hsc : cqe.SF.SC = BitVec.ofNat 8 StatusCodes.successfulCompletion) :
    p.codes.check p.cls ⟨type, cqe⟩ = .ok () := if_pos ⟨hsct, hsc⟩

theorem syncNext_eq {opc : BitVec 8} {type : C} {nvsim' : NVSim} {cqe : CQE}
    (hdraw : g₁.f p.depth = .ok ((slba : Int), g₂))
    (hsync : nvsim.syncCmd NVSim.nvmCmdHandler (p.transfer k slba).i (cfg.cqOf (p.transfer k slba).i)
      ((p.transfer k slba).command opc prp) = .ok (nvsim', cqe)) (hsct : cqe.SF.SCT = 0)
    (hsc : cqe.SF.SC = BitVec.ofNat 8 StatusCodes.successfulCompletion) :
    p.syncNext cfg opc type prp k ⟨nvsim, g₁⟩ = .ok ⟨nvsim', g₂⟩ := by
  unfold syncNext
  dsimp only
  rw [hdraw, ok_bind]
  change nvsim.syncCmd NVSim.nvmCmdHandler (p.queue k) (cfg.cqOf (p.queue k))
    ((p.transfer k slba).command opc prp) = _ at hsync
  dsimp only
  rw [hsync, ok_bind, check_success hsct hsc]
  rfl

/-- **A write** of the pattern that is in the buffer already. -/
theorem Written.write_next (hcfg : cfg.Operable) (hs : p.Suits cfg nvsim ns)
    (h : p.Written cfg nvsim ns slbas w) (hprp : w.buffers[0]? = some prp)
    (hsize : prp.numBytes = p.blockSize)
    (hfilled : prp.setDataBuffer w.nvsim.mem p.dataOut = .ok w.nvsim.mem)
    (hdraw : g₁.f p.depth = .ok ((slba : Int), g₂)) (hslba : slba + p.numBlocks ≤ ns.numLbas)
    (k : Nat) : ∃ w', p.syncNext cfg Write.OPC p.write prp k ⟨w.nvsim, g₁⟩ = .ok ⟨w'.nvsim, g₂⟩
      ∧ p.Written cfg nvsim ns (slba :: slbas) w' ∧ w'.buffers = w.buffers
      ∧ w'.nvsim.mem = w.nvsim.mem := by
  obtain ⟨ns', ht, hrange, hbs, hnum, hbytes⟩ := h.target hs hprp hsize hslba k
  obtain ⟨w', cqe, hok, hwrote, hinv⟩ := h.inv.write_moved hcfg.usable hcfg.headsFit ht (hs.queues k)
    (show p.dataOut.length = prp.numBytes by rw [hsize]; exact List.length_replicate) hrange
    (by rw [hbytes]; exact hs.movable)
  -- filling the buffer changes nothing, so the rest of `write` is the command
  unfold Stack.write at hok
  rw [hfilled, ok_bind] at hok
  obtain ⟨⟨nvsim', cqe'⟩, hsync, hok⟩ := bind_eq_ok hok
  obtain ⟨hw', hcqe⟩ := Prod.mk.inj (Except.ok.inj hok)
  have hnvsim : w'.nvsim = nvsim' := by rw [← hw']
  have hbuffers : w'.buffers = w.buffers := by rw [← hw']
  rw [hcqe, ← hnvsim] at hsync
  obtain ⟨hsct, hmem⟩ := NVSim.io_answered hcfg ⟨h.inv.rings, h.inv.idle⟩ (hs.queues k) hsync
  refine ⟨w', syncNext_eq hdraw hsync hsct hwrote.status, ⟨hinv, ?_, fun nsid hne => ?_, ?_⟩,
    hbuffers, hmem rfl⟩
  · obtain ⟨ns'', hns, hbs', hnum', _⟩ := hwrote.range
    exact ⟨ns'', hns, hbs'.trans hbs, hnum'.trans hnum⟩
  · rw [hwrote.others nsid hne]
    exact h.others nsid hne
  · have hwritten := hwrote.written
    rw [(hs.transfer hslba k).1] at hwritten
    rw [hwritten]
    show Function.update w.written p.nsid.toNat ((slba, p.dataOut) :: w.written p.nsid.toNat) _ = _
    rw [Function.update_self, h.written]
    rfl

omit [DecidableEq C] in
/-- What a range of a namespace looks like where the pattern was written. -/
theorem eq_dataOut (hs : p.Suits cfg nvsim ns) {dataIn : List (BitVec 8)}
    (hlen : p.blockSize ≤ dataIn.length) {written history : List (Nat × List (BitVec 8))}
    (hwritten : written = slbas.map (fun slba => (slba, p.dataOut)) ++ history) (hmem : slba ∈ slbas)
    (hblocks : ∀ k, k < p.numBlocks → BlockDevice.block ns.blockSize dataIn k
      = BlockDevice.last ns.blockSize written (slba + k)) :
    dataIn.take p.blockSize = p.dataOut := by
  have hmul := hs.numBlocks_mul
  refine @BlockDevice.eq_of_blocks ns.blockSize p.numBlocks _ _
    (by rw [List.length_take, hmul]; omega) (by rw [hmul]; exact List.length_replicate) fun k hk => ?_
  have hend : (k + 1) * ns.blockSize ≤ p.blockSize := hmul ▸ Nat.mul_le_mul_right _ hk
  rw [BlockDevice.block_take hend, hblocks k hk, hwritten]
  unfold dataOut
  rw [BlockDevice.last_fill, if_pos ⟨slba, hmem, by omega, by rw [Nat.add_sub_cancel_left]; exact hend⟩,
    BlockDevice.block_replicate _ hend]

/-- **A read** of what was written: the pattern, and the rest of the last page. -/
theorem Written.read_next (hcfg : cfg.Operable) (hs : p.Suits cfg nvsim ns)
    (h : p.Written cfg nvsim ns slbas w) {page : Nat → Nat} (hprp : w.buffers[0]? = some (p.prp page))
    (hdraw : g₁.f p.depth = .ok ((slba : Int), g₂)) (hslba : slba + p.numBlocks ≤ ns.numLbas)
    (hmem : slba ∈ slbas) (k : Nat) : ∃ w' dataIn,
      p.syncNext cfg Read.OPC p.read (p.prp page) k ⟨w.nvsim, g₁⟩ = .ok ⟨w'.nvsim, g₂⟩
      ∧ p.Written cfg nvsim ns slbas w' ∧ w'.buffers = w.buffers
      ∧ (p.prp page).getDataBuffer w'.nvsim.mem = .ok dataIn
      ∧ (p.dataOut = dataIn ↔ NVSim.mps ∣ p.blockSize) := by
  obtain ⟨ns', ht, hrange, hbs, hnum, hbytes⟩ := h.target hs hprp rfl hslba k
  have hmove : PRP.Movable NVSim.mps ((p.transfer k slba).numBytes ns') := by
    rw [hbytes]
    exact hs.movable
  obtain ⟨addrs, hlaid, hfits⟩ := h.inv.fits_of_movable ht hmove
  obtain ⟨mem, rings, cqe, hscatter, hok, _, hsc, hinv⟩ :=
    h.inv.read_moved hcfg.usable hcfg.headsFit ht (hs.queues k) hrange hlaid hfits
  have hback := fun j hj => h.inv.readBack (k := j) ht hrange hmove hlaid hj
  rw [← hscatter, hbs] at hback
  unfold Stack.read at hok
  obtain ⟨⟨nvsim', cqe'⟩, hsync, hok⟩ := bind_eq_ok hok
  obtain ⟨dataIn, hget, hok⟩ := bind_eq_ok hok
  obtain ⟨hw', hok⟩ := Prod.mk.inj (Except.ok.inj hok)
  obtain ⟨hcqe, hdata⟩ := Prod.mk.inj hok
  have hnvsim : nvsim' = { w.nvsim with mem, rings } := congrArg Stack.nvsim hw'
  rw [hcqe] at hsync
  obtain ⟨hsct, _⟩ := NVSim.io_answered hcfg ⟨h.inv.rings, h.inv.idle⟩ (hs.queues k) hsync
  rw [← hdata] at hback
  -- what is read back is the data pages of the buffer, all of them
  have hlen : dataIn.length = PRP.dataPages p.blockSize NVSim.mps * NVSim.mps := by
    rw [hdata, PRP.length_gather, List.length_map, hlaid.length_allocated (by decide) hs.positive
      hs.movable ((PRP.dataPages_le_iff (by decide)).mpr hs.capacity)]
  have hpages : p.blockSize ≤ dataIn.length := by
    rw [hlen]
    exact (PRP.dataPages_le_iff (by decide)).mp (Nat.le_refl _)
  -- and its first bytes are the pattern, since it was written to these blocks
  have htake : dataIn.take p.blockSize = p.dataOut := by
    obtain ⟨haddr, hnlb⟩ := hs.transfer hslba k
    refine eq_dataOut hs hpages h.written hmem fun j hj => ?_
    have hj' := hback j (by omega)
    rw [haddr] at hj'
    exact hj'
  refine ⟨{ w with nvsim := nvsim' }, dataIn, syncNext_eq hdraw hsync hsct hsc, ?_, rfl, hget, ?_⟩
  · rw [hnvsim]
    exact ⟨hinv, h.found, h.others, h.written⟩
  · rw [← PRP.dataPages_mul_eq_iff (by decide), ← hlen]
    constructor
    · intro hsame
      rw [← hsame]
      exact List.length_replicate
    · intro hfull
      rw [← htake, ← hfull, List.take_length]

/-- **A turn of the second loop** agrees with what was written, as far as that is whole pages. -/
theorem Written.compare_next (hcfg : cfg.Operable) (hs : p.Suits cfg nvsim ns)
    (h : p.Written cfg nvsim ns slbas w)
    (hbuffers : w.buffers = [p.prp p.readPage, p.prp p.writePage])
    (hdraw : g₁.f p.depth = .ok ((slba : Int), g₂)) (hslba : slba + p.numBlocks ≤ ns.numLbas)
    (hmem : slba ∈ slbas) (i : Nat) :
    (NVSim.mps ∣ p.blockSize → ∃ w',
      p.compareNext cfg (p.prp p.writePage) (p.prp p.readPage) ⟨w.nvsim, g₁⟩ i = .ok ⟨w'.nvsim, g₂⟩
        ∧ p.Written cfg nvsim ns slbas w' ∧ w'.buffers = w.buffers)
      ∧ (¬ NVSim.mps ∣ p.blockSize →
        p.compareNext cfg (p.prp p.writePage) (p.prp p.readPage) ⟨w.nvsim, g₁⟩ i
          = .error (.assertionError "Miscompare detected!")) := by
  have hin : p.prp p.writePage ∈ w.buffers := by
    rw [hbuffers]
    exact List.mem_cons_of_mem _ List.mem_cons_self
  -- zeroing the write buffer leaves the buffer that is read into
  obtain ⟨mem, hzero, hbuffers', _⟩ := h.inv.buffers.fill (by decide) hin hs.movable
    (show p.zeroData.length = _ from List.length_replicate)
  have hprp : w.buffers[0]? = some (p.prp p.readPage) := by
    rw [hbuffers]
    rfl
  obtain ⟨w', dataIn, hsync, hwritten, hsame, hget, hiff⟩ :=
    (h.withMem hbuffers').read_next hcfg hs hprp hdraw hslba hmem (p.numCmds + i)
  have hturn : p.compareNext cfg (p.prp p.writePage) (p.prp p.readPage) ⟨w.nvsim, g₁⟩ i
      = assertThat (p.dataOut = dataIn) "Miscompare detected!" >>= fun _ => .ok ⟨w'.nvsim, g₂⟩ := by
    unfold compareNext
    dsimp only
    rw [hzero, ok_bind, hsync, ok_bind, hget]
    rfl
  rw [hturn]
  constructor
  · intro hdvd
    rw [decide_eq_true (hiff.mpr hdvd)]
    exact ⟨w', rfl, hwritten, hsame⟩
  · intro hdvd
    rw [decide_eq_false fun he => hdvd (hiff.mp he)]
    rfl

/-! ## The whole program -/

variable (p cfg nvsim ns) in
/--
What a run leaves that draws from `g`: the pattern at the addresses drawn, one for each
command, and idle queues. Everything else in the namespaces is as it was. The same addresses
are drawn once more when the generator starts over, which is why the reads find the pattern.
-/
structure Patterned (g : LBARandGenLFSR) (nvsim' : NVSim) : Prop where
  idle : NVSim.Idle cfg nvsim'
  others : ∀ nsid, nsid ≠ p.nsid.toNat → nvsim'.namespaceAt nsid = nvsim.namespaceAt nsid
  blocks : ∃ (ns' : NVSimNamespace) (slbas : List Nat) (g' : LBARandGenLFSR),
    nvsim'.namespaceAt p.nsid.toNat = .ok (some ns') ∧ slbas.length = p.numCmds
    ∧ g.Draws p.depth slbas g' ∧ g'.reset.Draws p.depth slbas g'
    ∧ (∀ slba ∈ slbas, slba + p.numBlocks ≤ ns.numLbas)
    ∧ ∀ lba, lba < ns.numLbas → ns'.mm.load (lba * ns.blockSize) ns.blockSize
      = if ∃ slba ∈ slbas, slba ≤ lba ∧ lba < slba + p.numBlocks then
          List.replicate ns.blockSize 0xED
        else ns.mm.load (lba * ns.blockSize) ns.blockSize

omit [DecidableEq C] in
theorem Written.patterned (hs : p.Suits cfg nvsim ns) (h : p.Written cfg nvsim ns slbas w)
    (hlen : slbas.length = p.numCmds) (hrange : ∀ slba ∈ slbas, slba + p.numBlocks ≤ ns.numLbas)
    {g : LBARandGenLFSR} (hdrawn : g.Draws p.depth slbas g₁) (hreset : g₁.reset = g) :
    p.Patterned cfg nvsim ns g w.nvsim where
  idle := ⟨h.inv.rings, h.inv.idle⟩
  others := h.others
  blocks := by
    obtain ⟨ns', hns, hbs, hnum⟩ := h.found
    have hagain : g₁.reset.Draws p.depth slbas g₁ := by rw [hreset]; exact hdrawn
    refine ⟨ns', slbas, g₁, hns, hlen, hdrawn, hagain, hrange, fun lba hlba => ?_⟩
    have hblock := h.inv.blocks _ ns' hns lba (by rw [hnum]; exact hlba)
    rw [hbs, h.written, dataOut, BlockDevice.last_fill,
      ← BlockDevice.Represents.whole ns.blockSize ns.numLbas ns.mm lba hlba] at hblock
    rw [hblock]
    refine if_congr (exists_congr fun slba => and_congr_right fun _ => and_congr_right fun hle => ?_)
      rfl rfl
    rw [← hs.numBlocks_mul, Nat.mul_le_mul_right_iff (by rcases ns.supported with h | h <;> omega)]
    omega

section

variable (p cfg nvsim ns) (g : LBARandGenLFSR)

/-- Some turns of the first loop later, the write buffer holding the pattern. -/
structure InWrites (s : RwState) (slbas : List Nat) (w : Stack) : Prop where
  state : s.nvsim = w.nvsim
  draws : g.Draws p.depth slbas s.slbas
  range : ∀ slba ∈ slbas, slba + p.numBlocks ≤ ns.numLbas
  written : p.Written cfg nvsim ns slbas w
  buffers : w.buffers = [p.prp p.writePage]
  filled : (p.prp p.writePage).setDataBuffer w.nvsim.mem p.dataOut = .ok w.nvsim.mem

/-- Some turns of the second loop later, the generator having started over. -/
structure InReads (slbas : List Nat) (s : RwState) (again : List Nat) (w : Stack) : Prop where
  state : s.nvsim = w.nvsim
  draws : g.Draws p.depth again s.slbas
  written : p.Written cfg nvsim ns slbas w
  buffers : w.buffers = [p.prp p.readPage, p.prp p.writePage]

/-- The generator does not stop, and stays in the namespace. -/
def KeepsDrawing : Prop := ∀ {slbas g₁}, g.Draws p.depth slbas g₁ → ∃ slba g₂,
  g₁.f p.depth = .ok (((slba : Nat) : Int), g₂) ∧ slba + p.numBlocks ≤ ns.numLbas

end

variable {g : LBARandGenLFSR} {again : List Nat} {s : RwState}

theorem InWrites.turn (hcfg : cfg.Operable) (hs : p.Suits cfg nvsim ns)
    (hnext : p.KeepsDrawing ns g) (h : p.InWrites cfg nvsim ns g s slbas w) (i : Nat) :
    ∃ s' slba w', p.syncNext cfg Write.OPC p.write (p.prp p.writePage) i s = .ok s'
      ∧ p.InWrites cfg nvsim ns g s' (slba :: slbas) w' := by
  obtain ⟨slba, g₂, hdraw, hslba⟩ := hnext h.draws
  obtain ⟨w', hsync, hwritten, hbuffers, hmem⟩ := h.written.write_next hcfg hs
    (by rw [h.buffers]; rfl) rfl h.filled hdraw hslba i
  rw [← h.state] at hsync
  refine ⟨_, slba, w', hsync, rfl, h.draws.cons hdraw, ?_, hwritten, hbuffers.trans h.buffers, ?_⟩
  · intro slba' hslba'
    rcases List.mem_cons.mp hslba' with rfl | hold
    · exact hslba
    · exact h.range slba' hold
  · rw [hmem]
    exact h.filled

/-- **The first loop** writes the pattern to as many addresses as there are commands. -/
theorem InWrites.loop (hcfg : cfg.Operable) (hs : p.Suits cfg nvsim ns)
    (hnext : p.KeepsDrawing ns g) (h : p.InWrites cfg nvsim ns g s [] w) :
    ∃ s' slbas w', (List.range p.numCmds).foldlM
        (fun s i => p.syncNext cfg Write.OPC p.write (p.prp p.writePage) i s) s = .ok s'
      ∧ slbas.length = p.numCmds ∧ p.InWrites cfg nvsim ns g s' slbas w' := by
  have hturn : ∀ i s, i < p.numCmds →
      (∃ slbas w, slbas.length = i ∧ p.InWrites cfg nvsim ns g s slbas w) →
      ∃ s', p.syncNext cfg Write.OPC p.write (p.prp p.writePage) i s = .ok s'
        ∧ ∃ slbas w, slbas.length = i + 1 ∧ p.InWrites cfg nvsim ns g s' slbas w := by
    rintro i s _ ⟨slbas, w, rfl, h⟩
    obtain ⟨s', slba, w', hsync, h'⟩ := h.turn hcfg hs hnext slbas.length
    exact ⟨s', hsync, slba :: slbas, w', rfl, h'⟩
  obtain ⟨s', hrun, slbas, w', hlen, h'⟩ := foldlM_range_ok ⟨[], w, rfl, h⟩ hturn
  exact ⟨s', slbas, w', hrun, hlen, h'⟩

theorem InReads.turn (hcfg : cfg.Operable) (hs : p.Suits cfg nvsim ns)
    (hnext : p.KeepsDrawing ns g) (hdrawn : g.Draws p.depth slbas g₁)
    (h : p.InReads cfg nvsim ns g slbas s again w) (hlt : again.length < slbas.length) (i : Nat) :
    (NVSim.mps ∣ p.blockSize → ∃ s' slba w',
      p.compareNext cfg (p.prp p.writePage) (p.prp p.readPage) s i = .ok s'
        ∧ p.InReads cfg nvsim ns g slbas s' (slba :: again) w')
      ∧ (¬ NVSim.mps ∣ p.blockSize →
        p.compareNext cfg (p.prp p.writePage) (p.prp p.readPage) s i
          = .error (.assertionError "Miscompare detected!")) := by
  obtain ⟨slba, g₂, hdraw, hslba⟩ := hnext h.draws
  have hmem := hdrawn.mem (h.draws.cons hdraw) hlt
  obtain ⟨hequal, hmiscompare⟩ := h.written.compare_next hcfg hs h.buffers hdraw hslba hmem i
  rw [← h.state] at hequal hmiscompare
  refine ⟨fun hdvd => ?_, hmiscompare⟩
  obtain ⟨w', hturn, hwritten, hbuffers⟩ := hequal hdvd
  exact ⟨_, slba, w', hturn, rfl, h.draws.cons hdraw, hwritten, hbuffers.trans h.buffers⟩

/-- **The second loop** draws the same addresses. -/
theorem InReads.loop (hcfg : cfg.Operable) (hs : p.Suits cfg nvsim ns)
    (hnext : p.KeepsDrawing ns g) (hdrawn : g.Draws p.depth slbas g₁)
    (hlen : slbas.length = p.numCmds) (h : p.InReads cfg nvsim ns g slbas s [] w) :
    (NVSim.mps ∣ p.blockSize ∨ p.numCmds = 0 → ∃ s' again w', (List.range p.numCmds).foldlM
        (p.compareNext cfg (p.prp p.writePage) (p.prp p.readPage)) s = .ok s'
      ∧ p.InReads cfg nvsim ns g slbas s' again w')
    ∧ (¬ (NVSim.mps ∣ p.blockSize ∨ p.numCmds = 0) → (List.range p.numCmds).foldlM
        (p.compareNext cfg (p.prp p.writePage) (p.prp p.readPage)) s
      = .error (.assertionError "Miscompare detected!")) := by
  constructor
  · intro hdvd
    have hturn : ∀ i s, i < p.numCmds →
        (∃ again w, again.length = i ∧ p.InReads cfg nvsim ns g slbas s again w) →
        ∃ s', p.compareNext cfg (p.prp p.writePage) (p.prp p.readPage) s i = .ok s'
          ∧ ∃ again w, again.length = i + 1 ∧ p.InReads cfg nvsim ns g slbas s' again w := by
      rintro i s hi ⟨again, w, rfl, h⟩
      obtain ⟨s', slba, w', hrun, h'⟩ := (h.turn hcfg hs hnext hdrawn (by omega) again.length).1
        (hdvd.resolve_right (by omega))
      exact ⟨s', hrun, slba :: again, w', rfl, h'⟩
    obtain ⟨s', hrun, again, w', _, h'⟩ := foldlM_range_ok ⟨[], w, rfl, h⟩ hturn
    exact ⟨s', again, w', hrun, h'⟩
  · intro hnot
    obtain ⟨hdvd, hnum⟩ := not_or.mp hnot
    obtain ⟨n, hn⟩ := Nat.exists_eq_succ_of_ne_zero hnum
    -- the first comparison fails
    have hturn := (h.turn hcfg hs hnext hdrawn (by rw [hlen, hn]; exact Nat.succ_pos n) 0).2 hdvd
    rw [hn, List.range_succ_eq_map, List.foldlM_cons, hturn]
    rfl

/--
**The program verifies what it wrote.** After any session with the simulated controller, on
a namespace whose size the generator takes, it ends with every command successful and every
comparison equal, if the block size is a multiple of the page size. If it is not, the first
comparison fails: a buffer is read as whole pages, and the pattern is only as long as the
blocks of a command.
-/
theorem main_spec (hcfg : cfg.Operable) (hsession : (NVSim.session cfg).Reachable nvsim)
    (hs : p.Suits cfg nvsim ns) (hg : LBARandGenLFSR.init p.nsze p.numBlocks 237 = .ok g)
    (hdepth : g.numBits < p.depth) :
    (NVSim.mps ∣ p.blockSize ∨ p.numCmds = 0 →
        ∃ nvsim', p.main cfg nvsim = .ok nvsim' ∧ p.Patterned cfg nvsim ns g nvsim')
      ∧ (¬ (NVSim.mps ∣ p.blockSize ∨ p.numCmds = 0) →
        p.main cfg nvsim = .error (.assertionError "Miscompare detected!")) := by
  have hpos := hs.numBlocks_pos
  obtain ⟨⟨R⟩, hlba, hsize⟩ := LBARandGenLFSR.ready_of_init hg (by omega) (by decide)
  rw [hs.nsze] at hlba
  have hnext : p.KeepsDrawing ns g := fun h => R.next_draw hpos hsize hlba hdepth h
  have hstart := written_device hs (NVSim.idle_reachable hcfg hsession)
  -- the write buffer, and the pattern in it
  have hwpages : PRP.PagesOk NVSim.mps ([p.prp p.writePage].flatMap PRP.memList) := by
    rw [List.flatMap_singleton]
    exact hs.pages.sublist (List.sublist_append_right _ _)
  obtain ⟨mem₁, hnew, hb₁⟩ := newPrp_eq hs.positive hs.capacity hstart.inv.buffers hwpages
  obtain ⟨mem₂, hfill, hb₂, hfilled⟩ := hb₁.fill (by decide) List.mem_cons_self hs.movable
    (show p.dataOut.length = _ from List.length_replicate)
  obtain ⟨s, slbas, w, hwrites, hlen, h⟩ := InWrites.loop (s := ⟨{ nvsim with mem := mem₂ }, g⟩) hcfg hs
    hnext ⟨rfl, .nil, by simp, hstart.withMem hb₂, rfl, hfilled⟩
  -- the read buffer
  have hrpages : PRP.PagesOk NVSim.mps ((p.prp p.readPage :: w.buffers).flatMap PRP.memList) := by
    rw [h.buffers, List.flatMap_cons, List.flatMap_singleton]
    exact hs.pages
  obtain ⟨mem₃, hnew', hb₃⟩ := newPrp_eq hs.positive hs.capacity h.written.inv.buffers hrpages
  have hreset : s.slbas.reset = g := by rw [h.draws.reset, R.fresh]
  obtain ⟨hequal, hmiscompare⟩ := InReads.loop (s := ⟨{ s.nvsim with mem := mem₃ }, g⟩) hcfg hs hnext
    h.draws hlen ⟨by rw [h.state], .nil, h.written.withMem hb₃, by rw [h.buffers]⟩
  have hmain : p.main cfg nvsim = (List.range p.numCmds).foldlM
      (p.compareNext cfg (p.prp p.writePage) (p.prp p.readPage)) ⟨{ s.nvsim with mem := mem₃ }, g⟩
        >>= fun s => .ok s.nvsim := by
    change p.newPrp nvsim.mem p.writePage = _ at hnew
    rw [← h.state] at hnew'
    unfold main
    rw [hnew, ok_bind, hfill, ok_bind, hg, ok_bind, hwrites, ok_bind, hnew', ok_bind, hreset]
    rfl
  rw [hmain]
  constructor
  · intro hdvd
    obtain ⟨s', again, w', hrun, h'⟩ := hequal hdvd
    rw [hrun, ok_bind, h'.state]
    exact ⟨_, rfl, h'.written.patterned hs hlen h.range h.draws hreset⟩
  · intro hdvd
    rw [hmiscompare hdvd]
    rfl

/-! ### Two commands on a small namespace -/

def fourThousandBlocks : NVSimNamespace where
  blockSize := 512
  numLbas := 4000
  mm _ := 0
  supported := .inl rfl

def fourThousandStart : NVSim where
  rings := Rings.start NVSim.twoPairs
  mem := fun _ => 0
  namespaces := [fourThousandBlocks]

/-- `rw.py nvsim 1 --block-size blockSize --num-cmds 2`. -/
def twoCommands (blockSize : Nat) : Rw String where
  nsid := 1
  blockSize := blockSize
  numCmds := 2
  nsze := 4000
  lbaDsBytes := 512
  writePage _ := 4096
  readPage _ := 8192
  queue _ := 1
  cid := BitVec.ofNat 16
  depth := 1000
  cls := ⟨"Generic", fun _ => ["NVMCommand"], id⟩
  codes := NVMeStatusCodes.new ⟨"Generic", fun _ => ["NVMCommand"], id⟩
  write := "Write"
  read := "Read"

theorem suits_twoCommands {blockSize : Nat} (h : blockSize = 512 ∨ blockSize = 4096) :
    (twoCommands blockSize).Suits NVSim.twoPairs fourThousandStart fourThousandBlocks := by
  have hqueue : 1 ∈ NVSim.twoPairs.sqs := by decide
  rcases h with rfl | rfl
  · exact ⟨rfl, rfl, rfl, by decide, by decide, by decide, by decide, by decide, by decide,
      fun _ => hqueue⟩
  · exact ⟨rfl, rfl, rfl, by decide, by decide, by decide, by decide, by decide, by decide,
      fun _ => hqueue⟩

/-- With a page in each command the two reads match. With a block in each the first one does not. -/
theorem main_spec_twoCommands :
    (∃ g nvsim', LBARandGenLFSR.init 4000 8 237 = .ok g
      ∧ (twoCommands 4096).main NVSim.twoPairs fourThousandStart = .ok nvsim'
      ∧ (twoCommands 4096).Patterned NVSim.twoPairs fourThousandStart fourThousandBlocks g nvsim')
    ∧ (twoCommands 512).main NVSim.twoPairs fourThousandStart
      = .error (.assertionError "Miscompare detected!") := by
  have hsession : (NVSim.session NVSim.twoPairs).Reachable fourThousandStart :=
    Machine.Reachable.start (Rings.init_start NVSim.twoPairs)
  obtain ⟨nvsim', hmain, hpattern⟩ :=
    (main_spec NVSim.operable_twoPairs hsession (suits_twoCommands (.inr rfl)) rfl (by decide)).1
      (.inl (by decide))
  exact ⟨⟨_, nvsim', rfl, hmain, hpattern⟩,
    (main_spec NVSim.operable_twoPairs hsession (suits_twoCommands (.inl rfl)) rfl (by decide)).2
      (by decide)⟩

end Rw

end LoneNvme
