import LoneNvme.Lib.Bytes
import LoneNvme.Lib.Links
import LoneNvme.Lib.Python

/-!
# The IOVA ranges that VFIO reports

The answer to `VFIO_IOMMU_GET_INFO` has a chain of capabilities behind its fixed part, at
offsets from its own start. `initialize` follows the chain and takes the ranges of each
capability that has some. It reads such a capability as a structure with five ranges, no
matter how many there are, or how much of the buffer is left.

The structures are read with their fields at the offsets `ctypes` gives them, which is where
the two mistakes lie: an array of five slots that is indexed with any number, and a
`from_buffer` that wants as many bytes as the structure is long. `readsRanges_iff` says which
chains meet neither.
-/

namespace LoneNvme

open Lib

/-! ## The structures -/

/-- What `from_buffer` checks. -/
def checkBuffer (bytes : List (BitVec 8)) (size : Nat) : Except Exc Unit :=
  if size ≤ bytes.length then .ok ()
  else .error (.valueError ("Buffer size too small (" ++ toString bytes.length
    ++ " instead of at least " ++ toString size ++ " bytes)"))

structure VfioCapHeader where
  id : Nat
  version : Nat
  next : Nat

namespace VfioCapHeader

def size : Nat := 8

def fromBuffer (bytes : List (BitVec 8)) : Except Exc VfioCapHeader := do
  checkBuffer bytes size
  return ⟨scalar bytes 0 2, scalar bytes 2 2, scalar bytes 4 4⟩

end VfioCapHeader

structure VfioIovaRange where
  start : Nat
  stop : Nat

namespace VfioIovaRange

def size : Nat := 16

/-- The range at a place of a buffer. -/
def read (bytes : List (BitVec 8)) (offset : Nat) : VfioIovaRange :=
  ⟨scalar bytes offset 8, scalar bytes (offset + 8) 8⟩

end VfioIovaRange

structure VfioCapIovaRanges where
  header : VfioCapHeader
  nrIovas : Nat
  reserved : Nat
  ranges : List VfioIovaRange

namespace VfioCapIovaRanges

/-- The length of the array `ranges`. -/
def numRanges : Nat := 5

def size : Nat := 16 + numRanges * VfioIovaRange.size

def fromBuffer (bytes : List (BitVec 8)) : Except Exc VfioCapIovaRanges := do
  checkBuffer bytes size
  let header ← VfioCapHeader.fromBuffer bytes
  return ⟨header, scalar bytes 8 4, scalar bytes 12 4,
    (List.range numRanges).map fun i => VfioIovaRange.read bytes (16 + i * VfioIovaRange.size)⟩

/-- `ranges[i]`. -/
def getRange (cap : VfioCapIovaRanges) (i : Nat) : Except Exc VfioIovaRange :=
  match cap.ranges[i]? with
  | some range => .ok range
  | none => .error (.indexError "invalid index")

end VfioCapIovaRanges

/-- The answer, as far as the loop uses it. -/
structure VfioIommuGetInfo where
  capOffset : Nat
  caps : List (BitVec 8)
  length_caps : caps.length = 1024

namespace VfioIommuGetInfo

/-- Where `caps` begins. -/
def capsOffset : Nat := 24

variable (info : VfioIommuGetInfo)

/-- The bytes from a capability on. -/
def capBytes (nextCapOffset : Nat) : List (BitVec 8) :=
  Slice.get info.caps ((nextCapOffset : Int) - capsOffset) info.caps.length

/-- The inner loop: the first `n` ranges of a capability. -/
def appendRanges (cap : VfioCapIovaRanges) (iovaRanges : List (Nat × Nat)) (n : Nat) :
    Except Exc (List (Nat × Nat)) :=
  (List.range n).foldlM (fun iovaRanges i => do
    let range ← cap.getRange i
    return iovaRanges ++ [(range.start, range.stop)]) iovaRanges

/-- One turn of the loop, up to the count of the turns: the next offset, and the ranges. -/
def readCap (nextCapOffset : Nat) (iovaRanges : List (Nat × Nat)) :
    Except Exc (Nat × List (Nat × Nat)) := do
  let capBytes := info.capBytes nextCapOffset
  let cap ← VfioCapHeader.fromBuffer capBytes
  if cap.id = 0x01 then
    let ranges ← VfioCapIovaRanges.fromBuffer capBytes
    let iovaRanges ← appendRanges ranges iovaRanges ranges.nrIovas
    return (cap.next, iovaRanges)
  else
    return (cap.next, iovaRanges)

/-- The loop; `left` more turns pass the assertion at their end. -/
def capLoop (left nextCapOffset : Nat) (iovaRanges : List (Nat × Nat)) :
    Except Exc (List (Nat × Nat)) :=
  if nextCapOffset = 0 then .ok iovaRanges
  else do
    let (nextCapOffset, iovaRanges) ← info.readCap nextCapOffset iovaRanges
    match left with
    | 0 => .error (.assertionError "Stopping us from looping forever")
    | left + 1 => capLoop left nextCapOffset iovaRanges

/-- `iova_ranges`, as `initialize` sets it. -/
def iovaRanges : Except Exc (List (Nat × Nat)) := info.capLoop 999 info.capOffset []

/-! ## What the answer says -/

/-- A scalar at a place of the whole answer. -/
def scalarAt (p size : Nat) : Nat := scalar info.caps (p - capsOffset) size

def idAt (p : Nat) : Nat := info.scalarAt p 2

def nextAt (p : Nat) : Nat := info.scalarAt (p + 4) 4

def nrAt (p : Nat) : Nat := info.scalarAt (p + 8) 4

/-- The ranges of the capability at `p`, if it is one that has ranges. -/
def rangesAt (p : Nat) : List (Nat × Nat) :=
  if info.idAt p = 0x01 then
    (List.range (info.nrAt p)).map fun i =>
      (info.scalarAt (p + 16 + 16 * i) 8, info.scalarAt (p + 24 + 16 * i) 8)
  else []

/-- A chain of capabilities inside the buffer, from the one the answer names to the last. -/
structure CapChain (path : List Nat) : Prop where
  links : Links.Path info.nextAt 0 info.capOffset path
  behind : ∀ p ∈ path, 24 ≤ p
  header : ∀ p ∈ path, p + 8 ≤ 24 + 1024
  ranges : ∀ p ∈ path, info.idAt p = 0x01 → p + 16 + 16 * info.nrAt p ≤ 24 + 1024

/-- The structure with five ranges fits the capability: it has no more, and lies in the buffer. -/
def Fits (p : Nat) : Prop :=
  info.idAt p = 0x01 → info.nrAt p ≤ 5 ∧ p + 96 ≤ 24 + 1024

/-! ## Reading a capability -/

section

variable {bytes : List (BitVec 8)} {cap : VfioCapIovaRanges} {acc : List (Nat × Nat)} {n : Nat}

theorem checkBuffer_of_le (h : n ≤ bytes.length) : checkBuffer bytes n = .ok () := if_pos h

theorem checkBuffer_of_lt (h : bytes.length < n) : ∃ e, checkBuffer bytes n = .error e :=
  ⟨_, if_neg (Nat.not_le_of_lt h)⟩

theorem appendRanges_succ (cap : VfioCapIovaRanges) (acc : List (Nat × Nat)) (n : Nat) :
    appendRanges cap acc (n + 1) = (do
      let acc ← appendRanges cap acc n
      let range ← cap.getRange n
      return acc ++ [(range.start, range.stop)]) := by
  rw [appendRanges, List.range_succ, List.foldlM_append]
  simp only [List.foldlM_cons, List.foldlM_nil, bind_pure]
  rfl

/-- The ranges of the array are taken in order. -/
theorem appendRanges_of_le (h : n ≤ cap.ranges.length) : appendRanges cap acc n
    = .ok (acc ++ (cap.ranges.take n).map fun range => (range.start, range.stop)) := by
  induction n with
  | zero => rw [List.take_zero, List.map_nil, List.append_nil]; rfl
  | succ n ih =>
      have hget : cap.getRange n = .ok cap.ranges[n] := by
        rw [VfioCapIovaRanges.getRange, List.getElem?_eq_getElem h]
      rw [appendRanges_succ, ih (Nat.le_of_succ_le h), List.take_succ_eq_append_getElem h,
        List.map_append, ← List.append_assoc, ok_bind, hget]
      rfl

/-- Behind the array there are none. -/
theorem appendRanges_of_lt (h : cap.ranges.length < n) :
    ∃ e, appendRanges cap acc n = .error e := by
  induction n with
  | zero => exact absurd h (Nat.not_lt_zero _)
  | succ n ih =>
      rw [appendRanges_succ]
      rcases Nat.lt_succ_iff_lt_or_eq.mp h with hlt | heq
      · obtain ⟨e, he⟩ := ih hlt
        rw [he, error_bind]
        exact ⟨e, rfl⟩
      · have hget : cap.getRange n = .error (.indexError "invalid index") := by
          rw [VfioCapIovaRanges.getRange, List.getElem?_eq_none (Nat.le_of_eq heq)]
        rw [appendRanges_of_le (Nat.le_of_eq heq.symm), ok_bind, hget]
        exact ⟨_, rfl⟩

end

section

variable {info} {p : Nat} {acc : List (Nat × Nat)}

theorem capBytes_eq (hlow : 24 ≤ p) (hhigh : p ≤ 24 + 1024) :
    info.capBytes p = info.caps.drop (p - 24) := by
  have hlen := info.length_caps
  have hstart : (p : Int) - capsOffset = ((p - 24 : Nat) : Int) := by
    unfold capsOffset
    omega
  rw [capBytes, hstart, Slice.get_natCast _ (by omega) (Nat.le_refl _)]
  exact List.take_of_length_le (by rw [List.length_drop])

theorem length_capBytes (hlow : 24 ≤ p) (hhigh : p ≤ 24 + 1024) :
    (info.capBytes p).length = 24 + 1024 - p := by
  rw [capBytes_eq hlow hhigh, List.length_drop, info.length_caps]
  omega

/-- A scalar behind the start of a capability. -/
theorem scalar_capBytes (hlow : 24 ≤ p) (hhigh : p ≤ 24 + 1024) (offset size : Nat) :
    scalar (info.capBytes p) offset size = info.scalarAt (p + offset) size := by
  rw [capBytes_eq hlow hhigh, scalar_drop, scalarAt]
  refine congrArg (scalar info.caps · size) ?_
  unfold capsOffset
  omega

theorem header_fromBuffer (hlow : 24 ≤ p) (hhigh : p + 8 ≤ 24 + 1024) :
    VfioCapHeader.fromBuffer (info.capBytes p)
      = .ok ⟨info.idAt p, info.scalarAt (p + 2) 2, info.nextAt p⟩ := by
  have hle : p ≤ 24 + 1024 := by omega
  have hsize : VfioCapHeader.size ≤ (info.capBytes p).length := by
    rw [length_capBytes hlow hle]
    show 8 ≤ _
    omega
  rw [VfioCapHeader.fromBuffer, checkBuffer_of_le hsize, scalar_capBytes hlow hle,
    scalar_capBytes hlow hle, scalar_capBytes hlow hle]
  rfl

/-- The array of a capability that has room for it. -/
theorem ranges_fromBuffer (hlow : 24 ≤ p) (hhigh : p + 96 ≤ 24 + 1024) :
    ∃ cap, VfioCapIovaRanges.fromBuffer (info.capBytes p) = .ok cap ∧ cap.nrIovas = info.nrAt p
      ∧ cap.ranges = (List.range 5).map fun i =>
        ⟨info.scalarAt (p + 16 + 16 * i) 8, info.scalarAt (p + 24 + 16 * i) 8⟩ := by
  have hle : p ≤ 24 + 1024 := by omega
  have hsize : VfioCapIovaRanges.size ≤ (info.capBytes p).length := by
    rw [length_capBytes hlow hle]
    show 96 ≤ _
    omega
  rw [VfioCapIovaRanges.fromBuffer, checkBuffer_of_le hsize, ok_bind,
    header_fromBuffer hlow (by omega), ok_bind]
  refine ⟨_, rfl, scalar_capBytes hlow hle 8 4, List.map_congr_left fun i _ => ?_⟩
  show VfioIovaRange.mk _ _ = _
  rw [scalar_capBytes hlow hle, scalar_capBytes hlow hle]
  have hstart : p + (16 + i * 16) = p + 16 + 16 * i := by omega
  have hstop : p + (16 + i * 16 + 8) = p + 24 + 16 * i := by omega
  exact congrArg₂ VfioIovaRange.mk (congrArg (info.scalarAt · 8) hstart)
    (congrArg (info.scalarAt · 8) hstop)

/-- **A capability that fits** is read as it is. -/
theorem readCap_of_fits (hlow : 24 ≤ p) (hhigh : p + 8 ≤ 24 + 1024) (hfits : info.Fits p) :
    info.readCap p acc = .ok (info.nextAt p, acc ++ info.rangesAt p) := by
  rw [readCap, header_fromBuffer hlow hhigh, ok_bind, rangesAt]
  by_cases hid : info.idAt p = 0x01
  · obtain ⟨hnr, hroom⟩ := hfits hid
    obtain ⟨cap, hcap, hcapNr, hranges⟩ := ranges_fromBuffer hlow hroom
    rw [if_pos hid, if_pos hid, hcap, ok_bind, hcapNr,
      appendRanges_of_le (by rw [hranges]; simpa using hnr), hranges, ← List.map_take,
      List.take_range, Nat.min_eq_left hnr, List.map_map]
    rfl
  · rw [if_neg hid, if_neg hid, List.append_nil]
    rfl

/-- One that does not fit raises. -/
theorem readCap_of_not_fits (hlow : 24 ≤ p) (hhigh : p + 8 ≤ 24 + 1024) (hfits : ¬ info.Fits p) :
    ∃ e, info.readCap p acc = .error e := by
  obtain ⟨hid, hno⟩ := Classical.not_imp.mp hfits
  rw [readCap, header_fromBuffer hlow hhigh, ok_bind, if_pos hid]
  by_cases hroom : p + 96 ≤ 24 + 1024
  · obtain ⟨cap, hcap, hcapNr, hranges⟩ := ranges_fromBuffer hlow hroom
    have hlen : cap.ranges.length < info.nrAt p := by
      rw [hranges, List.length_map, List.length_range]
      omega
    obtain ⟨e, he⟩ := @appendRanges_of_lt cap acc _ hlen
    rw [hcap, ok_bind, hcapNr, he, error_bind]
    exact ⟨e, rfl⟩
  · have hsize : (info.capBytes p).length < VfioCapIovaRanges.size := by
      rw [length_capBytes hlow (by omega)]
      show _ < 96
      omega
    obtain ⟨e, he⟩ := checkBuffer_of_lt hsize
    rw [VfioCapIovaRanges.fromBuffer, he]
    exact ⟨e, rfl⟩

end

/-! ## The length of a chain -/

section

variable {info} {path : List Nat} {p : Nat}

theorem scalar_four (bytes : List (BitVec 8)) (i : Nat) : scalar bytes i 4
    = byteAt bytes i + 256 * (byteAt bytes (i + 1)
      + 256 * (byteAt bytes (i + 2) + 256 * byteAt bytes (i + 3))) := by
  have hzero : scalar bytes (i + 1 + 1 + 1 + 1) 0 = 0 := rfl
  rw [scalar_succ, scalar_succ, scalar_succ, scalar_succ, hzero, Nat.mul_zero]
  rfl

namespace CapChain

/-- A link of the chain that is not the null leads to a header inside the buffer. -/
theorem next_mem (h : info.CapChain path) (hp : p ∈ path) (hne : info.nextAt p ≠ 0) :
    24 ≤ info.nextAt p ∧ info.nextAt p ≤ 1040 := by
  have hmem := h.links.next_mem hp hne
  have hheader := h.header _ hmem
  exact ⟨h.behind _ hmem, by omega⟩

/-- Two headers in neighbouring bytes would share three bytes of their small links. -/
theorem next_succ_eq_zero (h : info.CapChain path) (hp : p ∈ path) (hne : info.nextAt p ≠ 0)
    (hsucc : p + 1 ∈ path) : info.nextAt (p + 1) = 0 := by
  by_contra hne'
  have hfirst := h.next_mem hp hne
  have hsecond := h.next_mem hsucc hne'
  have hlow := h.behind p hp
  have hplace : p + 1 + 4 - capsOffset = p + 4 - capsOffset + 1 := by
    unfold capsOffset
    omega
  rw [nextAt, scalarAt, scalar_four] at hfirst hsecond
  rw [hplace] at hsecond
  simp only [Nat.add_assoc, Nat.reduceAdd] at hfirst hsecond
  omega

/-- **A chain inside the buffer is short.** -/
theorem length_lt (h : info.CapChain path) : path.length < 1000 := by
  have hapart : ∀ p ∈ (path.filter fun p => info.nextAt p ≠ 0).toFinset,
      p + 1 ∉ (path.filter fun p => info.nextAt p ≠ 0).toFinset := by
    intro p hp hsucc
    simp only [List.mem_toFinset, List.mem_filter, decide_eq_true_eq] at hp hsucc
    exact hsucc.2 (h.next_succ_eq_zero hp.1 hp.2 hsucc.1)
  have hlt : ∀ p ∈ (path.filter fun p => info.nextAt p ≠ 0).toFinset, p < 2 * 521 := by
    intro p hp
    simp only [List.mem_toFinset, List.mem_filter] at hp
    have hheader := h.header p hp.1
    omega
  have hcard := Links.card_le_of_apart hlt hapart
  rw [List.toFinset_card_of_nodup (h.links.nodup.filter _)] at hcard
  have hle := h.links.length_le
  omega

end CapChain

end

/-! ## The loop -/

section

variable {info} {path : List Nat} {p left : Nat} {acc : List (Nat × Nat)}

/-- A chain that fits, from any place on, is read to its end. -/
theorem capLoop_of_fits (hpath : Links.Path info.nextAt 0 p path) (hleft : path.length ≤ left)
    (hbehind : ∀ q ∈ path, 24 ≤ q) (hheader : ∀ q ∈ path, q + 8 ≤ 24 + 1024)
    (hfits : ∀ q ∈ path, info.Fits q) :
    info.capLoop left p acc = .ok (acc ++ path.flatMap info.rangesAt) := by
  induction hpath generalizing left acc with
  | nil =>
      rw [capLoop.eq_def, if_pos rfl, List.flatMap_nil, List.append_nil]
  | @cons p path hne hpath ih =>
      cases left with
      | zero => exact absurd hleft (Nat.not_succ_le_zero _)
      | succ left =>
          rw [capLoop.eq_def, if_neg hne, readCap_of_fits (hbehind p List.mem_cons_self)
            (hheader p List.mem_cons_self) (hfits p List.mem_cons_self), ok_bind]
          dsimp only
          rw [ih (Nat.le_of_succ_le_succ hleft) (fun q hq => hbehind q (List.mem_cons_of_mem p hq))
            (fun q hq => hheader q (List.mem_cons_of_mem p hq))
            (fun q hq => hfits q (List.mem_cons_of_mem p hq)), List.append_assoc,
            List.flatMap_cons]

/-- A loop that ends has met only capabilities that fit. -/
theorem fits_of_capLoop (hpath : Links.Path info.nextAt 0 p path)
    (hbehind : ∀ q ∈ path, 24 ≤ q) (hheader : ∀ q ∈ path, q + 8 ≤ 24 + 1024)
    {ranges : List (Nat × Nat)} (h : info.capLoop left p acc = .ok ranges) :
    ∀ q ∈ path, info.Fits q := by
  induction hpath generalizing left acc with
  | nil => intro q hq; exact absurd hq (by simp)
  | @cons p path hne hpath ih =>
      have hp := hbehind p List.mem_cons_self
      have hp' := hheader p List.mem_cons_self
      rw [capLoop.eq_def, if_neg hne] at h
      -- the loop got past this capability
      have hfits : info.Fits p := by
        by_contra hno
        obtain ⟨e, he⟩ := @readCap_of_not_fits info p acc hp hp' hno
        rw [he, error_bind] at h
        exact nomatch h
      rw [readCap_of_fits hp hp' hfits, ok_bind] at h
      cases left with
      | zero => exact nomatch h
      | succ left =>
          intro q hq
          rcases List.mem_cons.mp hq with rfl | hq
          · exact hfits
          · exact ih (fun q hq => hbehind q (List.mem_cons_of_mem p hq))
              (fun q hq => hheader q (List.mem_cons_of_mem p hq)) h q hq

/--
**The ranges are read completely exactly if the structure with five ranges fits every
capability that has ranges.**

The structure has five ranges whatever `nr_iovas` says. A sixth one is beyond its array, and with
fewer it may be longer than what is left of the buffer.
-/
theorem readsRanges_iff (h : info.CapChain path) :
    info.iovaRanges = .ok (path.flatMap info.rangesAt) ↔ ∀ p ∈ path, info.Fits p := by
  have hlen := h.length_lt
  refine ⟨fun hread => fits_of_capLoop h.links h.behind h.header hread, fun hfits => ?_⟩
  exact capLoop_of_fits h.links (by omega) h.behind h.header hfits

/-- An answer whose chain begins right behind its fixed part. -/
def ofBytes (bytes : List (BitVec 8)) (h : bytes.length ≤ 1024) : VfioIommuGetInfo where
  capOffset := 24
  caps := bytes ++ List.replicate (1024 - bytes.length) 0
  length_caps := by
    rw [List.length_append, List.length_replicate]
    omega

/-- A capability with an available count, and one with two ranges. -/
def twoRanges : VfioIommuGetInfo := ofBytes
  (Mem.toLE 2 3 ++ Mem.toLE 2 1 ++ Mem.toLE 4 40 ++ Mem.toLE 8 0xffff
    ++ Mem.toLE 2 1 ++ Mem.toLE 2 1 ++ Mem.toLE 4 0 ++ Mem.toLE 4 2 ++ Mem.toLE 4 0
    ++ Mem.toLE 8 0 ++ Mem.toLE 8 0xfedfffff ++ Mem.toLE 8 0xfef00000 ++ Mem.toLE 8 0xffffffffff)
  (by decide)

theorem readsRanges_two : twoRanges.iovaRanges = .ok ([24, 40].flatMap twoRanges.rangesAt) := by
  have hpath : Links.Path twoRanges.nextAt 0 twoRanges.capOffset [24, 40] :=
    Links.Path.cons (by decide) (Links.Path.cons (by decide) Links.Path.nil)
  have hchain : twoRanges.CapChain [24, 40] :=
    ⟨hpath, by decide, by decide, by decide⟩
  refine (readsRanges_iff hchain).mpr fun p hp => ?_
  rcases List.mem_cons.mp hp with rfl | hp
  · exact fun h => absurd h (by decide)
  · rw [List.mem_singleton.mp hp]
    exact fun _ => by decide

/-- A capability with six ranges, all of them in the buffer. -/
def sixRanges : VfioIommuGetInfo := ofBytes
  (Mem.toLE 2 1 ++ Mem.toLE 2 1 ++ Mem.toLE 4 0 ++ Mem.toLE 4 6) (by decide)

theorem not_readsRanges_six : sixRanges.CapChain [24]
    ∧ sixRanges.iovaRanges ≠ .ok ([24].flatMap sixRanges.rangesAt) := by
  have hpath : Links.Path sixRanges.nextAt 0 sixRanges.capOffset [24] :=
    Links.Path.cons (by decide) Links.Path.nil
  have hchain : sixRanges.CapChain [24] := ⟨hpath, by decide, by decide, by decide⟩
  refine ⟨hchain, fun h => ?_⟩
  have hfits := fits_of_capLoop hchain.links hchain.behind hchain.header h 24 List.mem_cons_self
  exact absurd (hfits (by decide)).1 (by decide)

end

end VfioIommuGetInfo

end LoneNvme
