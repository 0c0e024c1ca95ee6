import LoneNvme.Lib.Bytes
import LoneNvme.Lib.Python

/-!
# Physical region pages

`PRP` describes a data buffer made of pages of `mps` bytes: one page, two pages, or
a first page and a list page that holds the addresses of the others. The host builds
one with `alloc`, the simulator rebuilds it from the two addresses in a command with
`from_address`; both sides find the data pages with `get_data_segments`.

A memory manager is not modelled here: `page k` is what its `k`-th `malloc` returns.
-/

namespace LoneNvme

open Lib

/-- `MemoryLocation`: a region as the program and as the device address it. -/
structure MemoryLocation where
  vaddr : Nat
  iova : Nat
  size : Nat
  deriving DecidableEq, Repr

/-- A `PRP` object; `mem_list` is every page it knows. -/
structure PRP where
  numBytes : Nat
  mps : Nat
  prp1 : Nat := 0
  prp2 : Nat := 0
  memList : List MemoryLocation := []
  deriving DecidableEq, Repr

namespace PRP

/-- `prps_per_page`: the last address of a list page would point to the next list. -/
def prpsPerPage (mps : Nat) : Nat := mps / 8 - 1

/-- `math.ceil(num_bytes / mps)`. -/
def dataPages (numBytes mps : Nat) : Nat := (numBytes + mps - 1) / mps

def listsNeeded (numBytes mps : Nat) : Nat :=
  if dataPages numBytes mps > 2 then
    (dataPages numBytes mps - 1 + prpsPerPage mps - 1) / prpsPerPage mps
  else 0

/-- `pages_needed`, list pages included. -/
def pagesNeeded (prp : PRP) : Nat :=
  dataPages prp.numBytes prp.mps + listsNeeded prp.numBytes prp.mps

/-- The constructor up to the allocation. -/
def new (numBytes mps : Nat) : Except Exc PRP := do
  assertThat (decide (0 < dataPages numBytes mps)) "Pages needed cannot be 0"
  .ok { numBytes, mps }

/-! ## Building one -/

/-- `malloc_page`, the memory manager handing out `page`, zeroed. -/
def mallocPage (prp : PRP) (mem : Mem) (page : MemoryLocation) : PRP × Mem :=
  ({ prp with memList := prp.memList ++ [page] },
    mem.store page.vaddr (List.replicate prp.mps 0))

/-- The loop of `alloc` over the entries of the list page, `left` of which are free. -/
def allocList (page : Nat → MemoryLocation) :
    (left i : Nat) → (remBytes : Int) → PRP → Mem → PRP × Mem × Except Exc Unit
  | 0, _, _, prp, mem =>
      (prp, mem, .error (.assertionError "Support for PRPs larger than 2M not implemented!"))
  | left + 1, i, remBytes, prp, mem =>
      let segment := page (i + 2)
      let (prp, mem) := prp.mallocPage mem segment
      let mem := mem.storeWord ((page 1).vaddr + 8 * i) segment.iova
      let remBytes := remBytes - prp.mps
      if remBytes ≤ 0 then (prp, mem, .ok ())
      else allocList page left (i + 1) remBytes prp mem

/-- `alloc`. What it allocated before it raises stays allocated, in `memList`. -/
def alloc (prp : PRP) (mem : Mem) (page : Nat → MemoryLocation) :
    PRP × Mem × Except Exc Unit :=
  let (prp, mem) := prp.mallocPage mem (page 0)
  let prp := { prp with prp1 := (page 0).iova }
  if prp.pagesNeeded = 1 then
    (prp, mem, .ok ())
  else
    let (prp, mem) := prp.mallocPage mem (page 1)
    let prp := { prp with prp2 := (page 1).iova }
    if prp.pagesNeeded = 2 then
      (prp, mem, .ok ())
    else
      allocList page (prpsPerPage prp.mps) 0 ((prp.numBytes : Int) - prp.mps) prp mem

/-- A page of the other side: both address it alike. -/
def pageAt (mps a : Nat) : MemoryLocation := ⟨a, a, mps⟩

/-- `from_address`. -/
def fromAddress (prp : PRP) (mem : Mem) (prp1Address : Nat) (prp2Address : Nat := 0) :
    Except Exc PRP := do
  assertThat (decide (prp1Address ≠ 0))
    ("Must have a PRP1 address for num_bytes " ++ toString prp.numBytes)
  let page1 := pageAt prp.mps prp1Address
  if prp.pagesNeeded = 1 then
    .ok { prp with prp1 := prp1Address, memList := prp.memList ++ [page1] }
  else
    assertThat (decide (prp2Address ≠ 0))
      ("Must have a PRP2 address for num_bytes " ++ toString prp.numBytes)
    let page2 := pageAt prp.mps prp2Address
    let pages := prp.memList ++ [page1, page2]
    if prp.pagesNeeded = 2 then
      .ok { prp with prp1 := prp1Address, prp2 := prp2Address, memList := pages }
    else
      let listed := (mem.words prp2Address (prp.mps / 8)).map (pageAt prp.mps)
      .ok { prp with prp1 := prp1Address, prp2 := prp2Address, memList := pages ++ listed }

/-- `PRP(None, num_bytes, mps, ..., alloc=False).from_address(prp1, prp2)`. -/
def attach (numBytes mps : Nat) (mem : Mem) (prp1Address : Nat) (prp2Address : Nat := 0) :
    Except Exc PRP := do
  let prp ← PRP.new numBytes mps
  prp.fromAddress mem prp1Address prp2Address

/-! ## The data pages -/

/-- The pages at the addresses of a list page. -/
def listSegments (prp : PRP) : List Nat → Except Exc (List MemoryLocation)
  | [] => .ok []
  | d :: ds =>
      if d = 0 then
        prp.listSegments ds
      else
        match prp.memList.filter fun p => p.iova = d with
        | [p] => do
            let rest ← prp.listSegments ds
            .ok (p :: rest)
        | _ => .error (.assertionError "Something went wrong with this PRP")

/-- The second page is read as a list, whatever it holds. -/
def pageSegments (prp : PRP) (mem : Mem) (page : MemoryLocation) :
    Except Exc (List MemoryLocation) :=
  if prp.prp2 = page.iova then prp.listSegments (mem.words page.vaddr (prp.mps / 8)) else .ok []

/-- The loop of `get_data_segments` over the known pages. -/
def segmentsLoop (prp : PRP) (mem : Mem) : List MemoryLocation → Except Exc (List MemoryLocation)
  | [] => .ok []
  | page :: pages => do
      let first := if prp.prp1 = page.iova then [page] else []
      let listed ← prp.pageSegments mem page
      let rest ← prp.segmentsLoop mem pages
      .ok (first ++ listed ++ rest)

/-- `get_data_segments`. -/
def getDataSegments (prp : PRP) (mem : Mem) : Except Exc (List MemoryLocation) :=
  prp.segmentsLoop mem prp.memList

/-- The loop of `get_data_buffer`: `data[i:i + size] = b[:i + size]`. -/
def getDataLoop (mps : Nat) (mem : Mem) :
    List MemoryLocation → (i : Nat) → List (BitVec 8) → List (BitVec 8)
  | [], _, data => data
  | segment :: segments, i, data =>
      let b := mem.load segment.vaddr mps
      getDataLoop mps mem segments (i + segment.size)
        (data.take i ++ b.take (i + segment.size) ++ data.drop (i + segment.size))

/-- `get_data_buffer`. -/
def getDataBuffer (prp : PRP) (mem : Mem) : Except Exc (List (BitVec 8)) := do
  let segments ← prp.getDataSegments mem
  .ok (getDataLoop prp.mps mem segments 0 [])

/-- How far into the data the slice for one segment goes: `data_len`. -/
def dataLen (len i size : Nat) : Int := if i + size > len then (len : Int) - i else i + size

/-- The loop of `set_data_buffer`: `b[:data_len] = data[i:data_len]`. -/
def setDataLoop (mps : Nat) (data : List (BitVec 8)) :
    List MemoryLocation → (i : Nat) → Mem → Except Exc Mem
  | [], _, mem => .ok mem
  | segment :: segments, i, mem =>
      let stop := dataLen data.length i segment.size
      let bytes := Slice.get data i stop
      if Slice.bound mps stop = bytes.length then
        setDataLoop mps data segments (i + segment.size) (mem.store segment.vaddr bytes)
      else
        .error (.valueError "Can only assign sequence of same size")

/-- `set_data_buffer`. -/
def setDataBuffer (prp : PRP) (mem : Mem) (data : List (BitVec 8)) : Except Exc Mem := do
  let segments ← prp.getDataSegments mem
  setDataLoop prp.mps data segments 0 mem

end PRP

end LoneNvme
