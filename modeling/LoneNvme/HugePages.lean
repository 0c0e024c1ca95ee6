import LoneNvme.Lib.Machine
import LoneNvme.Prp

/-!
# The hugepage memory manager

`HugePagesMemoryMgr` splits hugepages into pages and hands out runs of consecutive free
pages. A block is its first page: the object's size, links and IOVA are rewritten in
place. A page object is named by its place in `self.pages`, a list that only grows.

The C extension is a parameter of each operation: `hp k` is the address its `k`-th call
of `hugepages.malloc` returns, of a region of zeros. The functions that map and unmap
act on a table, `iommu`, and return. What a call leaves when one of them raises instead is
in `HugePagesCalls`.
-/

namespace LoneNvme

open Lib

inductive DMADirection where
  | hostToDevice
  | deviceToHost
  | bidirectional
  deriving DecidableEq, Repr

/-- What does not change after construction. -/
structure HugePagesConfig where
  pageSize : Nat
  scPageSize : Nat
  hugepagesSize : Nat
  iovaRanges : List (Nat × Nat)
  pageSize_pos : 0 < pageSize
  hugepagesSize_pos : 0 < hugepagesSize

/-- A `MemoryLocation` with what the manager keeps on it. -/
structure MemPage extends MemoryLocation where
  inUse : Bool := false
  iovaMapped : Bool := false
  linkedMem : List Nat := []
  deriving DecidableEq, Repr

/-- `m.in_use = False`, `m.size = self.page_size`. -/
def MemPage.release (p : MemPage) (pageSize : Nat) : MemPage :=
  { p with inUse := false, size := pageSize }

/-- The arguments of `map_read_func` or `map_write_func`. -/
structure Mapping where
  vaddr : Nat
  iova : Nat
  size : Nat
  direction : DMADirection
  deriving DecidableEq, Repr

/-- The manager, the memory, and the IOMMU's table. The last three fields are history. -/
structure HugePagesMemoryMgr where
  numPages : Nat := 0
  page : Nat → MemPage
  mallocMem : List Nat := []
  freeIovas : List Nat := []
  allocatedMemory : List (Nat × Nat) := []
  mem : Mem
  iommu : List Mapping := []
  /-- What was last mapped for a block. -/
  passed : Nat → Option Mapping := fun _ => none
  /-- The arguments of all calls of `unmap_func`, newest first. -/
  unmapped : List (Nat × Nat) := []
  /-- The pages `malloc_pages` returned. -/
  handedOut : List Nat := []

/-! ## IOVAs -/

namespace HugePagesIovaMgr

def increment : Nat := 2 * 1024 * 1024

def maxIovas : Nat := 1000

/-- The loop of `reset` in the range that ends at `stop`, the ranges `rest` still to come. -/
def resetLoop : Nat → (next stop : Nat) → (rest : List (Nat × Nat)) → Except Exc (List Nat)
  | 0, _, _, _ => .ok []
  | n + 1, next, stop, rest =>
      -- `max_range_iova` is `stop - increment`, and may be negative
      if next + increment + increment > stop then
        match rest with
        | [] => .error (.assertionError "Ran out of ranges!")
        | (start, stop) :: rest => (next :: ·) <$> resetLoop n start stop rest
      else
        (next :: ·) <$> resetLoop n (next + increment) stop rest

/-- `reset`: the IOVAs that are free at first. -/
def reset : List (Nat × Nat) → Except Exc (List Nat)
  | [] => .error (.indexError "list index out of range")
  | (start, stop) :: rest =>
      if start = 0 then do
        assertThat (decide (0x1000 + increment ≤ stop)) "Invalid IOVA range"
        resetLoop maxIovas 0x1000 stop rest
      else
        resetLoop maxIovas start stop rest

end HugePagesIovaMgr

namespace HugePagesMemoryMgr

/-- `iova_mgr.get`. -/
def iovaGet (mgr : HugePagesMemoryMgr) (size : Nat) : Except Exc (Nat × HugePagesMemoryMgr) := do
  assertThat (decide (size ≤ HugePagesIovaMgr.increment))
    ("IOVA max size is " ++ toString HugePagesIovaMgr.increment ++ ", requested " ++ toString size)
  match mgr.freeIovas with
  | [] => .error (.indexError "pop from empty list")
  | iova :: freeIovas => .ok (iova, { mgr with freeIovas })

/-! ## Pages -/

def setPage (mgr : HugePagesMemoryMgr) (i : Nat) (p : MemPage) : HugePagesMemoryMgr :=
  { mgr with page := Function.update mgr.page i p }

@[simp] theorem setPage_self (mgr : HugePagesMemoryMgr) (i : Nat) (p : MemPage) :
    (mgr.setPage i p).page i = p := by
  unfold setPage
  exact Function.update_self i p mgr.page

theorem setPage_of_ne {mgr : HugePagesMemoryMgr} {i j : Nat} (p : MemPage) (h : j ≠ i) :
    (mgr.setPage i p).page j = mgr.page j := by
  unfold setPage
  exact Function.update_of_ne h p mgr.page

/-- `free_pages`. -/
def freePages (mgr : HugePagesMemoryMgr) : List Nat :=
  (List.range mgr.numPages).filter fun i => !(mgr.page i).inUse

/-- The manager with one more hugepage, split into pages. -/
def withHugepage (cfg : HugePagesConfig) (mgr : HugePagesMemoryMgr) (vaddr : Nat) :
    HugePagesMemoryMgr :=
  { mgr with
    allocatedMemory := mgr.allocatedMemory ++ [(vaddr, cfg.hugepagesSize)]
    mem := mgr.mem.fill vaddr cfg.hugepagesSize 0
    numPages := mgr.numPages + cfg.hugepagesSize / cfg.pageSize
    page := fun i =>
      if i < mgr.numPages then mgr.page i
      else { vaddr := vaddr + (i - mgr.numPages) * cfg.pageSize, iova := 0, size := cfg.pageSize } }

/-- One round of `_malloc_hps`, `hugepages.malloc` returning `vaddr`. -/
def mallocHp (cfg : HugePagesConfig) (mgr : HugePagesMemoryMgr) (vaddr : Nat) :
    Except Exc HugePagesMemoryMgr := do
  assertThat (decide (cfg.hugepagesSize % cfg.scPageSize = 0)) "Must be a multiple of SC_PAGE_SIZE"
  if vaddr = 0 then
    .error (.memoryError ("Not able to allocate " ++ toString cfg.hugepagesSize ++ " "
      ++ toString cfg.scPageSize))
  else
    .ok (mgr.withHugepage cfg vaddr)

/-- `_malloc_hps`. -/
def mallocHps (cfg : HugePagesConfig) (hp : Nat → Nat) :
    Nat → HugePagesMemoryMgr → Except Exc HugePagesMemoryMgr
  | 0, mgr => .ok mgr
  | n + 1, mgr => do
      let mgr ← mallocHps cfg hp n mgr
      mgr.mallocHp cfg (hp n)

/-- No pages yet. -/
def empty (mem : Mem) : HugePagesMemoryMgr where
  page _ := { vaddr := 0, iova := 0, size := 0 }
  mem := mem

/-- The constructor. -/
def new (cfg : HugePagesConfig) (mem : Mem) (hp : Nat → Nat) : Except Exc HugePagesMemoryMgr := do
  let mgr ← mallocHps cfg hp 1 (empty mem)
  let freeIovas ← HugePagesIovaMgr.reset cfg.iovaRanges
  .ok { mgr with freeIovas }

/-- `math.ceil(missing // pages_per_hp)`, by which `malloc` grows. -/
def mallocGrowth (missing pagesPerHp : Nat) : Except Exc Nat :=
  if pagesPerHp = 0 then .error (.zeroDivisionError "integer division or modulo by zero")
  else .ok (missing / pagesPerHp)

/-- `math.ceil(missing / pages_per_hp)`, by which `malloc_pages` grows. -/
def mallocPagesGrowth (missing pagesPerHp : Nat) : Except Exc Nat :=
  if pagesPerHp = 0 then .error (.zeroDivisionError "division by zero")
  else .ok ((missing + pagesPerHp - 1) / pagesPerHp)

/-- Grow if fewer than `num` pages are free: `growth` tells by how many hugepages. -/
def ensureFree (cfg : HugePagesConfig) (mgr : HugePagesMemoryMgr) (hp : Nat → Nat) (num : Nat)
    (growth : (missing pagesPerHp : Nat) → Except Exc Nat) : Except Exc HugePagesMemoryMgr :=
  if num > mgr.freePages.length then do
    let numAlloc ← growth (num - mgr.freePages.length) (cfg.hugepagesSize / cfg.pageSize)
    mallocHps cfg hp (max 1 numAlloc) mgr
  else
    .ok mgr

/-! ## Blocks -/

/-- `grouper`: all windows of `n` neighbours. -/
def grouper {α : Type} (l : List α) (n : Nat) : List (List α) :=
  (List.range (l.length - (n - 1))).map fun i => (l.drop i).take n

/-- Each page of the group begins where the one before it ends. -/
def contiguous (mgr : HugePagesMemoryMgr) : List Nat → Bool
  | i :: j :: rest =>
      (mgr.page i).vaddr + (mgr.page i).size == (mgr.page j).vaddr && mgr.contiguous (j :: rest)
  | _ => true

/-- Whether `malloc` takes this group. -/
def suitable (mgr : HugePagesMemoryMgr) (group : List Nat) : Bool :=
  group.all (fun i => !(mgr.page i).inUse) && mgr.contiguous group

/-- The size of a block: at least one page of the system. -/
def blockSize (cfg : HugePagesConfig) (size : Int) : Nat :=
  if size < cfg.scPageSize then cfg.scPageSize else size.toNat

def pagesNeeded (cfg : HugePagesConfig) (size : Int) : Nat :=
  max 1 (blockSize cfg size / cfg.pageSize)

/-- `map_iova`. -/
def mapIova (mgr : HugePagesMemoryMgr) (b : Nat) (direction : DMADirection) :
    Except Exc HugePagesMemoryMgr :=
  let m : Mapping := ⟨(mgr.page b).vaddr, (mgr.page b).iova, (mgr.page b).size, direction⟩
  if direction = .bidirectional then
    .error (.assertionError "Direction DMADirection.BIDIRECTIONAL not yet supported!")
  else
    .ok { mgr.setPage b { mgr.page b with iovaMapped := true } with
      iommu := mgr.iommu ++ [m]
      passed := Function.update mgr.passed b (some m) }

/-- Make the free group `b :: linked` a block of `size` bytes. -/
def takeGroup (mgr : HugePagesMemoryMgr) (b : Nat) (linked : List Nat) (size : Nat)
    (direction : DMADirection) : Except Exc HugePagesMemoryMgr := do
  let mgr := { mgr with
    page := fun i => if i ∈ linked then { mgr.page i with inUse := true } else mgr.page i }
  let mgr := mgr.setPage b { mgr.page b with linkedMem := (mgr.page b).linkedMem ++ linked, size }
  let (iova, mgr) ← mgr.iovaGet size
  let mgr := mgr.setPage b { mgr.page b with iova, inUse := true }
  { mgr with mallocMem := mgr.mallocMem ++ [b] }.mapIova b direction

/-- `malloc`. -/
def malloc (cfg : HugePagesConfig) (mgr : HugePagesMemoryMgr) (size : Int) (direction : DMADirection)
    (hp : Nat → Nat) : Except Exc (Nat × HugePagesMemoryMgr) := do
  let mgr ← mgr.ensureFree cfg hp (pagesNeeded cfg size) mallocGrowth
  match (grouper mgr.freePages (pagesNeeded cfg size)).find? mgr.suitable with
  | some (b :: linked) => do
      let mgr ← mgr.takeGroup b linked (blockSize cfg size) direction
      .ok (b, mgr)
  | _ => .error (.memoryError "Not able to find memory to malloc")

/-- `malloc_pages`. -/
def mallocPages (cfg : HugePagesConfig) (mgr : HugePagesMemoryMgr) (numPages : Nat) (hp : Nat → Nat) :
    Except Exc (List Nat × HugePagesMemoryMgr) := do
  let mgr ← mgr.ensureFree cfg hp numPages mallocPagesGrowth
  let pages := mgr.freePages.take numPages
  assertThat (decide (pages.length = numPages)) "Did not allocate enough pages!"
  .ok (pages, { mgr with
    page := fun i => if i ∈ pages then { mgr.page i with inUse := true } else mgr.page i
    handedOut := mgr.handedOut ++ pages })

/-- The loop of `free` over the links. -/
def freeLinks (cfg : HugePagesConfig) :
    List Nat → HugePagesMemoryMgr → Except Exc HugePagesMemoryMgr
  | [], mgr => .ok mgr
  | i :: linked, mgr => do
      assertThat (mgr.page i).inUse ""
      freeLinks cfg linked (mgr.setPage i ((mgr.page i).release cfg.pageSize))

/-- The table after `unmap_func(iova, size)`. -/
def unmap (iommu : List Mapping) (iova size : Nat) : List Mapping :=
  iommu.eraseP fun m => m.iova = iova ∧ m.size = size

/-- `free`, whose `unmap_func` returns. The size is reset before it is used. -/
def free (cfg : HugePagesConfig) (mgr : HugePagesMemoryMgr) (b : Nat) :
    Except Exc HugePagesMemoryMgr := do
  let mgr ← freeLinks cfg (mgr.page b).linkedMem mgr
  let mgr := mgr.setPage b { mgr.page b with linkedMem := [] }
  assertThat (mgr.page b).inUse ""
  let mgr := mgr.setPage b ((mgr.page b).release cfg.pageSize)
  assertThat (mgr.page b).iovaMapped ""
  let memory := mgr.page b
  let mgr : HugePagesMemoryMgr := { mgr.setPage b { memory with iovaMapped := false } with
    iommu := unmap mgr.iommu memory.iova memory.size
    unmapped := (memory.iova, memory.size) :: mgr.unmapped
    freeIovas := mgr.freeIovas ++ [memory.iova]
    mem := mgr.mem.fill memory.vaddr memory.size 0 }
  if b ∈ mgr.mallocMem then
    .ok { mgr with mallocMem := mgr.mallocMem.erase b }
  else
    .error (.valueError "list.remove(x): x not in list")

/-! ## Runs -/

/-- The regions of two calls of `hugepages.malloc` share no byte. -/
def RegionsApart (r s : Nat × Nat) : Prop := r.1 + r.2 ≤ s.1 ∨ s.1 + s.2 ≤ r.1

instance (r s : Nat × Nat) : Decidable (RegionsApart r s) :=
  inferInstanceAs (Decidable (r.1 + r.2 ≤ s.1 ∨ s.1 + s.2 ≤ r.1))

/-- Calls of the manager, and a client writing one byte of a block. -/
inductive Op where
  | malloc (size : Int) (direction : DMADirection) (hp : Nat → Nat)
  | mallocPages (numPages : Nat) (hp : Nat → Nat)
  | free (b : Nat)
  | write (b offset : Nat) (value : BitVec 8)

/-- The calls that return normally. Only live blocks are freed or written. -/
def call (cfg : HugePagesConfig) (mgr : HugePagesMemoryMgr) : Op → Option HugePagesMemoryMgr
  | .malloc size direction hp => (mgr.malloc cfg size direction hp).toOption.map Prod.snd
  | .mallocPages numPages hp => (mgr.mallocPages cfg numPages hp).toOption.map Prod.snd
  | .free b => if b ∈ mgr.mallocMem then (mgr.free cfg b).toOption else none
  | .write b offset value =>
      if b ∈ mgr.mallocMem ∧ offset < (mgr.page b).size then
        some { mgr with mem := mgr.mem.store ((mgr.page b).vaddr + offset) [value] }
      else none

/-- `hugepages.malloc` returns fresh regions. -/
def step (cfg : HugePagesConfig) (mgr : HugePagesMemoryMgr) (a : Op) : Option HugePagesMemoryMgr :=
  match mgr.call cfg a with
  | some mgr' => if mgr'.allocatedMemory.Pairwise RegionsApart then some mgr' else none
  | none => none

def machine (cfg : HugePagesConfig) : Machine HugePagesMemoryMgr Op :=
  ⟨fun mgr => ∃ mem hp, new cfg mem hp = .ok mgr, step cfg⟩

end HugePagesMemoryMgr

end LoneNvme
