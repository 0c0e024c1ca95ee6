import LoneNvme.Lib.Sweep
import LoneNvme.PageOwnership

/-!
# Calls that raise

The calls of the hugepage manager with the state they leave, whether they return or raise.
`malloc` marks pages, rewrites the block, takes an IOVA, records the block and maps it, in
this order and without undoing anything: what an exception leaves depends on how far the
call got. `malloc_run` says what can happen, and `failsCleanly_iff` when nothing is left.

The calls are written in a monad that keeps the state of a call that raises, as Python does.
Where they return, the state is built with the updates of `PageOwnership`, so what is known of
those is used here; what is new are the states that exceptions leave.
-/

namespace LoneNvme

open Lib

namespace HugePagesMemoryMgr

namespace Calls

/-- A call: it ends in a state, returning or raising. -/
abbrev Call (α : Type) := EStateM Exc HugePagesMemoryMgr α

/-- `assert`. -/
def check (cond : Bool) (msg : String) : Call Unit :=
  if cond then return () else throw (.assertionError msg)

/-- `_malloc_hps`: the hugepages got before it raises stay. -/
def mallocHps (cfg : HugePagesConfig) (hp : Nat → Nat) : Nat → Call Unit
  | 0 => return ()
  | n + 1 => do
      mallocHps cfg hp n
      let mgr ← get
      match mgr.mallocHp cfg (hp n) with
      | .error e => throw e
      | .ok grown => set grown

/-- What a function from outside returns or raises. -/
def outcome {α : Type} (x : Except Exc α) : Call α :=
  match x with
  | .error e => throw e
  | .ok a => return a

/-- Grow if fewer than `num` pages are free. -/
def ensureFree (cfg : HugePagesConfig) (hp : Nat → Nat) (num : Nat)
    (growth : (missing pagesPerHp : Nat) → Except Exc Nat) : Call Unit := do
  let mgr ← get
  if num > mgr.freePages.length then
    let numAlloc ← outcome (growth (num - mgr.freePages.length) (cfg.hugepagesSize / cfg.pageSize))
    mallocHps cfg hp (max 1 numAlloc)
  else
    return ()

/-- `iova_mgr.get`. -/
def iovaGet (size : Nat) : Call Nat := do
  check (decide (size ≤ HugePagesIovaMgr.increment))
    ("IOVA max size is " ++ toString HugePagesIovaMgr.increment ++ ", requested " ++ toString size)
  let mgr ← get
  match mgr.freeIovas with
  | [] => throw (.indexError "pop from empty list")
  | iova :: freeIovas => do
      set { mgr with freeIovas }
      return iova

/-- `map_iova`; `mapFunc` is what `map_read_func` and `map_write_func` do, and may raise. -/
def mapIova (mapFunc : Mapping → Except Exc Unit) (b : Nat) (direction : DMADirection) :
    Call Unit := do
  let mgr ← get
  let m : Mapping := ⟨(mgr.page b).vaddr, (mgr.page b).iova, (mgr.page b).size, direction⟩
  if direction = .bidirectional then
    throw (.assertionError "Direction DMADirection.BIDIRECTIONAL not yet supported!")
  else
    match mapFunc m with
    | .error e => throw e
    | .ok () =>
        set { mgr.setPage b { mgr.page b with iovaMapped := true } with
          iommu := mgr.iommu ++ [m]
          passed := Function.update mgr.passed b (some m) }

/-- The pages of the group are linked to its first page, which gets the size. -/
def withLinks (mgr : HugePagesMemoryMgr) (b : Nat) (linked : List Nat) (size : Nat) :
    HugePagesMemoryMgr :=
  { mgr with
    page := fun i =>
      if i = b then { mgr.page b with linkedMem := (mgr.page b).linkedMem ++ linked, size }
      else if i ∈ linked then { mgr.page i with inUse := true } else mgr.page i }

/-- The block has its IOVA and is in use and on the list. -/
def withIova (mgr : HugePagesMemoryMgr) (b iova : Nat) : HugePagesMemoryMgr :=
  { mgr.setPage b { mgr.page b with iova, inUse := true } with mallocMem := mgr.mallocMem ++ [b] }

/-- `malloc`. -/
def malloc (cfg : HugePagesConfig) (size : Int) (direction : DMADirection) (hp : Nat → Nat)
    (mapFunc : Mapping → Except Exc Unit) : Call Nat := do
  ensureFree cfg hp (pagesNeeded cfg size) mallocGrowth
  let mgr ← get
  match (grouper mgr.freePages (pagesNeeded cfg size)).find? mgr.suitable with
  | some (b :: linked) => do
      modify fun mgr => withLinks mgr b linked (blockSize cfg size)
      let iova ← iovaGet (blockSize cfg size)
      modify fun mgr => withIova mgr b iova
      mapIova mapFunc b direction
      return b
  | _ => throw (.memoryError "Not able to find memory to malloc")

/-- `malloc_pages`. -/
def mallocPages (cfg : HugePagesConfig) (numPages : Nat) (hp : Nat → Nat) : Call (List Nat) := do
  ensureFree cfg hp numPages mallocPagesGrowth
  let mgr ← get
  let pages := mgr.freePages.take numPages
  set { mgr with
    page := fun i => if i ∈ pages then { mgr.page i with inUse := true } else mgr.page i
    handedOut := mgr.handedOut ++ pages }
  check (decide (pages.length = numPages)) "Did not allocate enough pages!"
  return pages

/-- The loop of `free` over the links. -/
def freeLinks (cfg : HugePagesConfig) : List Nat → Call Unit
  | [] => return ()
  | i :: linked => do
      let mgr ← get
      check (mgr.page i).inUse ""
      set (mgr.setPage i ((mgr.page i).release cfg.pageSize))
      freeLinks cfg linked

/--
The end of `free`: unmap, give back the IOVA, clear the memory, and forget the block. The
argument `unmapFunc` is what `unmap_func` does, and may raise.
-/
def unmapBlock (unmapFunc : (iova size : Nat) → Except Exc Unit) (b : Nat) : Call Unit := do
  let mgr ← get
  check (mgr.page b).iovaMapped ""
  let memory := mgr.page b
  outcome (unmapFunc memory.iova memory.size)
  set { mgr.setPage b { memory with iovaMapped := false } with
    iommu := unmap mgr.iommu memory.iova memory.size
    unmapped := (memory.iova, memory.size) :: mgr.unmapped
    freeIovas := mgr.freeIovas ++ [memory.iova]
    mem := mgr.mem.fill memory.vaddr memory.size 0 }
  let mgr ← get
  if b ∈ mgr.mallocMem then
    set { mgr with mallocMem := mgr.mallocMem.erase b }
  else
    throw (.valueError "list.remove(x): x not in list")

/-- `free`. The pages are free before anything is unmapped. -/
def free (cfg : HugePagesConfig) (unmapFunc : (iova size : Nat) → Except Exc Unit) (b : Nat) :
    Call Unit := do
  let mgr ← get
  freeLinks cfg (mgr.page b).linkedMem
  modify fun mgr => mgr.setPage b { mgr.page b with linkedMem := [] }
  let mgr ← get
  check (mgr.page b).inUse ""
  modify fun mgr => mgr.setPage b ((mgr.page b).release cfg.pageSize)
  unmapBlock unmapFunc b

/-- The loop of `free_all` over a copy of the live blocks. -/
def freeBlocks (cfg : HugePagesConfig) (unmapFunc : (iova size : Nat) → Except Exc Unit) :
    List Nat → Call Unit
  | [] => return ()
  | b :: bs => do
      free cfg unmapFunc b
      freeBlocks cfg unmapFunc bs

/-- `_free_all` of the hugepages: the addresses `hugepages.free` is called with. -/
def freeHugepages : Call (List Nat) := do
  let mgr ← get
  match forRemoving (fun (calls : List Nat) (r : Nat × Nat) => .ok (calls ++ [r.1])) []
      mgr.allocatedMemory 0 with
  | .error e => throw e
  | .ok (calls, left) => do
      set { mgr with allocatedMemory := left }
      return calls

/-- `free_all`, with the calls of `hugepages.free`. No page is known after it. -/
def freeAll (cfg : HugePagesConfig) (unmapFunc : (iova size : Nat) → Except Exc Unit) :
    Call (List Nat) := do
  let mgr ← get
  freeBlocks cfg unmapFunc mgr.mallocMem
  modify fun mgr => { mgr with numPages := 0, handedOut := [] }
  let calls ← freeHugepages
  let mgr ← get
  check (decide (mgr.mallocMem.length = 0)) "Memory not free after free_all"
  return calls

variable {cfg : HugePagesConfig} {mgr : HugePagesMemoryMgr} {size : Int} {direction : DMADirection}
  {hp : Nat → Nat} {mapFunc : Mapping → Except Exc Unit}

/-! ## How a call of `malloc` ends -/

theorem check_true_bind {α : Type} {msg : String} {k : Unit → Call α} :
    (check true msg >>= k) mgr = k () mgr := rfl

theorem outcome_ok_bind {α β : Type} {a : α} {k : α → Call β} :
    (outcome (.ok a) >>= k) mgr = k a mgr := rfl

theorem outcome_error_bind {α β : Type} {e : Exc} {k : α → Call β} :
    (outcome (.error e) >>= k) mgr = .error e mgr := rfl

/-- Growing succeeds, or stops after some hugepages. -/
theorem mallocHps_run {n : Nat} :
    (∃ grown, HugePagesMemoryMgr.mallocHps cfg hp n mgr = .ok grown
        ∧ mallocHps cfg hp n mgr = .ok () grown)
      ∨ ∃ e left k, HugePagesMemoryMgr.mallocHps cfg hp n mgr = .error e
        ∧ HugePagesMemoryMgr.mallocHps cfg hp k mgr = .ok left
        ∧ mallocHps cfg hp n mgr = .error e left := by
  induction n with
  | zero => exact Or.inl ⟨mgr, rfl, rfl⟩
  | succ n ih =>
      rw [HugePagesMemoryMgr.mallocHps, mallocHps]
      rcases ih with ⟨grown, hpure, hrun⟩ | ⟨e, left, k, hpure, hleft, hrun⟩
      · rw [hpure, run_bind_ok hrun, run_get_bind]
        show (∃ grown', grown.mallocHp cfg (hp n) = .ok grown' ∧ _) ∨ _
        cases hmore : grown.mallocHp cfg (hp n) with
        | ok grown' => exact Or.inl ⟨grown', rfl, rfl⟩
        | error e => exact Or.inr ⟨e, grown, n, hmore, hpure, rfl⟩
      · rw [hpure, run_bind_error hrun]
        exact Or.inr ⟨e, left, k, rfl, hleft, rfl⟩

theorem ensureFree_run {num : Nat} {growth : Nat → Nat → Except Exc Nat} :
    (∃ grown, mgr.ensureFree cfg hp num growth = .ok grown
        ∧ ensureFree cfg hp num growth mgr = .ok () grown)
      ∨ ∃ e left k, mgr.ensureFree cfg hp num growth = .error e
        ∧ HugePagesMemoryMgr.mallocHps cfg hp k mgr = .ok left
        ∧ ensureFree cfg hp num growth mgr = .error e left := by
  unfold HugePagesMemoryMgr.ensureFree ensureFree
  rw [run_get_bind]
  by_cases hgt : num > mgr.freePages.length
  · rw [if_pos hgt, if_pos hgt]
    cases growth (num - mgr.freePages.length) (cfg.hugepagesSize / cfg.pageSize) with
    | error e => exact Or.inr ⟨e, mgr, 0, rfl, rfl, rfl⟩
    | ok numAlloc =>
        rw [ok_bind, outcome_ok_bind]
        exact mallocHps_run
  · rw [if_neg hgt, if_neg hgt]
    exact Or.inl ⟨mgr, rfl, rfl⟩

/-- `malloc` grows to `grown` and finds the group `b :: linked`. -/
structure Finds (cfg : HugePagesConfig) (mgr : HugePagesMemoryMgr) (size : Int) (hp : Nat → Nat)
    (grown : HugePagesMemoryMgr) (b : Nat) (linked : List Nat) : Prop where
  grows : mgr.ensureFree cfg hp (pagesNeeded cfg size) mallocGrowth
    = .ok grown
  group : (grouper grown.freePages (pagesNeeded cfg size)).find? grown.suitable = some (b :: linked)

theorem pagesNeeded_pos : 0 < pagesNeeded cfg size :=
  Nat.lt_of_lt_of_le Nat.one_pos (Nat.le_max_left _ _)

theorem Finds.spec {grown : HugePagesMemoryMgr} {b : Nat} {linked : List Nat}
    (h : Finds cfg mgr size hp grown b linked) :
    (b :: linked).Sublist grown.freePages ∧ (b :: linked).length = pagesNeeded cfg size
      ∧ grown.contiguous (b :: linked) = true := by
  have hsuitable := List.find?_some h.group
  rw [suitable, Bool.and_eq_true] at hsuitable
  obtain ⟨hsub, hlen⟩ := mem_grouper pagesNeeded_pos (List.mem_of_find?_eq_some h.group)
  exact ⟨hsub, hlen, hsuitable.2⟩

/-- The arguments of the map function for a new block. -/
def mappingOf (grown : HugePagesMemoryMgr) (b iova size : Nat) (direction : DMADirection) : Mapping :=
  ⟨(grown.page b).vaddr, iova, size, direction⟩

/-- How `malloc` ends: the five ways, each with the state it leaves. -/
inductive MallocRun (cfg : HugePagesConfig) (mgr : HugePagesMemoryMgr) (size : Int)
    (direction : DMADirection) (hp : Nat → Nat) (mapFunc : Mapping → Except Exc Unit) :
    EStateM.Result Exc HugePagesMemoryMgr Nat → Prop where
  | ungrown {e : Exc} {left : HugePagesMemoryMgr} {k : Nat} :
      mgr.ensureFree cfg hp (pagesNeeded cfg size) mallocGrowth = .error e →
      HugePagesMemoryMgr.mallocHps cfg hp k mgr = .ok left →
      MallocRun cfg mgr size direction hp mapFunc (.error e left)
  | noGroup {grown : HugePagesMemoryMgr} :
      mgr.ensureFree cfg hp (pagesNeeded cfg size) mallocGrowth = .ok grown →
      (grouper grown.freePages (pagesNeeded cfg size)).find? grown.suitable = none →
      MallocRun cfg mgr size direction hp mapFunc
        (.error (.memoryError "Not able to find memory to malloc") grown)
  | noIova {grown : HugePagesMemoryMgr} {b : Nat} {linked : List Nat} {e : Exc} :
      Finds cfg mgr size hp grown b linked →
      ¬ (blockSize cfg size ≤ HugePagesIovaMgr.increment ∧ grown.freeIovas ≠ []) →
      MallocRun cfg mgr size direction hp mapFunc
        (.error e (withLinks grown b linked (blockSize cfg size)))
  | unmapped {grown : HugePagesMemoryMgr} {b iova : Nat} {linked freeIovas : List Nat} {e : Exc} :
      Finds cfg mgr size hp grown b linked →
      blockSize cfg size ≤ HugePagesIovaMgr.increment → grown.freeIovas = iova :: freeIovas →
      ¬ (direction ≠ .bidirectional
        ∧ mapFunc (mappingOf grown b iova (blockSize cfg size) direction) = .ok ()) →
      MallocRun cfg mgr size direction hp mapFunc (.error e
        (withIova { withLinks grown b linked (blockSize cfg size) with freeIovas } b iova))
  | block {grown : HugePagesMemoryMgr} {b iova : Nat} {linked freeIovas : List Nat} :
      Finds cfg mgr size hp grown b linked →
      blockSize cfg size ≤ HugePagesIovaMgr.increment → grown.freeIovas = iova :: freeIovas →
      direction ≠ .bidirectional →
      mapFunc (mappingOf grown b iova (blockSize cfg size) direction) = .ok () →
      MallocRun cfg mgr size direction hp mapFunc (.ok b (grown.withBlock b linked
        (mappingOf grown b iova (blockSize cfg size) direction) freeIovas))

theorem iovaGet_run {n : Nat} :
    (∃ iova freeIovas, n ≤ HugePagesIovaMgr.increment ∧ mgr.freeIovas = iova :: freeIovas
        ∧ iovaGet n mgr = .ok iova { mgr with freeIovas })
      ∨ ¬ (n ≤ HugePagesIovaMgr.increment ∧ mgr.freeIovas ≠ []) ∧ ∃ e, iovaGet n mgr = .error e mgr := by
  unfold iovaGet
  by_cases hn : n ≤ HugePagesIovaMgr.increment
  · rw [decide_eq_true hn, check_true_bind, run_get_bind]
    cases hfree : mgr.freeIovas with
    | nil => exact Or.inr ⟨fun h => h.2 rfl, _, rfl⟩
    | cons iova freeIovas => exact Or.inl ⟨iova, freeIovas, hn, rfl, rfl⟩
  · rw [decide_eq_false hn]
    exact Or.inr ⟨fun h => hn h.1, _, rfl⟩

theorem mapIova_run {b : Nat} {m : Mapping}
    (hm : m = ⟨(mgr.page b).vaddr, (mgr.page b).iova, (mgr.page b).size, direction⟩) :
    (direction ≠ .bidirectional ∧ mapFunc m = .ok () ∧ mapIova mapFunc b direction mgr
        = .ok () { mgr.setPage b { mgr.page b with iovaMapped := true } with
            iommu := mgr.iommu ++ [m]
            passed := Function.update mgr.passed b (some m) })
      ∨ ¬ (direction ≠ .bidirectional ∧ mapFunc m = .ok ())
        ∧ ∃ e, mapIova mapFunc b direction mgr = .error e mgr := by
  subst hm
  unfold mapIova
  rw [run_get_bind]
  dsimp only
  by_cases hd : direction = .bidirectional
  · rw [if_pos hd]
    exact Or.inr ⟨fun h => h.1 hd, _, rfl⟩
  · rw [if_neg hd]
    cases hmap : mapFunc ⟨(mgr.page b).vaddr, (mgr.page b).iova, (mgr.page b).size, direction⟩ with
    | error e => exact Or.inr ⟨fun h => absurd h.2 (by simp), e, rfl⟩
    | ok u => exact Or.inl ⟨hd, rfl, rfl⟩

/-- The page of a new block, once it is marked, has an IOVA and is mapped. -/
theorem withBlock_eq {grown : HugePagesMemoryMgr} {b iova n : Nat} {linked freeIovas : List Nat}
    {m : Mapping} (hm : m = mappingOf grown b iova n direction) :
    let taken := withIova { withLinks grown b linked n with freeIovas } b iova
    m = ⟨(taken.page b).vaddr, (taken.page b).iova, (taken.page b).size, direction⟩
      ∧ { taken.setPage b { taken.page b with iovaMapped := true } with
          iommu := taken.iommu ++ [m]
          passed := Function.update taken.passed b (some m) }
        = grown.withBlock b linked m freeIovas := by
  subst hm
  have hpage : (withLinks grown b linked n).page b
      = { grown.page b with linkedMem := (grown.page b).linkedMem ++ linked, size := n } := if_pos rfl
  unfold withIova setPage
  dsimp only
  rw [Function.update_self, Function.update_idem, hpage]
  refine ⟨rfl, ?_⟩
  unfold withBlock mappingOf
  congr 1
  funext i
  by_cases hi : i = b
  · rw [hi, Function.update_self, if_pos rfl]
  · rw [Function.update_of_ne hi, if_neg hi]
    exact if_neg hi

/-- **How `malloc` ends.** -/
theorem malloc_run :
    MallocRun cfg mgr size direction hp mapFunc (malloc cfg size direction hp mapFunc mgr) := by
  unfold malloc
  rcases @ensureFree_run cfg mgr hp (pagesNeeded cfg size) mallocGrowth with
    ⟨grown, hpure, hrun⟩ | ⟨e, left, k, hpure, hleft, hrun⟩
  · rw [run_bind_ok hrun, run_get_bind]
    cases hfind : (grouper grown.freePages (pagesNeeded cfg size)).find? grown.suitable with
    | none => exact .noGroup hpure hfind
    | some group =>
        cases group with
        | nil =>
            have hlen := (mem_grouper pagesNeeded_pos (List.mem_of_find?_eq_some hfind)).2
            exact absurd hlen (Nat.ne_of_lt pagesNeeded_pos)
        | cons b linked =>
            have hfinds : Finds cfg mgr size hp grown b linked := ⟨hpure, hfind⟩
            dsimp only
            rw [run_modify_bind]
            rcases @iovaGet_run (withLinks grown b linked (blockSize cfg size)) (blockSize cfg size)
              with ⟨iova, freeIovas, hle, hfree, hget⟩ | ⟨hnone, e, hget⟩
            · rw [run_bind_ok hget, run_modify_bind]
              obtain ⟨hm, hblock⟩ := @withBlock_eq direction grown b iova (blockSize cfg size)
                linked freeIovas _ rfl
              rcases @mapIova_run _ direction mapFunc b _ hm with ⟨hd, hmap, hrun⟩ | ⟨hnot, e, hrun⟩
              · rw [run_bind_ok hrun, hblock]
                exact .block hfinds hle hfree hd hmap
              · rw [run_bind_error hrun]
                exact .unmapped hfinds hle hfree hnot
            · rw [run_bind_error hget]
              exact .noIova hfinds hnone
  · rw [run_bind_error hrun]
    exact .ungrown hpure hleft

/-! ## A failed call of `malloc` -/

/-- What a caller may not notice: the old pages, the live blocks and the free IOVAs. -/
structure Unchanged (mgr mgr' : HugePagesMemoryMgr) : Prop where
  page : ∀ i, i < mgr.numPages → (mgr'.page i).inUse = (mgr.page i).inUse
    ∧ (mgr'.page i).size = (mgr.page i).size ∧ (mgr'.page i).linkedMem = (mgr.page i).linkedMem
  mallocMem : mgr'.mallocMem = mgr.mallocMem
  freeIovas : mgr'.freeIovas = mgr.freeIovas

/-- The contract: if `malloc` raises, nothing has changed. -/
def FailsCleanly (cfg : HugePagesConfig) (mgr : HugePagesMemoryMgr) (size : Int)
    (direction : DMADirection) (hp : Nat → Nat) (mapFunc : Mapping → Except Exc Unit) : Prop :=
  ∀ e mgr', malloc cfg size direction hp mapFunc mgr = .error e mgr' → Unchanged mgr mgr'

/-- There is an IOVA for the block. -/
def HasIova (cfg : HugePagesConfig) (mgr : HugePagesMemoryMgr) (size : Int) : Prop :=
  blockSize cfg size ≤ HugePagesIovaMgr.increment ∧ mgr.freeIovas ≠ []

/-- The map function accepts the block `b`. -/
def Maps (cfg : HugePagesConfig) (mgr grown : HugePagesMemoryMgr) (b : Nat) (size : Int)
    (direction : DMADirection) (mapFunc : Mapping → Except Exc Unit) : Prop :=
  direction ≠ .bidirectional ∧ ∀ iova, mgr.freeIovas.head? = some iova →
    mapFunc (mappingOf grown b iova (blockSize cfg size) direction) = .ok ()

/-- A group that is found gets an IOVA and is mapped, or there is none and marking it changed nothing. -/
def Spared (cfg : HugePagesConfig) (mgr : HugePagesMemoryMgr) (size : Int)
    (direction : DMADirection) (hp : Nat → Nat) (mapFunc : Mapping → Except Exc Unit) : Prop :=
  ∀ grown b linked, Finds cfg mgr size hp grown b linked →
    (HasIova cfg mgr size → Maps cfg mgr grown b size direction mapFunc)
    ∧ (¬ HasIova cfg mgr size →
      mgr.numPages ≤ b ∨ linked = [] ∧ (grown.page b).size = blockSize cfg size)

theorem Finds.unique {g g' : HugePagesMemoryMgr} {b b' : Nat} {l l' : List Nat}
    (h : Finds cfg mgr size hp g b l) (h' : Finds cfg mgr size hp g' b' l') :
    g' = g ∧ b' = b ∧ l' = l := by
  have hg : g' = g := Except.ok.inj (h'.grows.symm.trans h.grows)
  subst hg
  have hgroup := Option.some.inj (h'.group.symm.trans h.group)
  exact ⟨rfl, (List.cons.inj hgroup).1, (List.cons.inj hgroup).2⟩

theorem Finds.grown {grown : HugePagesMemoryMgr} {b : Nat} {linked : List Nat}
    (h : Finds cfg mgr size hp grown b linked) : Grown mgr grown := ensureFree_grown h.grows

/-- Free pages are in the order of the list of pages. -/
theorem Finds.linked_gt {grown : HugePagesMemoryMgr} {b : Nat} {linked : List Nat}
    (h : Finds cfg mgr size hp grown b linked) : ∀ i ∈ linked, b < i := by
  have hsorted : grown.freePages.Pairwise (· < ·) := List.pairwise_lt_range.filter _
  exact (List.pairwise_cons.mp (hsorted.sublist h.spec.1)).1

theorem unchanged_of_grown {grown : HugePagesMemoryMgr} (h : Grown mgr grown) :
    Unchanged mgr grown where
  page i hi := by
    rw [h.page i hi]
    exact ⟨rfl, rfl, rfl⟩
  mallocMem := h.mallocMem
  freeIovas := h.freeIovas

/-- A group that was marked is noticed, unless it is new or one page that had the size. -/
theorem unchanged_withLinks_iff {grown : HugePagesMemoryMgr} {b n : Nat} {linked : List Nat}
    (h : Finds cfg mgr size hp grown b linked) :
    Unchanged mgr (withLinks grown b linked n)
      ↔ mgr.numPages ≤ b ∨ linked = [] ∧ (grown.page b).size = n := by
  have hself : (withLinks grown b linked n).page b
      = { grown.page b with linkedMem := (grown.page b).linkedMem ++ linked, size := n } := if_pos rfl
  constructor
  · intro hsame
    rcases Nat.lt_or_ge b mgr.numPages with hb | hb
    · obtain ⟨_, hsize, hlinked⟩ := hsame.page b hb
      rw [hself, ← h.grown.page b hb] at hsize hlinked
      exact Or.inr ⟨List.append_right_eq_self.mp hlinked, hsize.symm⟩
    · exact Or.inl hb
  · intro hcase
    refine ⟨fun i hi => ?_, h.grown.mallocMem, h.grown.freeIovas⟩
    have hother : i ≠ b → i ∉ linked → (withLinks grown b linked n).page i = mgr.page i :=
      fun hne hnot => ((if_neg hne).trans (if_neg hnot)).trans (h.grown.page i hi)
    -- a block of new pages, or one page whose size was this already
    rcases hcase with hnew | ⟨rfl, hsize⟩
    · have hnot : i ∉ linked := fun hin => by
        have hgt := h.linked_gt i hin
        omega
      rw [hother (by omega) hnot]
      exact ⟨rfl, rfl, rfl⟩
    · by_cases hib : i = b
      · rw [hib] at hi ⊢
        rw [hself, ← h.grown.page b hi, ← hsize, List.append_nil]
        exact ⟨rfl, rfl, rfl⟩
      · rw [hother hib List.not_mem_nil]
        exact ⟨rfl, rfl, rfl⟩

/--
**When a failed `malloc` changes nothing.** Only `Not able to find memory` and a growth
that failed leave no trace. Once a group is marked, an IOVA that is missing leaves the
marks, and a mapping that fails leaves also a block without a mapping.
-/
theorem failsCleanly_iff (cfg : HugePagesConfig) (mgr : HugePagesMemoryMgr) (size : Int)
    (direction : DMADirection) (hp : Nat → Nat) (mapFunc : Mapping → Except Exc Unit) :
    FailsCleanly cfg mgr size direction hp mapFunc ↔ Spared cfg mgr size direction hp mapFunc := by
  unfold FailsCleanly
  generalize hr : malloc cfg size direction hp mapFunc mgr = r
  have hrun : MallocRun cfg mgr size direction hp mapFunc r := hr ▸ malloc_run
  -- by how far the call got
  cases hrun with
  | ungrown hgrow hleft =>
      refine iff_of_true (fun e mgr' h => ?_) fun grown b linked h => ?_
      · injection h with _ he
        exact he ▸ unchanged_of_grown (mallocHps_induct
          (fun _ vaddr h => h.withHugepage vaddr) (Grown.refl mgr) hleft)
      · exact absurd (hgrow.symm.trans h.grows) (by simp)
  | noGroup hgrow hnone =>
      refine iff_of_true (fun e mgr' h => ?_) fun grown b linked h => ?_
      · injection h with _ he
        exact he ▸ unchanged_of_grown (ensureFree_grown hgrow)
      · have hg := Except.ok.inj (hgrow.symm.trans h.grows)
        exact absurd ((hg ▸ hnone).symm.trans h.group) (by simp)
  | @noIova grown b linked e hfinds hnot =>
      rw [hfinds.grown.freeIovas] at hnot
      -- the group stays marked, which shows unless it is new or one page of that size
      have hmarks := @unchanged_withLinks_iff cfg mgr size hp grown b (blockSize cfg size) linked hfinds
      constructor
      · intro hclean grown' b' linked' h'
        obtain ⟨rfl, rfl, rfl⟩ := hfinds.unique h'
        exact ⟨fun hhas => absurd hhas hnot, fun _ => hmarks.mp (hclean _ _ rfl)⟩
      · intro hspared e' mgr' h
        injection h with _ he
        exact he ▸ hmarks.mpr ((hspared _ _ _ hfinds).2 hnot)
  | @unmapped grown b iova linked freeIovas e hfinds hle hfree hnot =>
      rw [hfinds.grown.freeIovas] at hfree
      refine iff_of_false (fun hclean => ?_) fun hspared => ?_
      · -- the IOVA is gone
        have hgone : freeIovas = mgr.freeIovas := (hclean _ _ rfl).freeIovas
        rw [hfree] at hgone
        exact absurd hgone.symm (List.cons_ne_self _ _)
      · have hhas : HasIova cfg mgr size := ⟨hle, by rw [hfree]; exact List.cons_ne_nil _ _⟩
        obtain ⟨hd, hmap⟩ := (hspared _ _ _ hfinds).1 hhas
        exact hnot ⟨hd, hmap iova (by rw [hfree]; rfl)⟩
  | @block grown b iova linked freeIovas hfinds hle hfree hd hmap =>
      rw [hfinds.grown.freeIovas] at hfree
      -- it returns: there is no exception to leave anything
      refine iff_of_true (fun e mgr' h => absurd h (by simp)) fun grown' b' linked' h' => ?_
      obtain ⟨rfl, rfl, rfl⟩ := hfinds.unique h'
      have hhas : HasIova cfg mgr size := ⟨hle, by rw [hfree]; exact List.cons_ne_nil _ _⟩
      refine ⟨fun _ => ⟨hd, fun iova' hiova => ?_⟩, fun hno => absurd hhas hno⟩
      rw [hfree, List.head?_cons, Option.some.injEq] at hiova
      exact hiova ▸ hmap

/-- A new manager refuses a direction, but keeps the block. -/
theorem not_failsCleanly_bidirectional :
    ∃ mgr, (machine smallPages).Reachable mgr
      ∧ ¬ FailsCleanly smallPages mgr 4096 .bidirectional (fun _ => 0) fun _ => .ok () := by
  have hleft : (runNew smallPages (fun _ => 0x200000) []).map (fun mgr =>
      match malloc smallPages 4096 .bidirectional (fun _ => 0) (fun _ => .ok ()) mgr with
      | .ok _ _ => ([], [])
      | .error _ left => (mgr.mallocMem, left.mallocMem)) = some ([], [0]) := by
    decide +kernel
  obtain ⟨mgr, hrun, hmgr⟩ := Option.map_eq_some_iff.mp hleft
  refine ⟨mgr, reachable_runNew hrun, fun hclean => ?_⟩
  cases hmalloc : malloc smallPages 4096 .bidirectional (fun _ => 0) (fun _ => .ok ()) mgr with
  | ok b left =>
      rw [hmalloc] at hmgr
      exact absurd hmgr (by simp)
  | error e left =>
      rw [hmalloc] at hmgr
      have hsame := (hclean _ _ hmalloc).mallocMem
      rw [(Prod.mk.inj hmgr).1, (Prod.mk.inj hmgr).2] at hsame
      exact absurd hsame (by simp)

end Calls

end HugePagesMemoryMgr

end LoneNvme
