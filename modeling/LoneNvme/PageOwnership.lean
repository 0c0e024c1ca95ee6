import LoneNvme.HugePages
import LoneNvme.Lib.Lists

/-!
# Who owns a page

A page in use belongs to one block or was handed out by `malloc_pages`. `owned` lists the
pages of all blocks and those handed out; that the list has no duplicates says that no
page has two owners. Free pages are as they were when their hugepage was split.

That is the invariant `Inv`, and each operation keeps it: `withBlock`, `withHanded` and
`withoutBlock` are the states that `malloc`, `malloc_pages` and `free` leave when they return.
What users of the manager rely on follows from it and from the addresses: two pages differ in
their numbers, so their bytes do not overlap, and with them those of two blocks.
-/

namespace LoneNvme

open Lib

namespace HugePagesMemoryMgr

variable {cfg : HugePagesConfig} {mgr mgr' : HugePagesMemoryMgr}

/-- The pages of a block. -/
def block (mgr : HugePagesMemoryMgr) (b : Nat) : List Nat := b :: (mgr.page b).linkedMem

/-- The pages of all blocks, and those handed out. -/
def owned (mgr : HugePagesMemoryMgr) : List Nat := mgr.mallocMem.flatMap mgr.block ++ mgr.handedOut

/-! ## What the calls do -/

theorem mallocHp_ok {vaddr : Nat} (h : mgr.mallocHp cfg vaddr = .ok mgr') :
    mgr' = mgr.withHugepage cfg vaddr := by
  unfold mallocHp at h
  cases hmod : decide (cfg.hugepagesSize % cfg.scPageSize = 0) with
  | false =>
      rw [hmod] at h
      exact absurd h (by simp [bind, Except.bind])
  | true =>
      rw [hmod] at h
      dsimp only [assertThat_true, bind, Except.bind] at h
      split at h
      · exact absurd h (by simp)
      · exact (Except.ok.inj h).symm

/-- What every hugepage keeps, growing keeps. -/
theorem mallocHps_induct {P : HugePagesMemoryMgr → Prop} {hp : Nat → Nat}
    (hstep : ∀ mgr vaddr, P mgr → P (mgr.withHugepage cfg vaddr)) :
    ∀ {n : Nat} {mgr mgr' : HugePagesMemoryMgr}, P mgr → mallocHps cfg hp n mgr = .ok mgr' → P mgr' := by
  intro n
  induction n with
  | zero =>
      intro mgr mgr' h hok
      rw [← Except.ok.inj hok]
      exact h
  | succ n ih =>
      intro mgr mgr' h hok
      unfold mallocHps at hok
      cases hrest : mallocHps cfg hp n mgr with
      | error e =>
          rw [hrest] at hok
          exact absurd hok (by simp [bind, Except.bind])
      | ok mgr₁ =>
          rw [hrest] at hok
          rw [mallocHp_ok hok]
          exact hstep mgr₁ (hp n) (ih h hrest)

theorem ensureFree_induct {P : HugePagesMemoryMgr → Prop} {hp : Nat → Nat} {num : Nat}
    {growth : Nat → Nat → Except Exc Nat}
    (hstep : ∀ mgr vaddr, P mgr → P (mgr.withHugepage cfg vaddr)) (h : P mgr)
    (hok : mgr.ensureFree cfg hp num growth = .ok mgr') : P mgr' := by
  unfold ensureFree at hok
  split at hok
  · obtain ⟨numAlloc, _, hok⟩ := bind_eq_ok hok
    exact mallocHps_induct hstep h hok
  · rw [← Except.ok.inj hok]
    exact h

/-- What growing leaves alone: the old pages and everything about blocks. -/
structure Grown (mgr grown : HugePagesMemoryMgr) : Prop where
  numPages : mgr.numPages ≤ grown.numPages
  page : ∀ i, i < mgr.numPages → grown.page i = mgr.page i
  mallocMem : grown.mallocMem = mgr.mallocMem
  freeIovas : grown.freeIovas = mgr.freeIovas

theorem Grown.refl (mgr : HugePagesMemoryMgr) : Grown mgr mgr :=
  ⟨Nat.le_refl _, fun _ _ => rfl, rfl, rfl⟩

theorem Grown.withHugepage {grown : HugePagesMemoryMgr} (h : Grown mgr grown) (vaddr : Nat) :
    Grown mgr (grown.withHugepage cfg vaddr) where
  numPages := h.numPages.trans (Nat.le_add_right _ _)
  page i hi := (if_pos (Nat.lt_of_lt_of_le hi h.numPages)).trans (h.page i hi)
  mallocMem := h.mallocMem
  freeIovas := h.freeIovas

theorem ensureFree_grown {hp : Nat → Nat} {num : Nat} {growth : Nat → Nat → Except Exc Nat}
    (hok : mgr.ensureFree cfg hp num growth = .ok mgr') : Grown mgr mgr' :=
  ensureFree_induct (fun _ vaddr h => h.withHugepage vaddr) (Grown.refl mgr) hok

theorem mem_grouper {α : Type} {l g : List α} {n : Nat} (hn : 0 < n) (h : g ∈ grouper l n) :
    g.Sublist l ∧ g.length = n := by
  obtain ⟨i, hi, rfl⟩ := List.mem_map.mp h
  have hlt := List.mem_range.mp hi
  refine ⟨(List.take_sublist _ _).trans (List.drop_sublist _ _), ?_⟩
  rw [List.length_take, List.length_drop]
  omega

theorem mem_freePages {i : Nat} : i ∈ mgr.freePages ↔ i < mgr.numPages ∧ (mgr.page i).inUse = false := by
  rw [freePages, List.mem_filter, List.mem_range, Bool.not_eq_true']

theorem nodup_freePages : mgr.freePages.Nodup := List.nodup_range.filter _

/-- The manager once the free group `b :: linked` is a block. -/
def withBlock (mgr : HugePagesMemoryMgr) (b : Nat) (linked : List Nat) (m : Mapping)
    (freeIovas : List Nat) : HugePagesMemoryMgr :=
  { mgr with
    page := fun i =>
      if i = b then
        { mgr.page b with
          size := m.size, iova := m.iova, inUse := true, iovaMapped := true
          linkedMem := (mgr.page b).linkedMem ++ linked }
      else if i ∈ linked then { mgr.page i with inUse := true } else mgr.page i
    freeIovas
    mallocMem := mgr.mallocMem ++ [b]
    iommu := mgr.iommu ++ [m]
    passed := Function.update mgr.passed b (some m) }

theorem takeGroup_ok {b size : Nat} {linked : List Nat} {direction : DMADirection} (hb : b ∉ linked)
    (h : mgr.takeGroup b linked size direction = .ok mgr') :
    ∃ iova freeIovas, mgr.freeIovas = iova :: freeIovas
      ∧ mgr' = mgr.withBlock b linked ⟨(mgr.page b).vaddr, iova, size, direction⟩ freeIovas := by
  unfold takeGroup iovaGet at h
  -- the IOVA is refused for more than its window, or there is none left
  cases hsize : decide (size ≤ HugePagesIovaMgr.increment) with
  | false =>
      rw [hsize] at h
      exact absurd h (by simp [bind, Except.bind])
  | true =>
      rw [hsize] at h
      dsimp only [assertThat_true, bind, Except.bind, setPage] at h
      cases hfree : mgr.freeIovas with
      | nil =>
          rw [hfree] at h
          exact absurd h (by simp)
      | cons iova freeIovas =>
          rw [hfree] at h
          dsimp only [mapIova, setPage] at h
          simp only [Function.update_self, Function.update_idem, if_neg hb] at h
          split at h
          · exact absurd h (by simp)
          · refine ⟨iova, freeIovas, rfl, ?_⟩
            rw [← Except.ok.inj h, withBlock]
            congr 1
            funext i
            by_cases hi : i = b
            · rw [hi, Function.update_self, if_pos rfl]
            · rw [Function.update_of_ne hi, if_neg hi]

/-- **What `malloc` does**: it grows, takes a free group, and maps it. -/
theorem malloc_ok {size : Int} {direction : DMADirection} {hp : Nat → Nat} {b : Nat}
    (h : mgr.malloc cfg size direction hp = .ok (b, mgr')) :
    ∃ grown linked iova freeIovas,
      mgr.ensureFree cfg hp (pagesNeeded cfg size) mallocGrowth = .ok grown
      ∧ (b :: linked).Sublist grown.freePages ∧ (b :: linked).length = pagesNeeded cfg size
      ∧ grown.contiguous (b :: linked) = true ∧ grown.freeIovas = iova :: freeIovas
      ∧ mgr' = grown.withBlock b linked ⟨(grown.page b).vaddr, iova, blockSize cfg size, direction⟩
          freeIovas := by
  unfold malloc at h
  cases hgrown : mgr.ensureFree cfg hp (pagesNeeded cfg size) mallocGrowth with
  | error e =>
      rw [hgrown] at h
      exact absurd h (by simp [bind, Except.bind])
  | ok grown =>
      rw [hgrown] at h
      dsimp only [bind, Except.bind] at h
      split at h
      · rename_i b' linked hfind
        obtain ⟨hsub, hlen⟩ := mem_grouper (Nat.lt_of_lt_of_le Nat.one_pos (Nat.le_max_left _ _))
          (List.mem_of_find?_eq_some hfind)
        have hsuitable := List.find?_some hfind
        rw [suitable, Bool.and_eq_true] at hsuitable
        cases htake : grown.takeGroup b' linked (blockSize cfg size) direction with
        | error e =>
            rw [htake] at h
            exact absurd h (by simp)
        | ok taken =>
            rw [htake] at h
            injection h with h
            injection h with hb hm
            subst hb hm
            -- a group is a sublist of the free pages, so its head is not among the others
            have hnotin : b' ∉ linked := (List.nodup_cons.mp (nodup_freePages.sublist hsub)).1
            obtain ⟨iova, freeIovas, hfree, hm⟩ := takeGroup_ok hnotin htake
            exact ⟨grown, linked, iova, freeIovas, rfl, hsub, hlen, hsuitable.2, hfree, hm⟩
      · exact absurd h (by simp)

/-- The manager once some free pages were handed out. -/
def withHanded (mgr : HugePagesMemoryMgr) (pages : List Nat) : HugePagesMemoryMgr :=
  { mgr with
    page := fun i => if i ∈ pages then { mgr.page i with inUse := true } else mgr.page i
    handedOut := mgr.handedOut ++ pages }

theorem mallocPages_ok {num : Nat} {hp : Nat → Nat} {pages : List Nat}
    (h : mgr.mallocPages cfg num hp = .ok (pages, mgr')) :
    ∃ grown, mgr.ensureFree cfg hp num mallocPagesGrowth = .ok grown
      ∧ pages.Sublist grown.freePages ∧ mgr' = grown.withHanded pages := by
  unfold mallocPages at h
  cases hgrown : mgr.ensureFree cfg hp num mallocPagesGrowth with
  | error e =>
      rw [hgrown] at h
      exact absurd h (by simp [bind, Except.bind])
  | ok grown =>
      rw [hgrown] at h
      dsimp only [bind, Except.bind] at h
      cases hlen : decide ((grown.freePages.take num).length = num) with
      | false =>
          rw [hlen] at h
          exact absurd h (by simp)
      | true =>
          rw [hlen] at h
          dsimp only [assertThat_true] at h
          injection h with h
          injection h with hp hm
          subst hp hm
          exact ⟨grown, rfl, List.take_sublist _ _, rfl⟩

/-- The loop over the links, all of them in use. -/
theorem freeLinks_eq :
    ∀ {linked : List Nat} {mgr : HugePagesMemoryMgr}, linked.Nodup →
      (∀ i ∈ linked, (mgr.page i).inUse = true) →
      freeLinks cfg linked mgr = .ok { mgr with
        page := fun i => if i ∈ linked then (mgr.page i).release cfg.pageSize else mgr.page i } := by
  intro linked
  induction linked with
  | nil => exact fun _ _ => rfl
  | cons j linked ih =>
      intro mgr hnodup huse
      obtain ⟨hj, hnodup⟩ := List.nodup_cons.mp hnodup
      -- releasing one page leaves the marks of the others
      have hrest : ∀ i ∈ linked,
          ((mgr.setPage j ((mgr.page j).release cfg.pageSize)).page i).inUse = true := by
        intro i hi
        have hne : i ≠ j := fun he => hj (he ▸ hi)
        rw [setPage_of_ne _ hne]
        exact huse i (List.mem_cons_of_mem _ hi)
      unfold freeLinks
      rw [huse j List.mem_cons_self]
      dsimp only [assertThat_true, bind, Except.bind]
      rw [ih hnodup hrest, setPage]
      congr 2
      funext i
      by_cases hij : i = j
      · rw [hij, if_neg hj, if_pos List.mem_cons_self]
        exact Function.update_self _ _ _
      · dsimp only
        rw [Function.update_of_ne hij]
        simp only [List.mem_cons, hij, false_or]

/-- The manager after the block `b` was freed. -/
def withoutBlock (cfg : HugePagesConfig) (mgr : HugePagesMemoryMgr) (b : Nat) : HugePagesMemoryMgr :=
  { mgr with
    page := fun i =>
      if i = b then
        { (mgr.page b).release cfg.pageSize with linkedMem := [], iovaMapped := false }
      else if i ∈ (mgr.page b).linkedMem then (mgr.page i).release cfg.pageSize
      else mgr.page i
    iommu := unmap mgr.iommu (mgr.page b).iova cfg.pageSize
    unmapped := ((mgr.page b).iova, cfg.pageSize) :: mgr.unmapped
    freeIovas := mgr.freeIovas ++ [(mgr.page b).iova]
    mem := mgr.mem.fill (mgr.page b).vaddr cfg.pageSize 0
    mallocMem := mgr.mallocMem.erase b }

/-- **What `free` does** to a live block. -/
theorem free_eq {b : Nat} (hb : b ∈ mgr.mallocMem) (hnodup : (mgr.block b).Nodup)
    (huse : ∀ i ∈ mgr.block b, (mgr.page i).inUse = true) (hmapped : (mgr.page b).iovaMapped = true) :
    mgr.free cfg b = .ok (mgr.withoutBlock cfg b) := by
  obtain ⟨hnotin, hnodup⟩ := List.nodup_cons.mp hnodup
  unfold free
  rw [freeLinks_eq hnodup fun i hi => huse i (List.mem_cons_of_mem _ hi)]
  dsimp only [bind, Except.bind, setPage]
  simp only [Function.update_self, Function.update_idem, if_neg hnotin, huse b List.mem_cons_self,
    hmapped, assertThat_true, if_pos hb, MemPage.release]
  congr 1
  rw [withoutBlock]
  congr 1
  funext i
  by_cases hi : i = b
  · rw [hi, Function.update_self, if_pos rfl]
    rfl
  · rw [Function.update_of_ne hi, if_neg hi]
    rfl

/-! ## The invariant -/

/-- The addresses of the pages of a hugepage. -/
def splits (cfg : HugePagesConfig) (r : Nat × Nat) : List Nat :=
  (List.range (r.2 / cfg.pageSize)).map fun k => r.1 + k * cfg.pageSize

structure Inv (cfg : HugePagesConfig) (iovas : List Nat) (mgr : HugePagesMemoryMgr) : Prop where
  lt : ∀ i ∈ mgr.owned, i < mgr.numPages
  nodup : mgr.owned.Nodup
  inUse : ∀ i, i < mgr.numPages → ((mgr.page i).inUse = true ↔ i ∈ mgr.owned)
  /-- Only the first page of a block has another size, or links. -/
  plain : ∀ i, i < mgr.numPages → i ∉ mgr.mallocMem →
    (mgr.page i).size = cfg.pageSize ∧ (mgr.page i).linkedMem = []
  consecutive : ∀ b ∈ mgr.mallocMem, ∀ k i, (mgr.block b)[k]? = some i →
    (mgr.page i).vaddr = (mgr.page b).vaddr + k * cfg.pageSize
  iovas : (mgr.mallocMem.map (fun b => (mgr.page b).iova) ++ mgr.freeIovas).Perm iovas
  mapped : ∀ b ∈ mgr.mallocMem, (mgr.page b).iovaMapped = true ∧ ∃ direction,
    mgr.passed b = some ⟨(mgr.page b).vaddr, (mgr.page b).iova, (mgr.page b).size, direction⟩
  addrs : (List.range mgr.numPages).map (fun i => (mgr.page i).vaddr)
    = mgr.allocatedMemory.flatMap (splits cfg)

variable {iovas : List Nat}

theorem mem_owned {i : Nat} :
    i ∈ mgr.owned ↔ (∃ b ∈ mgr.mallocMem, i ∈ mgr.block b) ∨ i ∈ mgr.handedOut := by
  rw [owned, List.mem_append, List.mem_flatMap]

theorem mem_owned_of_mallocMem {b : Nat} (h : b ∈ mgr.mallocMem) : b ∈ mgr.owned :=
  mem_owned.mpr (Or.inl ⟨b, h, List.mem_cons_self⟩)

theorem Inv.lt_of_mallocMem (h : Inv cfg iovas mgr) {b : Nat} (hb : b ∈ mgr.mallocMem) :
    b < mgr.numPages := h.lt b (mem_owned_of_mallocMem hb)

/-- A page that is not free has an owner, and the others have none. -/
theorem Inv.not_mem_owned (h : Inv cfg iovas mgr) {i : Nat} (hi : i ∈ mgr.freePages) :
    i < mgr.numPages ∧ i ∉ mgr.owned := by
  obtain ⟨hlt, hfree⟩ := mem_freePages.mp hi
  refine ⟨hlt, fun hin => ?_⟩
  rw [(h.inUse i hlt).mpr hin] at hfree
  exact absurd hfree (by simp)

/-- What the owned pages are does not depend on the others. -/
theorem owned_congr (hmem : mgr'.mallocMem = mgr.mallocMem) (hout : mgr'.handedOut = mgr.handedOut)
    (hblock : ∀ b ∈ mgr.mallocMem, mgr'.block b = mgr.block b) : mgr'.owned = mgr.owned := by
  rw [owned, owned, hmem, hout, List.flatMap_congr hblock]

theorem Inv.withHugepage (h : Inv cfg iovas mgr) (vaddr : Nat) :
    Inv cfg iovas (mgr.withHugepage cfg vaddr) := by
  -- the pages of a hugepage come after the ones there are
  have hold : ∀ {i}, i < mgr.numPages → (mgr.withHugepage cfg vaddr).page i = mgr.page i :=
    fun hi => if_pos hi
  have hnew : ∀ {i}, ¬ i < mgr.numPages → (mgr.withHugepage cfg vaddr).page i
      = { vaddr := vaddr + (i - mgr.numPages) * cfg.pageSize, iova := 0, size := cfg.pageSize } :=
    fun hi => if_neg hi
  have hblock : ∀ b ∈ mgr.mallocMem, (mgr.withHugepage cfg vaddr).block b = mgr.block b := by
    intro b hb
    rw [block, block, hold (h.lt_of_mallocMem hb)]
  have howned : (mgr.withHugepage cfg vaddr).owned = mgr.owned := owned_congr rfl rfl hblock
  refine ⟨fun i hi => ?_, howned ▸ h.nodup, fun i _ => ?_, fun i _ hi => ?_, fun b hb k i hk => ?_,
    ?_, fun b hb => ?_, ?_⟩
  · rw [howned] at hi
    exact Nat.lt_of_lt_of_le (h.lt i hi) (Nat.le_add_right _ _)
  · rw [howned]
    by_cases hlt : i < mgr.numPages
    · rw [hold hlt]
      exact h.inUse i hlt
    · rw [hnew hlt]
      exact iff_of_false (by simp) fun hin => hlt (h.lt i hin)
  · by_cases hlt : i < mgr.numPages
    · rw [hold hlt]
      exact h.plain i hlt hi
    · rw [hnew hlt]
      exact ⟨rfl, rfl⟩
  · have hi : i ∈ mgr.owned := by
      rw [hblock b hb] at hk
      exact mem_owned.mpr (Or.inl ⟨b, hb, List.mem_of_getElem? hk⟩)
    rw [hblock b hb] at hk
    rw [hold (h.lt i hi), hold (h.lt_of_mallocMem hb)]
    exact h.consecutive b hb k i hk
  · have hsame : (mgr.withHugepage cfg vaddr).mallocMem.map
        (fun b => ((mgr.withHugepage cfg vaddr).page b).iova)
        = mgr.mallocMem.map fun b => (mgr.page b).iova :=
      List.map_congr_left fun b hb => by rw [hold (h.lt_of_mallocMem hb)]
    rw [hsame]
    exact h.iovas
  · rw [hold (h.lt_of_mallocMem hb)]
    exact h.mapped b hb
  · show (List.range (mgr.numPages + cfg.hugepagesSize / cfg.pageSize)).map _
      = (mgr.allocatedMemory ++ [(vaddr, cfg.hugepagesSize)]).flatMap _
    rw [List.range_add, List.map_append, List.flatMap_append, ← h.addrs, List.map_map]
    congr 1
    · exact List.map_congr_left fun i hi => by rw [hold (List.mem_range.mp hi)]
    · rw [List.flatMap_singleton, splits]
      refine List.map_congr_left fun k _ => ?_
      rw [Function.comp_apply, hnew (by omega), Nat.add_sub_cancel_left]

/-- A group whose pages follow each other, all of the page size. -/
theorem contiguous_vaddr :
    ∀ {group : List Nat} {a : Nat}, mgr.contiguous (a :: group) = true →
      (∀ i ∈ a :: group, (mgr.page i).size = cfg.pageSize) →
      ∀ {k i : Nat}, (a :: group)[k]? = some i →
        (mgr.page i).vaddr = (mgr.page a).vaddr + k * cfg.pageSize := by
  intro group
  induction group with
  | nil =>
      intro a _ _ k i hk
      cases k with
      | zero =>
          rw [List.getElem?_cons_zero] at hk
          rw [← Option.some.inj hk, Nat.zero_mul, Nat.add_zero]
      | succ k => exact absurd hk (by simp)
  | cons j group ih =>
      intro a hcont hsize k i hk
      rw [contiguous, Bool.and_eq_true, beq_iff_eq] at hcont
      cases k with
      | zero =>
          rw [List.getElem?_cons_zero] at hk
          rw [← Option.some.inj hk, Nat.zero_mul, Nat.add_zero]
      | succ k =>
          rw [List.getElem?_cons_succ] at hk
          have hrest := ih hcont.2 (fun i hi => hsize i (List.mem_cons_of_mem a hi)) hk
          rw [hrest, ← hcont.1, hsize a List.mem_cons_self, Nat.succ_mul]
          omega

section NewBlock

variable {b : Nat} {linked : List Nat} {m : Mapping} {freeIovas : List Nat}

theorem withBlock_page_self : (mgr.withBlock b linked m freeIovas).page b
    = { mgr.page b with
        size := m.size, iova := m.iova, inUse := true, iovaMapped := true
        linkedMem := (mgr.page b).linkedMem ++ linked } := if_pos rfl

theorem withBlock_page_linked {i : Nat} (hne : i ≠ b) (hi : i ∈ linked) :
    (mgr.withBlock b linked m freeIovas).page i = { mgr.page i with inUse := true } :=
  (if_neg hne).trans (if_pos hi)

theorem withBlock_page_other {i : Nat} (hi : i ∉ b :: linked) :
    (mgr.withBlock b linked m freeIovas).page i = mgr.page i := by
  rw [List.mem_cons, not_or] at hi
  exact (if_neg hi.1).trans (if_neg hi.2)

theorem withBlock_vaddr (i : Nat) :
    ((mgr.withBlock b linked m freeIovas).page i).vaddr = (mgr.page i).vaddr := by
  by_cases hb : i = b
  · rw [hb, withBlock_page_self]
  · by_cases hi : i ∈ linked
    · rw [withBlock_page_linked hb hi]
    · rw [withBlock_page_other fun h => (List.mem_cons.mp h).elim hb hi]

/-- The pages of a new block have no owner. -/
theorem Inv.apart_of_free (h : Inv cfg iovas mgr) (hfree : (b :: linked).Sublist mgr.freePages) :
    ∀ i ∈ b :: linked, i < mgr.numPages ∧ i ∉ mgr.owned :=
  fun _ hi => h.not_mem_owned (hfree.subset hi)

/-- A page with an owner stays as it was. -/
theorem Inv.withBlock_page (h : Inv cfg iovas mgr) (hfree : (b :: linked).Sublist mgr.freePages)
    {i : Nat} (hi : i ∈ mgr.owned) : (mgr.withBlock b linked m freeIovas).page i = mgr.page i :=
  withBlock_page_other fun hin => (h.apart_of_free hfree i hin).2 hi

/-- The new block is the group. -/
theorem Inv.withBlock_block_self (h : Inv cfg iovas mgr)
    (hfree : (b :: linked).Sublist mgr.freePages) :
    (mgr.withBlock b linked m freeIovas).block b = b :: linked := by
  have hb := h.apart_of_free hfree b List.mem_cons_self
  have hplain := h.plain b hb.1 fun hm => hb.2 (mem_owned_of_mallocMem hm)
  rw [block, withBlock_page_self, hplain.2, List.nil_append]

/-- The blocks before it are what they were. -/
theorem Inv.withBlock_block (h : Inv cfg iovas mgr) (hfree : (b :: linked).Sublist mgr.freePages)
    {c : Nat} (hc : c ∈ mgr.mallocMem) :
    (mgr.withBlock b linked m freeIovas).block c = mgr.block c := by
  rw [block, block, h.withBlock_page hfree (mem_owned_of_mallocMem hc)]

/-- The group gets an owner, and the others keep theirs. -/
theorem Inv.withBlock_owned (h : Inv cfg iovas mgr) (hfree : (b :: linked).Sublist mgr.freePages) :
    (mgr.withBlock b linked m freeIovas).owned.Perm ((b :: linked) ++ mgr.owned) := by
  have hblocks : mgr.mallocMem.flatMap (mgr.withBlock b linked m freeIovas).block
      = mgr.mallocMem.flatMap mgr.block :=
    List.flatMap_congr fun c hc => h.withBlock_block hfree hc
  rw [owned]
  show ((mgr.mallocMem ++ [b]).flatMap _ ++ mgr.handedOut).Perm _
  rw [List.flatMap_append, List.flatMap_singleton, h.withBlock_block_self hfree, hblocks, owned,
    ← List.append_assoc]
  exact List.perm_append_comm.append_right _

theorem Inv.mem_withBlock_owned (h : Inv cfg iovas mgr)
    (hfree : (b :: linked).Sublist mgr.freePages) {i : Nat} :
    i ∈ (mgr.withBlock b linked m freeIovas).owned ↔ i ∈ b :: linked ∨ i ∈ mgr.owned :=
  (h.withBlock_owned hfree).mem_iff.trans List.mem_append

/-- The new block takes its IOVA from the free ones. -/
theorem Inv.withBlock_iovas (h : Inv cfg iovas mgr) (hfree : (b :: linked).Sublist mgr.freePages)
    (hiova : mgr.freeIovas = m.iova :: freeIovas) :
    ((mgr.mallocMem ++ [b]).map (fun c => ((mgr.withBlock b linked m freeIovas).page c).iova)
      ++ freeIovas).Perm iovas := by
  have hsame : mgr.mallocMem.map (fun c => ((mgr.withBlock b linked m freeIovas).page c).iova)
      = mgr.mallocMem.map fun c => (mgr.page c).iova :=
    List.map_congr_left fun c hc => by rw [h.withBlock_page hfree (mem_owned_of_mallocMem hc)]
  rw [List.map_append, hsame, List.append_assoc]
  refine List.Perm.trans ?_ h.iovas
  rw [hiova, List.map_singleton, withBlock_page_self]
  exact List.Perm.refl _

/-- **A new block** has a free group of pages, and a free IOVA. -/
theorem Inv.withBlock (h : Inv cfg iovas mgr) (hfree : (b :: linked).Sublist mgr.freePages)
    (hcont : mgr.contiguous (b :: linked) = true) (hiova : mgr.freeIovas = m.iova :: freeIovas)
    (hvaddr : m.vaddr = (mgr.page b).vaddr) :
    Inv cfg iovas (mgr.withBlock b linked m freeIovas) := by
  have hgroup := h.apart_of_free hfree
  -- the pages of the group are free, so as long as a page
  have hsize : ∀ i ∈ b :: linked, (mgr.page i).size = cfg.pageSize := fun i hi =>
    (h.plain i (hgroup i hi).1 fun hm => (hgroup i hi).2 (mem_owned_of_mallocMem hm)).1
  refine ⟨fun i hi => ?_, ?_, fun i hi => ?_, fun i hi hnot => ?_, fun c hc k i hk => ?_,
    h.withBlock_iovas hfree hiova, fun c hc => ?_, ?_⟩
  · exact ((h.mem_withBlock_owned hfree).mp hi).elim (fun hi => (hgroup i hi).1) (h.lt i)
  · refine (h.withBlock_owned hfree).nodup_iff.mpr
      (List.nodup_append.mpr ⟨nodup_freePages.sublist hfree, h.nodup, ?_⟩)
    intro i hi j hj he
    exact (hgroup i hi).2 (he ▸ hj)
  · rw [h.mem_withBlock_owned hfree]
    by_cases hin : i ∈ b :: linked
    · -- every page of the group is marked
      refine iff_of_true ?_ (Or.inl hin)
      by_cases hb : i = b
      · rw [hb, withBlock_page_self]
      · rw [withBlock_page_linked hb ((List.mem_cons.mp hin).resolve_left hb)]
    · rw [withBlock_page_other hin, h.inUse i hi]
      exact ⟨Or.inr, fun ho => ho.resolve_left hin⟩
  · have hnot : i ∉ mgr.mallocMem ∧ i ≠ b :=
      ⟨fun hm => hnot (List.mem_append_left _ hm),
        fun he => hnot (List.mem_append_right _ (List.mem_singleton.mpr he))⟩
    by_cases hin : i ∈ linked
    · rw [withBlock_page_linked hnot.2 hin]
      exact h.plain i hi hnot.1
    · rw [withBlock_page_other fun hm => (List.mem_cons.mp hm).elim hnot.2 hin]
      exact h.plain i hi hnot.1
  · -- the group was contiguous when it was chosen
    rw [withBlock_vaddr, withBlock_vaddr]
    rcases List.mem_append.mp hc with hc | hc
    · rw [h.withBlock_block hfree hc] at hk
      exact h.consecutive c hc k i hk
    · rw [List.mem_singleton.mp hc] at hk ⊢
      rw [h.withBlock_block_self hfree] at hk
      exact contiguous_vaddr hcont hsize hk
  · show _ ∧ ∃ direction, Function.update mgr.passed b (some m) c = _
    rcases List.mem_append.mp hc with hc | hc
    · have howned : c ∈ mgr.owned := mem_owned_of_mallocMem hc
      have hne : c ≠ b := fun he => (hgroup b List.mem_cons_self).2 (he ▸ howned)
      rw [Function.update_of_ne hne, h.withBlock_page hfree howned]
      exact h.mapped c hc
    · rw [List.mem_singleton.mp hc, Function.update_self, withBlock_page_self]
      exact ⟨rfl, m.direction, by rw [← hvaddr]⟩
  · show (List.range mgr.numPages).map _ = _
    rw [List.map_congr_left fun i _ => @withBlock_vaddr mgr b linked m freeIovas i]
    exact h.addrs

end NewBlock

/-- **Pages handed out** were free. -/
theorem Inv.withHanded (h : Inv cfg iovas mgr) {pages : List Nat}
    (hfree : pages.Sublist mgr.freePages) : Inv cfg iovas (mgr.withHanded pages) := by
  have hpages : ∀ i ∈ pages, i < mgr.numPages ∧ i ∉ mgr.owned :=
    fun i hi => h.not_mem_owned (hfree.subset hi)
  have hin : ∀ {i}, i ∈ pages → (mgr.withHanded pages).page i = { mgr.page i with inUse := true } :=
    fun hi => if_pos hi
  have hnotin : ∀ {i}, i ∉ pages → (mgr.withHanded pages).page i = mgr.page i := fun hi => if_neg hi
  -- only the mark of a page changes, so the blocks are as they were
  have hloc : ∀ i, ((mgr.withHanded pages).page i).toMemoryLocation = (mgr.page i).toMemoryLocation
      ∧ ((mgr.withHanded pages).page i).linkedMem = (mgr.page i).linkedMem
      ∧ ((mgr.withHanded pages).page i).iovaMapped = (mgr.page i).iovaMapped := by
    intro i
    by_cases hi : i ∈ pages
    · rw [hin hi]
      exact ⟨rfl, rfl, rfl⟩
    · rw [hnotin hi]
      exact ⟨rfl, rfl, rfl⟩
  have hblock : ∀ b, (mgr.withHanded pages).block b = mgr.block b := by
    intro b
    rw [block, block, (hloc b).2.1]
  have howned : (mgr.withHanded pages).owned = mgr.owned ++ pages := by
    rw [owned, owned]
    show mgr.mallocMem.flatMap _ ++ (mgr.handedOut ++ pages) = _
    rw [List.flatMap_congr fun b _ => hblock b, List.append_assoc]
  refine ⟨fun i hi => ?_, ?_, fun i hi => ?_, fun i hi hnot => ?_, fun b hb k i hk => ?_, ?_,
    fun b hb => ?_, ?_⟩
  · rw [howned, List.mem_append] at hi
    exact hi.elim (h.lt i) fun hi => (hpages i hi).1
  · rw [howned, List.nodup_append]
    refine ⟨h.nodup, nodup_freePages.sublist hfree, fun i hi j hj he => ?_⟩
    exact (hpages j hj).2 (he ▸ hi)
  · rw [howned, List.mem_append]
    by_cases hp : i ∈ pages
    · rw [hin hp]
      exact iff_of_true rfl (Or.inr hp)
    · rw [hnotin hp, h.inUse i hi]
      exact ⟨Or.inl, fun ho => ho.resolve_right hp⟩
  · rw [(hloc i).1, (hloc i).2.1]
    exact h.plain i hi hnot
  · rw [hblock] at hk
    rw [(hloc i).1, (hloc b).1]
    exact h.consecutive b hb k i hk
  · show (mgr.mallocMem.map _ ++ mgr.freeIovas).Perm iovas
    rw [List.map_congr_left fun b _ => congrArg MemoryLocation.iova (hloc b).1]
    exact h.iovas
  · rw [(hloc b).1, (hloc b).2.2]
    exact h.mapped b hb
  · show (List.range mgr.numPages).map _ = _
    rw [List.map_congr_left fun i _ => congrArg MemoryLocation.vaddr (hloc i).1]
    exact h.addrs

/-! ### Freeing a block -/

/-- A live block can be freed. -/
theorem Inv.free_eq (h : Inv cfg iovas mgr) {b : Nat} (hb : b ∈ mgr.mallocMem) :
    mgr.free cfg b = .ok (mgr.withoutBlock cfg b) := by
  have hsub : ∀ i ∈ mgr.block b, i ∈ mgr.owned := fun i hi => mem_owned.mpr (Or.inl ⟨b, hb, hi⟩)
  have hnodup : (mgr.mallocMem.flatMap mgr.block).Nodup := (List.nodup_append.mp h.nodup).1
  refine HugePagesMemoryMgr.free_eq hb ((List.nodup_flatMap.mp hnodup).1 b hb) (fun i hi => ?_)
    (h.mapped b hb).1
  exact (h.inUse i (h.lt i (hsub i hi))).mpr (hsub i hi)

theorem withoutBlock_page_self (b : Nat) : (mgr.withoutBlock cfg b).page b
    = { (mgr.page b).release cfg.pageSize with linkedMem := [], iovaMapped := false } := if_pos rfl

theorem withoutBlock_page_linked {b i : Nat} (hne : i ≠ b) (hi : i ∈ (mgr.page b).linkedMem) :
    (mgr.withoutBlock cfg b).page i = (mgr.page i).release cfg.pageSize :=
  (if_neg hne).trans (if_pos hi)

theorem withoutBlock_page_other {b i : Nat} (hi : i ∉ mgr.block b) :
    (mgr.withoutBlock cfg b).page i = mgr.page i := by
  rw [block, List.mem_cons, not_or] at hi
  exact (if_neg hi.1).trans (if_neg hi.2)

theorem withoutBlock_vaddr (b i : Nat) :
    ((mgr.withoutBlock cfg b).page i).vaddr = (mgr.page i).vaddr := by
  by_cases hb : i = b
  · rw [hb, withoutBlock_page_self]
    rfl
  · by_cases hi : i ∈ (mgr.page b).linkedMem
    · rw [withoutBlock_page_linked hb hi]
      rfl
    · rw [withoutBlock_page_other fun h => (List.mem_cons.mp h).elim hb hi]

/-- **A freed block** gives back its pages and its IOVA. -/
theorem Inv.withoutBlock (h : Inv cfg iovas mgr) {b : Nat} (hb : b ∈ mgr.mallocMem) :
    Inv cfg iovas (mgr.withoutBlock cfg b) := by
  have hsplit : mgr.mallocMem.Perm (b :: mgr.mallocMem.erase b) := List.perm_cons_erase hb
  have hperm : mgr.owned.Perm
      (mgr.block b ++ ((mgr.mallocMem.erase b).flatMap mgr.block ++ mgr.handedOut)) := by
    rw [owned, ← List.append_assoc, ← List.flatMap_cons]
    exact (hsplit.flatMap_right _).append_right _
  -- what is owned is the block and the rest, and they are apart
  have hnodup := List.nodup_append.mp (hperm.nodup_iff.mp h.nodup)
  generalize hrest : (mgr.mallocMem.erase b).flatMap mgr.block ++ mgr.handedOut = rest at hperm hnodup
  have howner : ∀ i, i ∈ mgr.owned ↔ i ∈ mgr.block b ∨ i ∈ rest := by
    intro i
    rw [hperm.mem_iff, List.mem_append]
  have happart : ∀ i ∈ rest, i ∉ mgr.block b := fun i hi hin => hnodup.2.2 i hin i hi rfl
  have hmem : ∀ c ∈ mgr.mallocMem.erase b, c ∈ rest := by
    intro c hc
    rw [← hrest]
    exact List.mem_append_left _ (List.mem_flatMap.mpr ⟨c, hc, List.mem_cons_self⟩)
  have hold : ∀ {i}, i ∈ rest → (mgr.withoutBlock cfg b).page i = mgr.page i :=
    fun hi => withoutBlock_page_other (happart _ hi)
  have hblock : ∀ c ∈ mgr.mallocMem.erase b, (mgr.withoutBlock cfg b).block c = mgr.block c := by
    intro c hc
    rw [block, block, hold (hmem c hc)]
  have howned : (mgr.withoutBlock cfg b).owned = rest := by
    rw [owned, ← hrest]
    show (mgr.mallocMem.erase b).flatMap _ ++ mgr.handedOut = _
    rw [List.flatMap_congr hblock]
  have hsub : ∀ c ∈ mgr.mallocMem.erase b, c ∈ mgr.mallocMem := fun c hc => List.mem_of_mem_erase hc
  refine ⟨fun i hi => ?_, howned ▸ hnodup.2.1, fun i hi => ?_, fun i hi hnot => ?_,
    fun c hc k i hk => ?_, ?_, fun c hc => ?_, ?_⟩
  · rw [howned] at hi
    exact h.lt i ((howner i).mpr (Or.inr hi))
  · rw [howned]
    by_cases hin : i ∈ mgr.block b
    · refine iff_of_false ?_ fun hr => happart i hr hin
      by_cases hib : i = b
      · -- a page of the block is free now
        rw [hib, withoutBlock_page_self]
        exact Bool.false_ne_true
      · rw [withoutBlock_page_linked hib ((List.mem_cons.mp hin).resolve_left hib)]
        exact Bool.false_ne_true
    · rw [withoutBlock_page_other hin, h.inUse i hi, howner]
      exact ⟨fun ho => ho.resolve_left hin, Or.inr⟩
  · by_cases hib : i = b
    · rw [hib, withoutBlock_page_self]
      exact ⟨rfl, rfl⟩
    · have hplain := h.plain i hi fun hm => hnot ((List.mem_erase_of_ne hib).mpr hm)
      by_cases hin : i ∈ (mgr.page b).linkedMem
      · rw [withoutBlock_page_linked hib hin]
        exact ⟨rfl, hplain.2⟩
      · rw [withoutBlock_page_other fun hm => (List.mem_cons.mp hm).elim hib hin]
        exact hplain
  · rw [hblock c hc] at hk
    rw [withoutBlock_vaddr, withoutBlock_vaddr]
    exact h.consecutive c (hsub c hc) k i hk
  · -- its IOVA moves from the blocks to the end of the free ones
    show ((mgr.mallocMem.erase b).map _ ++ (mgr.freeIovas ++ [(mgr.page b).iova])).Perm iovas
    rw [List.map_congr_left fun c hc => congrArg (fun p => p.iova) (hold (hmem c hc))]
    refine List.Perm.trans ?_ h.iovas
    rw [← List.append_assoc]
    refine List.perm_append_comm.trans ?_
    rw [List.singleton_append, ← List.cons_append]
    exact ((hsplit.map fun c => (mgr.page c).iova).symm).append_right _
  · rw [hold (hmem c hc)]
    exact h.mapped c (hsub c hc)
  · show (List.range mgr.numPages).map _ = _
    rw [List.map_congr_left fun i _ => @withoutBlock_vaddr cfg mgr b i]
    exact h.addrs

/-! ## Runs -/

theorem new_ok {mem : Mem} {hp : Nat → Nat} (h : new cfg mem hp = .ok mgr) :
    ∃ iovas, HugePagesIovaMgr.reset cfg.iovaRanges = .ok iovas
      ∧ mgr = { (empty mem).withHugepage cfg (hp 0) with freeIovas := iovas } := by
  unfold new at h
  have hone : mallocHps cfg hp 1 (empty mem) = (empty mem).mallocHp cfg (hp 0) := rfl
  rw [hone] at h
  cases hgrown : (empty mem).mallocHp cfg (hp 0) with
  | error e =>
      rw [hgrown] at h
      exact absurd h (by simp [bind, Except.bind])
  | ok grown =>
      rw [hgrown] at h
      dsimp only [bind, Except.bind] at h
      cases hreset : HugePagesIovaMgr.reset cfg.iovaRanges with
      | error e =>
          rw [hreset] at h
          exact absurd h (by simp)
      | ok iovas =>
          rw [hreset] at h
          exact ⟨iovas, rfl, by rw [← mallocHp_ok hgrown]; exact (Except.ok.inj h).symm⟩

theorem inv_empty (mem : Mem) : Inv cfg [] (empty mem) where
  lt i hi := absurd hi (by simp [owned, empty])
  nodup := List.nodup_nil
  inUse i hi := absurd hi (Nat.not_lt_zero i)
  plain i hi := absurd hi (Nat.not_lt_zero i)
  consecutive b hb := absurd hb (by simp [empty])
  iovas := List.Perm.refl _
  mapped b hb := absurd hb (by simp [empty])
  addrs := rfl

theorem inv_new (mem : Mem) (vaddr : Nat) (iovas : List Nat) :
    Inv cfg iovas { (empty mem).withHugepage cfg vaddr with freeIovas := iovas } := by
  have h := (@inv_empty cfg mem).withHugepage vaddr
  exact ⟨h.lt, h.nodup, h.inUse, h.plain, h.consecutive, List.Perm.refl _, h.mapped, h.addrs⟩

theorem Inv.malloc (h : Inv cfg iovas mgr) {size : Int} {direction : DMADirection} {hp : Nat → Nat}
    {b : Nat} (hok : mgr.malloc cfg size direction hp = .ok (b, mgr')) : Inv cfg iovas mgr' := by
  obtain ⟨grown, linked, iova, freeIovas, hgrown, hsub, _, hcont, hfree, rfl⟩ := malloc_ok hok
  have hinv := ensureFree_induct (fun _ vaddr hi => hi.withHugepage vaddr) h hgrown
  exact hinv.withBlock hsub hcont hfree rfl

theorem Inv.mallocPages (h : Inv cfg iovas mgr) {num : Nat} {hp : Nat → Nat} {pages : List Nat}
    (hok : mgr.mallocPages cfg num hp = .ok (pages, mgr')) : Inv cfg iovas mgr' := by
  obtain ⟨grown, hgrown, hsub, rfl⟩ := mallocPages_ok hok
  have hinv := ensureFree_induct (fun _ vaddr hi => hi.withHugepage vaddr) h hgrown
  exact hinv.withHanded hsub

/-- **One call keeps the invariant.** -/
theorem inv_call {a : Op} (h : Inv cfg iovas mgr) (hs : mgr.call cfg a = some mgr') :
    Inv cfg iovas mgr' := by
  cases a with
  | malloc size direction hp =>
      obtain ⟨⟨b, mgr''⟩, hok, rfl⟩ := Option.map_eq_some_iff.mp hs
      exact h.malloc (toOption_eq_some hok)
  | mallocPages num hp =>
      obtain ⟨⟨pages, mgr''⟩, hok, rfl⟩ := Option.map_eq_some_iff.mp hs
      exact h.mallocPages (toOption_eq_some hok)
  | free b =>
      obtain ⟨hb, hok⟩ := Option.ite_none_right_eq_some.mp hs
      rw [h.free_eq hb] at hok
      rw [← Option.some.inj hok]
      exact h.withoutBlock hb
  | write b offset value =>
      obtain ⟨_, hok⟩ := Option.ite_none_right_eq_some.mp hs
      rw [← Option.some.inj hok]
      exact ⟨h.lt, h.nodup, h.inUse, h.plain, h.consecutive, h.iovas, h.mapped, h.addrs⟩

theorem step_spec {a : Op} (h : mgr.step cfg a = some mgr') :
    mgr.call cfg a = some mgr' ∧ mgr'.allocatedMemory.Pairwise RegionsApart := by
  unfold step at h
  split at h
  · rename_i mgr'' hcall
    obtain ⟨hapart, he⟩ := Option.ite_none_right_eq_some.mp h
    rw [Option.some.inj he] at hcall hapart
    exact ⟨hcall, hapart⟩
  · exact absurd h (by simp)

theorem inv_reachable {ok : HugePagesMemoryMgr → Op → Prop} (h : (machine cfg).ReachableBy ok mgr) :
    (∃ iovas, HugePagesIovaMgr.reset cfg.iovaRanges = .ok iovas ∧ Inv cfg iovas mgr)
      ∧ mgr.allocatedMemory.Pairwise RegionsApart := by
  refine Machine.ReachableBy.invariant (I := fun mgr =>
    (∃ iovas, HugePagesIovaMgr.reset cfg.iovaRanges = .ok iovas ∧ Inv cfg iovas mgr)
      ∧ mgr.allocatedMemory.Pairwise RegionsApart) ?_ ?_ h
  · intro mgr hinit
    obtain ⟨mem, hp, hnew⟩ := hinit
    obtain ⟨iovas, hreset, rfl⟩ := new_ok hnew
    exact ⟨⟨iovas, hreset, inv_new mem (hp 0) iovas⟩, List.pairwise_singleton _ _⟩
  · intro mgr mgr' a _ hinv _ hs
    obtain ⟨⟨iovas, hreset, hinv⟩, _⟩ := hinv
    obtain ⟨hcall, hapart⟩ := step_spec hs
    exact ⟨⟨iovas, hreset, inv_call hinv hcall⟩, hapart⟩

/-! ## Addresses -/

/-- **No two pages share a byte**, the hugepages being fresh. -/
theorem Inv.pages_apart (h : Inv cfg iovas mgr) (hapart : mgr.allocatedMemory.Pairwise RegionsApart)
    {i j : Nat} (hi : i < mgr.numPages) (hj : j < mgr.numPages) (hne : i ≠ j) :
    (mgr.page i).vaddr + cfg.pageSize ≤ (mgr.page j).vaddr
      ∨ (mgr.page j).vaddr + cfg.pageSize ≤ (mgr.page i).vaddr := by
  have hsplit : ∀ r x, x ∈ splits cfg r → r.1 ≤ x ∧ x + cfg.pageSize ≤ r.1 + r.2 := by
    intro r x hx
    obtain ⟨k, hk, rfl⟩ := List.mem_map.mp hx
    have hend : (k + 1) * cfg.pageSize ≤ r.2 :=
      (Nat.mul_le_mul_right _ (List.mem_range.mp hk)).trans (Nat.div_mul_le_self _ _)
    rw [Nat.succ_mul] at hend
    omega
  -- within a hugepage the pages follow each other, and two hugepages are apart
  have hall : ((List.range mgr.numPages).map fun i => (mgr.page i).vaddr).Pairwise
      fun x y => x + cfg.pageSize ≤ y ∨ y + cfg.pageSize ≤ x := by
    rw [h.addrs, List.pairwise_flatMap]
    constructor
    · intro r _
      rw [splits, List.pairwise_map]
      refine List.pairwise_lt_range.imp fun {k l} hkl => ?_
      have hle : (k + 1) * cfg.pageSize ≤ l * cfg.pageSize := Nat.mul_le_mul_right _ hkl
      rw [Nat.succ_mul] at hle
      omega
    · refine hapart.imp fun {r s} hrs x hx y hy => ?_
      have hx := hsplit r x hx
      have hy := hsplit s y hy
      rcases hrs with hrs | hrs
      · omega
      · omega
  rw [List.pairwise_map, List.pairwise_iff_getElem] at hall
  rcases Nat.lt_or_gt_of_ne hne with hlt | hlt
  · have hij := hall i j (by rw [List.length_range]; exact hi) (by rw [List.length_range]; exact hj) hlt
    rw [List.getElem_range, List.getElem_range] at hij
    exact hij
  · have hij := hall j i (by rw [List.length_range]; exact hj) (by rw [List.length_range]; exact hi) hlt
    rw [List.getElem_range, List.getElem_range] at hij
    exact hij.symm

end HugePagesMemoryMgr

namespace HugePagesIovaMgr

/-- The ranges of the IOMMU: none empty, no two sharing an address. -/
structure RangesApart (ranges : List (Nat × Nat)) : Prop where
  lt : ∀ r ∈ ranges, r.1 < r.2
  apart : ranges.Pairwise fun r s => r.2 ≤ s.1 ∨ s.2 ≤ r.1

/-- One round: the next address in the same range, or the first of the next range. -/
theorem resetLoop_cons {n next stop : Nat} {rest : List (Nat × Nat)} {iovas : List Nat}
    (h : resetLoop (n + 1) next stop rest = .ok iovas) :
    ∃ later, iovas = next :: later
      ∧ (resetLoop n (next + increment) stop rest = .ok later
          ∧ next + increment + increment ≤ stop
        ∨ ∃ r rest', rest = r :: rest' ∧ resetLoop n r.1 r.2 rest' = .ok later
          ∧ stop < next + increment + increment) := by
  unfold resetLoop at h
  split at h
  · -- no room for another window behind the next one: the following range, if there is one
    rename_i hgt
    cases rest with
    | nil => exact absurd h (by simp)
    | cons r rest =>
        obtain ⟨start, stop'⟩ := r
        dsimp only at h
        cases hl : resetLoop n start stop' rest with
        | error e =>
            rw [hl] at h
            exact absurd h (by simp [Functor.map, Except.map])
        | ok later =>
            rw [hl] at h
            exact ⟨later, (Except.ok.inj h).symm, Or.inr ⟨(start, stop'), rest, rfl, hl, hgt⟩⟩
  · rename_i hle
    cases hl : resetLoop n (next + increment) stop rest with
    | error e =>
        rw [hl] at h
        exact absurd h (by simp [Functor.map, Except.map])
    | ok later =>
        rw [hl] at h
        exact ⟨later, (Except.ok.inj h).symm, Or.inl ⟨rfl, Nat.le_of_not_lt hle⟩⟩

theorem length_resetLoop :
    ∀ {n next stop : Nat} {rest : List (Nat × Nat)} {iovas : List Nat},
      resetLoop n next stop rest = .ok iovas → iovas.length = n := by
  intro n
  induction n with
  | zero =>
      intro next stop rest iovas h
      rw [← Except.ok.inj h]
      rfl
  | succ n ih =>
      intro next stop rest iovas h
      obtain ⟨later, rfl, ⟨hl, _⟩ | ⟨r, rest', _, hl, _⟩⟩ := resetLoop_cons h
      · rw [List.length_cons, ih hl]
      · rw [List.length_cons, ih hl]

/-- Every IOVA is in one of the ranges still to come. -/
theorem mem_resetLoop :
    ∀ {n next stop : Nat} {rest : List (Nat × Nat)} {iovas : List Nat},
      (∀ r ∈ (next, stop) :: rest, r.1 < r.2) → resetLoop n next stop rest = .ok iovas →
      ∀ x ∈ iovas, ∃ r ∈ (next, stop) :: rest, r.1 ≤ x ∧ x < r.2 := by
  intro n
  induction n with
  | zero =>
      intro next stop rest iovas _ h x hx
      rw [← Except.ok.inj h] at hx
      exact absurd hx (by simp)
  | succ n ih =>
      intro next stop rest iovas hlt h x hx
      obtain ⟨later, rfl, hlater⟩ := resetLoop_cons h
      rcases List.mem_cons.mp hx with rfl | hx
      · exact ⟨(x, stop), List.mem_cons_self, Nat.le_refl x, hlt _ List.mem_cons_self⟩
      · rcases hlater with ⟨hl, hle⟩ | ⟨r, rest', rfl, hl, _⟩
        · -- the window was found to lie before the end, so the next address does
          have hlt' : next + increment < stop := by
            have hpos : 0 < increment := by decide
            omega
          obtain ⟨r, hr, hin⟩ := ih (fun r hr => (List.mem_cons.mp hr).elim (fun he => he ▸ hlt')
            fun hr => hlt r (List.mem_cons_of_mem _ hr)) hl x hx
          rcases List.mem_cons.mp hr with rfl | hr
          · exact ⟨(next, stop), List.mem_cons_self, (Nat.le_add_right _ _).trans hin.1, hin.2⟩
          · exact ⟨r, List.mem_cons_of_mem _ hr, hin⟩
        · obtain ⟨r', hr', hin⟩ := ih (fun r' hr' => hlt r' (List.mem_cons_of_mem _ hr')) hl x hx
          exact ⟨r', List.mem_cons_of_mem _ hr', hin⟩

theorem nodup_resetLoop :
    ∀ {n next stop : Nat} {rest : List (Nat × Nat)} {iovas : List Nat},
      RangesApart ((next, stop) :: rest) → resetLoop n next stop rest = .ok iovas → iovas.Nodup := by
  intro n
  induction n with
  | zero =>
      intro next stop rest iovas _ h
      rw [← Except.ok.inj h]
      exact List.nodup_nil
  | succ n ih =>
      intro next stop rest iovas hr h
      -- the first address is below all others of its range, and apart from the other ranges
      obtain ⟨later, rfl, hlater⟩ := resetLoop_cons h
      obtain ⟨hhead, htail⟩ := List.pairwise_cons.mp hr.apart
      rw [List.nodup_cons]
      rcases hlater with ⟨hl, hle⟩ | ⟨r, rest', rfl, hl, _⟩
      · -- in the same range: the rest of it lies above
        have hrest : RangesApart ((next + increment, stop) :: rest) := by
          refine ⟨fun r hr' => ?_, List.pairwise_cons.mpr ⟨fun r hr' => ?_, htail⟩⟩
          · rcases List.mem_cons.mp hr' with rfl | hr'
            · have hpos : 0 < increment := by decide
              show next + increment < stop
              omega
            · exact hr.lt r (List.mem_cons_of_mem _ hr')
          · exact (hhead r hr').imp_right fun hle => hle.trans (Nat.le_add_right _ _)
        refine ⟨fun hin => ?_, ih hrest hl⟩
        have hpos : 0 < increment := by decide
        obtain ⟨r, hr', hle, hlt'⟩ := mem_resetLoop hrest.lt hl next hin
        rcases List.mem_cons.mp hr' with rfl | hr'
        · exact absurd hle (by show ¬ next + increment ≤ next; omega)
        · rcases hhead r hr' with hap | hap
          · exact absurd (hr.lt _ List.mem_cons_self) (by show ¬ next < stop; omega)
          · exact absurd hlt' (Nat.not_lt.mpr hap)
      · -- in the next range: all of it is elsewhere
        have hrest : RangesApart (r :: rest') := ⟨fun r' hr' => hr.lt r' (List.mem_cons_of_mem _ hr'), htail⟩
        refine ⟨fun hin => ?_, ih hrest hl⟩
        obtain ⟨r', hr', hle, hlt'⟩ := mem_resetLoop hrest.lt hl next hin
        rcases hhead r' hr' with hap | hap
        · exact absurd (hr.lt _ List.mem_cons_self) (by show ¬ next < stop; omega)
        · exact absurd hlt' (Nat.not_lt.mpr hap)

/-- **The IOVAs** are a thousand, and different if the ranges are apart. -/
theorem reset_spec {ranges : List (Nat × Nat)} {iovas : List Nat} (h : reset ranges = .ok iovas) :
    iovas.length = maxIovas ∧ (RangesApart ranges → iovas.Nodup) := by
  cases ranges with
  | nil => exact absurd h (by simp [reset])
  | cons r rest =>
      obtain ⟨start, stop⟩ := r
      unfold reset at h
      dsimp only at h
      split at h
      · -- a range that starts at 0 is entered at 0x1000
        rename_i h0
        cases hle : decide (0x1000 + increment ≤ stop) with
        | false =>
            rw [hle] at h
            exact absurd h (by simp [bind, Except.bind])
        | true =>
            rw [hle] at h
            have hstop : 0x1000 + increment ≤ stop := of_decide_eq_true hle
            have hpos : 0 < increment := by decide
            refine ⟨length_resetLoop h, fun hr => nodup_resetLoop ?_ h⟩
            obtain ⟨hhead, htail⟩ := List.pairwise_cons.mp hr.apart
            refine ⟨fun r hr' => ?_, List.pairwise_cons.mpr ⟨fun r hr' => ?_, htail⟩⟩
            · rcases List.mem_cons.mp hr' with rfl | hr'
              · show 0x1000 < stop
                omega
              · exact hr.lt r (List.mem_cons_of_mem _ hr')
            · have hlt := hr.lt r (List.mem_cons_of_mem _ hr')
              rcases hhead r hr' with hap | hap
              · exact Or.inl hap
              · exact absurd hlt (by show ¬ r.1 < r.2; dsimp only at hap; omega)
      · exact ⟨length_resetLoop h, fun hr => nodup_resetLoop hr h⟩

end HugePagesIovaMgr

namespace HugePagesMemoryMgr

variable {cfg : HugePagesConfig} {mgr : HugePagesMemoryMgr} {iovas : List Nat}

/-! ## Ownership -/

/-- The contract: who owns a page, what blocks and free pages look like, and where the IOVAs are. -/
structure Ownership (cfg : HugePagesConfig) (mgr : HugePagesMemoryMgr) : Prop where
  inUse : ∀ i, i < mgr.numPages → ((mgr.page i).inUse = true
    ↔ (∃! b, b ∈ mgr.mallocMem ∧ i ∈ mgr.block b) ∨ i ∈ mgr.handedOut)
  oneOwner : mgr.owned.Nodup
  apart : ∀ i j, i < mgr.numPages → j < mgr.numPages → i ≠ j →
    (mgr.page i).vaddr + cfg.pageSize ≤ (mgr.page j).vaddr
      ∨ (mgr.page j).vaddr + cfg.pageSize ≤ (mgr.page i).vaddr
  consecutive : ∀ b ∈ mgr.mallocMem, ∀ k i, (mgr.block b)[k]? = some i →
    i < mgr.numPages ∧ (mgr.page i).vaddr = (mgr.page b).vaddr + k * cfg.pageSize
  free : ∀ i ∈ mgr.freePages, (mgr.page i).size = cfg.pageSize ∧ (mgr.page i).linkedMem = []
  iovas : ∃ iovas, HugePagesIovaMgr.reset cfg.iovaRanges = .ok iovas
    ∧ iovas.length = HugePagesIovaMgr.maxIovas
    ∧ (mgr.mallocMem.map (fun b => (mgr.page b).iova) ++ mgr.freeIovas).Perm iovas
  distinct : HugePagesIovaMgr.RangesApart cfg.iovaRanges →
    (mgr.mallocMem.map fun b => (mgr.page b).iova).Nodup

/-- A page has one block at most. -/
theorem Inv.block_unique (h : Inv cfg iovas mgr) {i b c : Nat} (hb : b ∈ mgr.mallocMem)
    (hc : c ∈ mgr.mallocMem) (hib : i ∈ mgr.block b) (hic : i ∈ mgr.block c) : b = c := by
  have hdisj := (List.nodup_flatMap.mp (List.nodup_append.mp h.nodup).1).2
  have hsymm : Std.Symm (Function.onFun List.Disjoint mgr.block) := ⟨fun _ _ h => h.symm⟩
  by_contra hne
  exact List.disjoint_left.mp (hdisj.forall hb hc hne) hib hic

theorem Inv.ownership (h : Inv cfg iovas mgr)
    (hreset : HugePagesIovaMgr.reset cfg.iovaRanges = .ok iovas)
    (hapart : mgr.allocatedMemory.Pairwise RegionsApart) : Ownership cfg mgr where
  inUse i hi := by
    rw [h.inUse i hi, mem_owned]
    refine or_congr_left ⟨fun hb => ?_, fun hb => ?_⟩
    · obtain ⟨b, hb, hib⟩ := hb
      exact ⟨b, ⟨hb, hib⟩, fun c hc => h.block_unique hc.1 hb hc.2 hib⟩
    · obtain ⟨b, hb, _⟩ := hb
      exact ⟨b, hb⟩
  oneOwner := h.nodup
  apart i j hi hj hne := h.pages_apart hapart hi hj hne
  consecutive b hb k i hk :=
    ⟨h.lt i (mem_owned.mpr (Or.inl ⟨b, hb, List.mem_of_getElem? hk⟩)), h.consecutive b hb k i hk⟩
  free i hi := by
    obtain ⟨hlt, hnot⟩ := h.not_mem_owned hi
    exact h.plain i hlt fun hm => hnot (mem_owned_of_mallocMem hm)
  iovas := ⟨iovas, hreset, (HugePagesIovaMgr.reset_spec hreset).1, h.iovas⟩
  distinct hr := by
    have hnodup := h.iovas.nodup_iff.mpr ((HugePagesIovaMgr.reset_spec hreset).2 hr)
    exact (List.nodup_append.mp hnodup).1

/--
**Page ownership.** In every state that calls of the manager reach, a page is in use
exactly if it is part of one block or was handed out, blocks are consecutive, free pages
are as new, and the IOVAs of the live blocks and the free ones are those of the start.

A block is named by its first page, which the manager rewrites in place. The invariant says
for each page to which block it belongs, and every call moves whole blocks.
-/
theorem ownership_of_reachable (h : (machine cfg).Reachable mgr) : Ownership cfg mgr := by
  obtain ⟨⟨iovas, hreset, hinv⟩, hapart⟩ := inv_reachable h
  exact hinv.ownership hreset hapart

/-- Replay calls from the constructor on; the memory is zero at first. -/
def runNew (cfg : HugePagesConfig) (hp : Nat → Nat) (calls : List Op) : Option HugePagesMemoryMgr :=
  (new cfg (fun _ => 0) hp).toOption.bind fun mgr => (machine cfg).run mgr calls

theorem reachable_runNew {hp : Nat → Nat} {calls : List Op} (h : runNew cfg hp calls = some mgr) :
    (machine cfg).Reachable mgr := by
  obtain ⟨start, hstart, hrun⟩ := Option.bind_eq_some_iff.mp h
  have hinit : (machine cfg).init start := ⟨_, hp, toOption_eq_some hstart⟩
  exact (Machine.Reachable.start hinit).run calls hrun

/-- Pages of 4 KiB in hugepages of 2 MiB. -/
def smallPages : HugePagesConfig where
  pageSize := 4096
  scPageSize := 4096
  hugepagesSize := 0x200000
  iovaRanges := [(0, 0x10000000000)]
  pageSize_pos := by decide
  hugepagesSize_pos := by decide

/-- Two blocks, two pages handed out, and the first block freed again. -/
def fewCalls : List Op :=
  [.malloc 4096 .hostToDevice fun _ => 0, .malloc 10000 .deviceToHost fun _ => 0,
    .mallocPages 2 fun _ => 0, .free 0]

theorem ownership_of_reachable_fewCalls :
    ∃ mgr, runNew smallPages (fun _ => 0x200000) fewCalls = some mgr
      ∧ mgr.owned = [1, 2, 3, 4] ∧ Ownership smallPages mgr := by
  have howned : (runNew smallPages (fun _ => 0x200000) fewCalls).map owned = some [1, 2, 3, 4] := by
    decide +kernel
  obtain ⟨mgr, hrun, hmgr⟩ := Option.map_eq_some_iff.mp howned
  exact ⟨mgr, hrun, hmgr, ownership_of_reachable (reachable_runNew hrun)⟩

end HugePagesMemoryMgr

end LoneNvme
