import LoneNvme.PageOwnership

/-!
# What freeing undoes

`free` resets the size of a block before it unmaps and clears it, so both are about one
page. It undoes `malloc` exactly if the block is one page long. If all blocks are, then
in any run free pages stay zero, every new block is zero, and the IOMMU maps exactly the
live blocks.

Stated for one call this is an equation between two states. For runs it is the invariant
`CleanInv`, which adds three things to the ownership of pages: free pages are zero, live blocks
are one page long, and what is mapped is what is live.
-/

namespace LoneNvme

open Lib

namespace HugePagesMemoryMgr

variable {cfg : HugePagesConfig} {mgr mgr' : HugePagesMemoryMgr} {iovas : List Nat}

/-- Freeing `b` unmaps what was mapped for it, and leaves its bytes zero. -/
def FreeUndoes (cfg : HugePagesConfig) (mgr : HugePagesMemoryMgr) (b : Nat) : Prop :=
  ∃ mgr' m, mgr.free cfg b = .ok mgr' ∧ mgr.passed b = some m
    ∧ mgr'.unmapped = (m.iova, m.size) :: mgr.unmapped
    ∧ ∀ x, m.vaddr ≤ x → x < m.vaddr + m.size → mgr'.mem x = 0

/-- **When `free` undoes `malloc`.** -/
theorem Inv.freeUndoes_iff (h : Inv cfg iovas mgr) {b : Nat} (hb : b ∈ mgr.mallocMem) :
    FreeUndoes cfg mgr b ↔ ∀ m, mgr.passed b = some m → m.size = cfg.pageSize := by
  obtain ⟨_, direction, hpassed⟩ := h.mapped b hb
  constructor
  · rintro ⟨mgr', m, hok, hm, hunmapped, _⟩ m' hm'
    rw [hm] at hm'
    rw [h.free_eq hb] at hok
    rw [← Except.ok.inj hok] at hunmapped
    have hpair := (List.cons.inj hunmapped).1
    rw [← Option.some.inj hm']
    exact (congrArg Prod.snd hpair).symm
  · intro hsize
    have hs := hsize _ hpassed
    refine ⟨_, _, h.free_eq hb, hpassed, ?_, fun x hle hlt => ?_⟩
    · rw [hs]
      rfl
    · rw [hs] at hlt
      exact Mem.fill_inside _ _ hle hlt

/-- Blocks of one page: the size asked for, or that of a system page, is the page size. -/
def PageSized (cfg : HugePagesConfig) (_ : HugePagesMemoryMgr) : Op → Prop
  | .malloc size _ _ => blockSize cfg size = cfg.pageSize
  | .mallocPages _ _ => True
  | .free _ => True
  | .write _ _ _ => True

instance (cfg : HugePagesConfig) (mgr : HugePagesMemoryMgr) (a : Op) : Decidable (PageSized cfg mgr a) :=
  match a with
  | .malloc size _ _ => inferInstanceAs (Decidable (blockSize cfg size = cfg.pageSize))
  | .mallocPages _ _ => inferInstanceAs (Decidable True)
  | .free _ => inferInstanceAs (Decidable True)
  | .write _ _ _ => inferInstanceAs (Decidable True)

/-- The contract: every block can be undone, a new block is zero, and what is mapped is live. -/
structure Clean (cfg : HugePagesConfig) (mgr : HugePagesMemoryMgr) : Prop where
  undoes : ∀ b ∈ mgr.mallocMem, FreeUndoes cfg mgr b
  zeros : ∀ size direction hp b mgr', mgr.malloc cfg size direction hp = .ok (b, mgr') →
    PageSized cfg mgr (.malloc size direction hp) →
    ∀ offset, offset < (mgr'.page b).size → mgr'.mem ((mgr'.page b).vaddr + offset) = 0
  mappings : HugePagesIovaMgr.RangesApart cfg.iovaRanges →
    (mgr.iommu.map some).Perm (mgr.mallocMem.map mgr.passed)

/-! ## The invariant -/

/-- Pages that are not the first of a block are zero. -/
def Zeroed (cfg : HugePagesConfig) (mgr : HugePagesMemoryMgr) : Prop :=
  ∀ i, i < mgr.numPages → i ∉ mgr.mallocMem → ∀ x, (mgr.page i).vaddr ≤ x →
    x < (mgr.page i).vaddr + cfg.pageSize → mgr.mem x = 0

theorem fill_zero {m : Mem} {a n x : Nat} (h : m x = 0) : m.fill a n 0 x = 0 := by
  unfold Mem.fill
  split
  · rfl
  · exact h

theorem Zeroed.withHugepage (h : Zeroed cfg mgr) (vaddr : Nat) :
    Zeroed cfg (mgr.withHugepage cfg vaddr) := by
  intro i hi hnot x hle hlt
  by_cases hold : i < mgr.numPages
  · have hpage : (mgr.withHugepage cfg vaddr).page i = mgr.page i := if_pos hold
    rw [hpage] at hle hlt
    exact fill_zero (h i hold hnot x hle hlt)
  · have hpage : (mgr.withHugepage cfg vaddr).page i
        = { vaddr := vaddr + (i - mgr.numPages) * cfg.pageSize, iova := 0, size := cfg.pageSize } :=
      if_neg hold
    rw [hpage] at hle hlt
    -- the page lies inside the new hugepage
    have hlast : i - mgr.numPages + 1 ≤ cfg.hugepagesSize / cfg.pageSize := by
      have hlt : i < mgr.numPages + cfg.hugepagesSize / cfg.pageSize := hi
      omega
    have hend : (i - mgr.numPages + 1) * cfg.pageSize ≤ cfg.hugepagesSize :=
      (Nat.mul_le_mul_right _ hlast).trans (Nat.div_mul_le_self _ _)
    rw [Nat.succ_mul] at hend
    dsimp only at hle hlt
    exact Mem.fill_inside _ _ (by omega) (by omega)

theorem Zeroed.withBlock (h : Zeroed cfg mgr) {b : Nat} {linked : List Nat} {m : Mapping}
    {freeIovas : List Nat} : Zeroed cfg (mgr.withBlock b linked m freeIovas) := by
  intro i hi hnot x hle hlt
  rw [withBlock_vaddr] at hle hlt
  exact h i hi (fun hm => hnot (List.mem_append_left _ hm)) x hle hlt

theorem Zeroed.withHanded (h : Zeroed cfg mgr) {pages : List Nat} :
    Zeroed cfg (mgr.withHanded pages) := by
  intro i hi hnot x hle hlt
  have hvaddr : ((mgr.withHanded pages).page i).vaddr = (mgr.page i).vaddr := by
    show (if i ∈ pages then _ else _ : MemPage).vaddr = _
    split
    · rfl
    · rfl
  rw [hvaddr] at hle hlt
  exact h i hi hnot x hle hlt

theorem Zeroed.withoutBlock (h : Zeroed cfg mgr) {b : Nat} :
    Zeroed cfg (mgr.withoutBlock cfg b) := by
  intro i hi hnot x hle hlt
  rw [withoutBlock_vaddr] at hle hlt
  by_cases hib : i = b
  · rw [hib] at hle hlt
    exact Mem.fill_inside _ _ hle hlt
  · exact fill_zero (h i hi (fun hm => hnot ((List.mem_erase_of_ne hib).mpr hm)) x hle hlt)

/-- A client writes into the first page of a block, which is another page. -/
theorem Zeroed.write (h : Zeroed cfg mgr) (hinv : Inv cfg iovas mgr)
    (hapart : mgr.allocatedMemory.Pairwise RegionsApart) {b offset : Nat} {value : BitVec 8}
    (hb : b ∈ mgr.mallocMem) (hoffset : offset < cfg.pageSize) :
    Zeroed cfg { mgr with mem := mgr.mem.store ((mgr.page b).vaddr + offset) [value] } := by
  intro i hi hnot x hle hlt
  have hne : i ≠ b := fun he => hnot (he ▸ hb)
  have hpages := hinv.pages_apart hapart hi (hinv.lt_of_mallocMem hb) hne
  refine (Mem.store_outside _ ?_).trans (h i hi hnot x hle hlt)
  rw [List.length_singleton]
  dsimp only at hle hlt
  omega

/-- Blocks of one page, pages zero, and the live blocks mapped. -/
structure CleanInv (cfg : HugePagesConfig) (iovas : List Nat) (mgr : HugePagesMemoryMgr) : Prop where
  inv : Inv cfg iovas mgr
  zeroed : Zeroed cfg mgr
  sizes : ∀ b ∈ mgr.mallocMem, (mgr.page b).size = cfg.pageSize
  mappings : iovas.Nodup → (mgr.iommu.map some).Perm (mgr.mallocMem.map mgr.passed)

theorem CleanInv.withHugepage (h : CleanInv cfg iovas mgr) (vaddr : Nat) :
    CleanInv cfg iovas (mgr.withHugepage cfg vaddr) where
  inv := h.inv.withHugepage vaddr
  zeroed := h.zeroed.withHugepage vaddr
  sizes b hb := by
    have hpage : (mgr.withHugepage cfg vaddr).page b = mgr.page b := if_pos (h.inv.lt_of_mallocMem hb)
    rw [hpage]
    exact h.sizes b hb
  mappings := h.mappings

theorem CleanInv.withBlock (h : CleanInv cfg iovas mgr) {b : Nat} {linked : List Nat} {m : Mapping}
    {freeIovas : List Nat} (hfree : (b :: linked).Sublist mgr.freePages)
    (hcont : mgr.contiguous (b :: linked) = true) (hiova : mgr.freeIovas = m.iova :: freeIovas)
    (hvaddr : m.vaddr = (mgr.page b).vaddr) (hsize : m.size = cfg.pageSize) :
    CleanInv cfg iovas (mgr.withBlock b linked m freeIovas) where
  inv := h.inv.withBlock hfree hcont hiova hvaddr
  zeroed := h.zeroed.withBlock
  sizes c hc := by
    rcases List.mem_append.mp hc with hc | hc
    · have hother : c ∉ b :: linked := fun hin =>
        (h.inv.not_mem_owned (hfree.subset hin)).2 (mem_owned_of_mallocMem hc)
      rw [withBlock_page_other hother]
      exact h.sizes c hc
    · rw [List.mem_singleton.mp hc, withBlock_page_self]
      exact hsize
  mappings hnodup := by
    -- a block that is live owns its page, which is not free then
    have hnew : b ∉ mgr.mallocMem := fun hb =>
      (h.inv.not_mem_owned (hfree.subset List.mem_cons_self)).2 (mem_owned_of_mallocMem hb)
    have hsame : mgr.mallocMem.map (Function.update mgr.passed b (some m))
        = mgr.mallocMem.map mgr.passed :=
      List.map_congr_left fun c hc => Function.update_of_ne (ne_of_mem_of_not_mem hc hnew) _ _
    show ((mgr.iommu ++ [m]).map some).Perm
      ((mgr.mallocMem ++ [b]).map (Function.update mgr.passed b (some m)))
    rw [List.map_append, List.map_append, hsame, List.map_singleton, List.map_singleton,
      Function.update_self]
    exact (h.mappings hnodup).append_right _

/-- **Unmapping** takes the mapping of the block, and no other block has its IOVA. -/
theorem CleanInv.unmap_perm (h : CleanInv cfg iovas mgr) (hnodup : iovas.Nodup) {b : Nat}
    (hb : b ∈ mgr.mallocMem) :
    ((unmap mgr.iommu (mgr.page b).iova cfg.pageSize).map some).Perm
      ((mgr.mallocMem.erase b).map mgr.passed) := by
  obtain ⟨_, direction, hpassed⟩ := h.inv.mapped b hb
  have hperm := h.mappings hnodup
  have hlive : (mgr.mallocMem.map fun c => (mgr.page c).iova).Nodup :=
    (List.nodup_append.mp (h.inv.iovas.nodup_iff.mpr hnodup)).1
  have hin : mgr.passed b ∈ mgr.iommu.map some := hperm.mem_iff.mpr (List.mem_map_of_mem hb)
  rw [hpassed] at hin
  obtain ⟨m, hm, hmb⟩ := List.mem_map.mp hin
  obtain ⟨m', before, after, _, hm', hsplit, herase⟩ := List.exists_of_eraseP hm
    (p := fun m => decide (m.iova = (mgr.page b).iova ∧ m.size = cfg.pageSize)) (by
      rw [Option.some.inj hmb]
      exact decide_eq_true ⟨rfl, h.sizes b hb⟩)
  -- what is erased was mapped for a block with this IOVA, which is `b`
  have hself : some m' = mgr.passed b := by
    have hmem : some m' ∈ mgr.iommu.map some := by
      rw [hsplit]
      exact List.mem_map_of_mem (List.mem_append_right _ List.mem_cons_self)
    obtain ⟨c, hc, hcm⟩ := List.mem_map.mp (hperm.mem_iff.mp hmem)
    obtain ⟨_, _, hc'⟩ := h.inv.mapped c hc
    rw [hc', Option.some.injEq] at hcm
    have hiova : (mgr.page c).iova = (mgr.page b).iova := by
      rw [← (of_decide_eq_true hm').1, ← hcm]
    rw [← List.inj_on_of_nodup_map hlive hc hb hiova, hc', hcm]
  rw [hsplit] at hperm
  unfold unmap
  rw [herase]
  have hcons : (mgr.passed b :: (before ++ after).map some).Perm
      (mgr.passed b :: (mgr.mallocMem.erase b).map mgr.passed) := by
    refine List.Perm.trans ?_ (hperm.trans ((List.perm_cons_erase hb).map mgr.passed))
    rw [List.map_append, List.map_append, List.map_cons, hself]
    exact List.perm_middle.symm
  exact hcons.cons_inv

theorem CleanInv.withoutBlock (h : CleanInv cfg iovas mgr) {b : Nat} (hb : b ∈ mgr.mallocMem) :
    CleanInv cfg iovas (mgr.withoutBlock cfg b) where
  inv := h.inv.withoutBlock hb
  zeroed := h.zeroed.withoutBlock
  sizes c hc := by
    have hc := List.mem_of_mem_erase hc
    by_cases hcb : c = b
    · rw [hcb, withoutBlock_page_self]
      rfl
    · by_cases hin : c ∈ (mgr.page b).linkedMem
      · rw [withoutBlock_page_linked hcb hin]
        rfl
      · rw [withoutBlock_page_other fun hm => (List.mem_cons.mp hm).elim hcb hin]
        exact h.sizes c hc
  mappings hnodup := h.unmap_perm hnodup hb

/-- What an allocation of a page-sized block left. -/
theorem CleanInv.malloc (h : CleanInv cfg iovas mgr) {size : Int} {direction : DMADirection}
    {hp : Nat → Nat} {b : Nat} (hsize : blockSize cfg size = cfg.pageSize)
    (hok : mgr.malloc cfg size direction hp = .ok (b, mgr')) :
    CleanInv cfg iovas mgr'
      ∧ ∀ offset, offset < (mgr'.page b).size → mgr'.mem ((mgr'.page b).vaddr + offset) = 0 := by
  obtain ⟨grown, linked, iova, freeIovas, hgrown, hsub, _, hcont, hfree, rfl⟩ := malloc_ok hok
  have hclean := ensureFree_induct (fun _ vaddr hi => hi.withHugepage vaddr) h hgrown
  refine ⟨hclean.withBlock hsub hcont hfree rfl hsize, fun offset hlt => ?_⟩
  obtain ⟨hb, hnot⟩ := hclean.inv.not_mem_owned (hsub.subset List.mem_cons_self)
  rw [withBlock_page_self] at hlt ⊢
  dsimp only at hlt ⊢
  rw [hsize] at hlt
  exact hclean.zeroed b hb (fun hm => hnot (mem_owned_of_mallocMem hm)) _ (Nat.le_add_right _ _)
    (Nat.add_lt_add_left hlt _)

/-- **One call keeps the invariant**, if it asks for a page-sized block. -/
theorem cleanInv_call {a : Op} (h : CleanInv cfg iovas mgr)
    (hapart : mgr.allocatedMemory.Pairwise RegionsApart) (hok : PageSized cfg mgr a)
    (hs : mgr.call cfg a = some mgr') : CleanInv cfg iovas mgr' := by
  cases a with
  | malloc size direction hp =>
      obtain ⟨⟨b, mgr''⟩, hmalloc, rfl⟩ := Option.map_eq_some_iff.mp hs
      exact (h.malloc hok (toOption_eq_some hmalloc)).1
  | mallocPages num hp =>
      obtain ⟨⟨pages, mgr''⟩, hpages, rfl⟩ := Option.map_eq_some_iff.mp hs
      obtain ⟨grown, hgrown, hsub, rfl⟩ := mallocPages_ok (toOption_eq_some hpages)
      have hclean := ensureFree_induct (fun _ vaddr hi => hi.withHugepage vaddr) h hgrown
      refine ⟨hclean.inv.withHanded hsub, hclean.zeroed.withHanded, fun b hb => ?_, hclean.mappings⟩
      -- a page handed out was free, so no block owns it
      have hother : b ∉ pages := fun hin =>
        (hclean.inv.not_mem_owned (hsub.subset hin)).2 (mem_owned_of_mallocMem hb)
      have hpage : (grown.withHanded pages).page b = grown.page b := if_neg hother
      rw [hpage]
      exact hclean.sizes b hb
  | free b =>
      obtain ⟨hb, hfree⟩ := Option.ite_none_right_eq_some.mp hs
      rw [h.inv.free_eq hb] at hfree
      rw [← Option.some.inj hfree]
      exact h.withoutBlock hb
  | write b offset value =>
      have hinv := inv_call h.inv hs
      obtain ⟨⟨hb, hoffset⟩, hwrite⟩ := Option.ite_none_right_eq_some.mp hs
      rw [h.sizes b hb] at hoffset
      rw [← Option.some.inj hwrite] at hinv ⊢
      exact ⟨hinv, h.zeroed.write h.inv hapart hb hoffset, h.sizes, h.mappings⟩

theorem cleanInv_reachable (h : (machine cfg).ReachableBy (PageSized cfg) mgr) :
    ∃ iovas, HugePagesIovaMgr.reset cfg.iovaRanges = .ok iovas ∧ CleanInv cfg iovas mgr := by
  refine Machine.ReachableBy.invariant (I := fun mgr =>
    ∃ iovas, HugePagesIovaMgr.reset cfg.iovaRanges = .ok iovas ∧ CleanInv cfg iovas mgr) ?_ ?_ h
  · intro mgr hinit
    obtain ⟨mem, hp, hnew⟩ := hinit
    obtain ⟨iovas, hreset, rfl⟩ := new_ok hnew
    have hzeroed : Zeroed cfg (empty mem) := fun i hi => absurd hi (Nat.not_lt_zero i)
    exact ⟨iovas, hreset, inv_new mem (hp 0) iovas, hzeroed.withHugepage (hp 0),
      fun b hb => absurd hb (by simp [HugePagesMemoryMgr.withHugepage, empty]),
      fun _ => List.Perm.refl _⟩
  · intro mgr mgr' a hr hclean hok hs
    obtain ⟨iovas, hreset, hclean⟩ := hclean
    exact ⟨iovas, hreset, cleanInv_call hclean (inv_reachable hr).2 hok (step_spec hs).1⟩

/--
**Freeing and allocating.** In every state that is reached, freeing a live block undoes
its allocation exactly if it was mapped with the page size. In every run that asks for
page-sized blocks only, all blocks can be undone, every new block is zero, and the IOMMU
maps exactly the live blocks.

`free` takes the size back to a page before it unmaps and clears, so it works on a page
whatever was mapped.
-/
theorem clean_of_pageSized (cfg : HugePagesConfig) :
    (∀ mgr, (machine cfg).Reachable mgr → ∀ b ∈ mgr.mallocMem,
      (FreeUndoes cfg mgr b ↔ ∀ m, mgr.passed b = some m → m.size = cfg.pageSize))
    ∧ ∀ mgr, (machine cfg).ReachableBy (PageSized cfg) mgr → Clean cfg mgr := by
  constructor
  · intro mgr hr b hb
    obtain ⟨⟨iovas, _, hinv⟩, _⟩ := inv_reachable hr
    exact hinv.freeUndoes_iff hb
  · intro mgr hr
    obtain ⟨iovas, hreset, hclean⟩ := cleanInv_reachable hr
    refine ⟨fun b hb => (hclean.inv.freeUndoes_iff hb).mpr fun m hm => ?_,
      fun size direction hp b mgr' hok hsize => (hclean.malloc hsize hok).2,
      fun hranges => hclean.mappings ((HugePagesIovaMgr.reset_spec hreset).2 hranges)⟩
    obtain ⟨_, direction, hpassed⟩ := hclean.inv.mapped b hb
    rw [hpassed] at hm
    rw [← Option.some.inj hm]
    exact hclean.sizes b hb

/-- A block of a page, written by its client. -/
theorem clean_of_pageSized_write :
    ∃ mgr, ((new smallPages (fun _ => 0) fun _ => 0x200000).toOption.bind fun mgr =>
        (machine smallPages).runBy (PageSized smallPages) mgr
          [.malloc 4096 .hostToDevice fun _ => 0, .write 0 7 1]) = some mgr
      ∧ FreeUndoes smallPages mgr 0 ∧ Clean smallPages mgr := by
  have hsome : ((new smallPages (fun _ => 0) fun _ => 0x200000).toOption.bind fun mgr =>
      (machine smallPages).runBy (PageSized smallPages) mgr
        [.malloc 4096 .hostToDevice fun _ => 0, .write 0 7 1]).map
      (fun mgr => (mgr.mallocMem, (mgr.passed 0).map Mapping.size)) = some ([0], some 4096) := by
    decide +kernel
  obtain ⟨mgr, hrun, hmgr⟩ := Option.map_eq_some_iff.mp hsome
  injection hmgr with hmem hpassed
  obtain ⟨start, hstart, hruns⟩ := Option.bind_eq_some_iff.mp hrun
  have hinit : (machine smallPages).init start := ⟨_, _, toOption_eq_some hstart⟩
  have hr : (machine smallPages).ReachableBy (PageSized smallPages) mgr :=
    (Machine.ReachableBy.init hinit).run _ hruns
  have hb : 0 ∈ mgr.mallocMem := by rw [hmem]; exact List.mem_cons_self
  refine ⟨mgr, hrun, ((clean_of_pageSized smallPages).1 mgr hr.reachable 0 hb).mpr fun m hm => ?_,
    (clean_of_pageSized smallPages).2 mgr hr⟩
  rw [hm] at hpassed
  exact Option.some.inj hpassed

/-- A block of two pages: unmapping is told of one. -/
theorem not_freeUndoes_two_pages :
    ¬ ∀ (cfg : HugePagesConfig) (mgr : HugePagesMemoryMgr), (machine cfg).Reachable mgr →
      ∀ b ∈ mgr.mallocMem, FreeUndoes cfg mgr b := by
  intro hall
  have hsome : (runNew smallPages (fun _ => 0x200000) [.malloc 8192 .hostToDevice fun _ => 0]).map
      (fun mgr => (mgr.mallocMem, (mgr.passed 0).map Mapping.size)) = some ([0], some 8192) := by
    decide +kernel
  obtain ⟨mgr, hrun, hmgr⟩ := Option.map_eq_some_iff.mp hsome
  injection hmgr with hmem hpassed
  obtain ⟨m, hm, hsize⟩ := Option.map_eq_some_iff.mp hpassed
  obtain ⟨⟨_, _, hinv⟩, _⟩ := inv_reachable (reachable_runNew hrun)
  have hb : 0 ∈ mgr.mallocMem := by rw [hmem]; exact List.mem_cons_self
  have hpage := (hinv.freeUndoes_iff hb).mp (hall smallPages mgr (reachable_runNew hrun) 0 hb) m hm
  exact absurd (hsize.symm.trans hpage) (by decide)

end HugePagesMemoryMgr

end LoneNvme
