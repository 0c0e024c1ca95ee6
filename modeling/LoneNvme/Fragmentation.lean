import LoneNvme.HugePagesRuns

/-!
# Growing or failing

`malloc` gets more hugepages if fewer pages are free than it needs, and then always finds
a group, in the new ones if nowhere else. If enough pages are free it does not grow, and
fails if they are scattered.

What the operating system may refuse is granted here: a hugepage when one is asked for, and the
mapping of the block. Then only two things decide, how many free pages there are and where they
lie, and `malloc_returns_iff` says how, in every reachable state.
-/

namespace LoneNvme

open Lib

namespace HugePagesMemoryMgr

namespace Calls

variable {cfg : HugePagesConfig} {mgr mgr' : HugePagesMemoryMgr} {size : Int}
  {direction : DMADirection} {hp : Nat → Nat} {mapFunc : Mapping → Except Exc Unit}

/-- Among the free pages there are enough neighbours that follow each other. -/
def Room (cfg : HugePagesConfig) (mgr : HugePagesMemoryMgr) (size : Int) : Prop :=
  ∃ group ∈ grouper mgr.freePages (pagesNeeded cfg size), mgr.contiguous group = true

/-- There are too few free pages, and a hugepage has at least one page. -/
def WillGrow (cfg : HugePagesConfig) (mgr : HugePagesMemoryMgr) (size : Int) : Prop :=
  mgr.freePages.length < pagesNeeded cfg size ∧ cfg.pageSize ≤ cfg.hugepagesSize

/-! ## A new hugepage is one free run -/

theorem freePages_withHugepage (vaddr : Nat) : (mgr.withHugepage cfg vaddr).freePages
    = mgr.freePages ++ List.range' mgr.numPages (cfg.hugepagesSize / cfg.pageSize) := by
  unfold freePages
  show (List.range (mgr.numPages + _)).filter _ = _
  rw [List.range_eq_range', ← List.range'_append_1, List.filter_append, Nat.zero_add,
    ← List.range_eq_range']
  congr 1
  · refine List.filter_congr fun i hi => ?_
    have hpage : (mgr.withHugepage cfg vaddr).page i = mgr.page i := if_pos (List.mem_range.mp hi)
    rw [hpage]
  · refine List.filter_eq_self.mpr fun i hi => ?_
    have hpage : (mgr.withHugepage cfg vaddr).page i
        = { vaddr := vaddr + (i - mgr.numPages) * cfg.pageSize, iova := 0, size := cfg.pageSize } :=
      if_neg (Nat.not_lt.mpr (List.mem_range'_1.mp hi).1)
    rw [hpage]
    rfl

/-- Pages split from one hugepage follow each other. -/
theorem contiguous_withHugepage {vaddr : Nat} :
    ∀ {n a : Nat}, mgr.numPages ≤ a →
      (mgr.withHugepage cfg vaddr).contiguous (List.range' a n) = true := by
  have hpage : ∀ {i}, mgr.numPages ≤ i → (mgr.withHugepage cfg vaddr).page i
      = { vaddr := vaddr + (i - mgr.numPages) * cfg.pageSize, iova := 0, size := cfg.pageSize } :=
    fun hi => if_neg (Nat.not_lt.mpr hi)
  intro n
  induction n with
  | zero => exact fun _ => rfl
  | succ n ih =>
      intro a ha
      cases n with
      | zero => rfl
      | succ n =>
          have hrest := @ih (a + 1) (Nat.le_succ_of_le ha)
          have hstep : vaddr + (a - mgr.numPages) * cfg.pageSize + cfg.pageSize
              = vaddr + (a + 1 - mgr.numPages) * cfg.pageSize := by
            rw [Nat.succ_sub ha, Nat.succ_mul, Nat.add_assoc]
          rw [List.range'_succ, List.range'_succ, contiguous, hpage ha, hpage (Nat.le_succ_of_le ha),
            Bool.and_eq_true, beq_iff_eq]
          exact ⟨hstep, hrest⟩

theorem mem_grouper_append {α : Type} {l run : List α} {n : Nat} (hn : 0 < n) (hle : n ≤ run.length) :
    run.take n ∈ grouper (l ++ run) n := by
  refine List.mem_map.mpr ⟨l.length, ?_, ?_⟩
  · rw [List.mem_range, List.length_append]
    omega
  · rw [List.drop_left]

/-- **A new hugepage has room** for a block of at most its size. -/
theorem room_withHugepage {vaddr : Nat} (hle : pagesNeeded cfg size ≤ cfg.hugepagesSize / cfg.pageSize) :
    Room cfg (mgr.withHugepage cfg vaddr) size := by
  unfold Room
  rw [freePages_withHugepage]
  refine ⟨_, mem_grouper_append pagesNeeded_pos ?_, ?_⟩
  · rw [List.length_range']
    exact hle
  · rw [List.take_range'_of_length_ge hle]
    exact contiguous_withHugepage (Nat.le_refl _)

/-! ## The search -/

/-- The search finds a group exactly if there is room. -/
theorem find_isSome_iff :
    ((grouper mgr.freePages (pagesNeeded cfg size)).find? mgr.suitable).isSome = true
      ↔ Room cfg mgr size := by
  rw [List.find?_isSome]
  refine exists_congr fun group => and_congr_right fun hgroup => ?_
  rw [suitable, Bool.and_eq_true]
  refine ⟨And.right, fun hcont => ⟨?_, hcont⟩⟩
  rw [List.all_eq_true]
  intro i hi
  have hfree := (mem_grouper pagesNeeded_pos hgroup).1.subset hi
  rw [(mem_freePages.mp hfree).2]
  rfl

/-- With room no page is missing. -/
theorem Room.le (h : Room cfg mgr size) : pagesNeeded cfg size ≤ mgr.freePages.length := by
  obtain ⟨group, hgroup, _⟩ := h
  obtain ⟨hsub, hlen⟩ := mem_grouper pagesNeeded_pos hgroup
  exact hlen ▸ hsub.length_le

/-- The operating system grants every hugepage. -/
def Grants (cfg : HugePagesConfig) (hp : Nat → Nat) : Prop :=
  cfg.hugepagesSize % cfg.scPageSize = 0 ∧ ∀ k, hp k ≠ 0

theorem mallocHp_granted (h : Grants cfg hp) (mgr : HugePagesMemoryMgr) (k : Nat) :
    mgr.mallocHp cfg (hp k) = .ok (mgr.withHugepage cfg (hp k)) := by
  unfold mallocHp
  rw [decide_eq_true h.1, assertThat_true, if_neg (h.2 k)]
  rfl

/-- Growing works, and ends with a new hugepage. -/
theorem mallocHps_granted (h : Grants cfg hp) (n : Nat) : ∃ grown : HugePagesMemoryMgr,
    HugePagesMemoryMgr.mallocHps cfg hp (n + 1) mgr = .ok (grown.withHugepage cfg (hp n)) := by
  induction n with
  | zero => exact ⟨mgr, mallocHp_granted h mgr 0⟩
  | succ n ih =>
      obtain ⟨grown, hgrown⟩ := ih
      refine ⟨grown.withHugepage cfg (hp n), ?_⟩
      rw [HugePagesMemoryMgr.mallocHps, hgrown]
      exact mallocHp_granted h _ (n + 1)

/-- **After growing** there is room if there was, or if a hugepage was missing; otherwise it fails. -/
theorem ensureFree_granted (h : Grants cfg hp)
    (hle : 0 < cfg.hugepagesSize / cfg.pageSize →
      pagesNeeded cfg size ≤ cfg.hugepagesSize / cfg.pageSize) :
    (∃ grown, mgr.ensureFree cfg hp (pagesNeeded cfg size) mallocGrowth
        = .ok grown ∧ (Room cfg grown size ↔ Room cfg mgr size ∨ WillGrow cfg mgr size))
      ∨ (∃ e, mgr.ensureFree cfg hp (pagesNeeded cfg size) mallocGrowth
        = .error e) ∧ ¬ (Room cfg mgr size ∨ WillGrow cfg mgr size) := by
  unfold HugePagesMemoryMgr.ensureFree
  by_cases hgt : pagesNeeded cfg size > mgr.freePages.length
  · -- a group would be as many free pages as are needed
    have hnoRoom : ¬ Room cfg mgr size := fun hroom => Nat.not_lt.mpr hroom.le hgt
    rw [if_pos hgt]
    unfold mallocGrowth
    rcases Nat.eq_zero_or_pos (cfg.hugepagesSize / cfg.pageSize) with h0 | hpos
    · rw [if_pos h0]
      refine Or.inr ⟨⟨_, rfl⟩, not_or.mpr ⟨hnoRoom, fun hgrow => ?_⟩⟩
      exact Nat.ne_of_gt (Nat.div_pos hgrow.2 cfg.pageSize_pos) h0
    · rw [if_neg (Nat.ne_of_gt hpos), ok_bind]
      obtain ⟨n, hn⟩ := Nat.exists_eq_add_of_le' (Nat.le_max_left 1
        ((pagesNeeded cfg size - mgr.freePages.length) / (cfg.hugepagesSize / cfg.pageSize)))
      obtain ⟨grown, hgrown⟩ := @mallocHps_granted cfg mgr hp h n
      rw [hn, hgrown]
      refine Or.inl ⟨_, rfl, iff_of_true (room_withHugepage (hle hpos)) (Or.inr ⟨hgt, ?_⟩)⟩
      exact Nat.le_of_not_lt fun hlt => Nat.ne_of_gt hpos (Nat.div_eq_of_lt hlt)
  · rw [if_neg hgt]
    exact Or.inl ⟨mgr, rfl, Or.inl, fun hcase => hcase.resolve_right fun hgrow => hgt hgrow.1⟩

/-- The constructor asserts it. -/
theorem hugepagesSize_mod_of_reachable (h : (runs cfg).Reachable mgr) :
    cfg.hugepagesSize % cfg.scPageSize = 0 := by
  refine h.invariant (I := fun _ => cfg.hugepagesSize % cfg.scPageSize = 0) ?_
    fun _ _ _ _ hmod _ => hmod
  intro mgr hinit
  obtain ⟨mem, hp, hnew⟩ := hinit
  obtain ⟨grown, hgrown, _⟩ := bind_eq_ok hnew
  rw [HugePagesMemoryMgr.mallocHps] at hgrown
  obtain ⟨_, _, hgrown⟩ := bind_eq_ok hgrown
  unfold mallocHp at hgrown
  obtain ⟨u, hassert, _⟩ := bind_eq_ok hgrown
  exact of_decide_eq_true (assertThat_eq_ok hassert)

/--
**When `malloc` returns a block** of at most 2 MiB, there being hugepages and IOVAs: if
enough free pages follow each other, or if fewer than needed are free. If enough are free
but scattered it raises, though a hugepage could be had.

Free pages are only counted before the manager decides whether to grow; where they lie is looked
at afterwards, and nothing grows then.
-/
theorem malloc_returns_iff (h : (runs cfg).Reachable mgr)
    (hhp : cfg.hugepagesSize = HugePagesIovaMgr.increment) (hgrant : ∀ k, hp k ≠ 0)
    (hiova : mgr.freeIovas ≠ []) (hsize : size ≤ HugePagesIovaMgr.increment)
    (hd : direction ≠ .bidirectional) (hmap : ∀ m, mapFunc m = .ok ()) :
    (∃ b mgr', malloc cfg size direction hp mapFunc mgr = .ok b mgr')
      ↔ Room cfg mgr size ∨ WillGrow cfg mgr size := by
  have hmod := hugepagesSize_mod_of_reachable h
  have hblock : blockSize cfg size ≤ cfg.hugepagesSize := by
    have hsc : cfg.scPageSize ≤ cfg.hugepagesSize :=
      Nat.le_of_dvd cfg.hugepagesSize_pos (Nat.dvd_of_mod_eq_zero hmod)
    unfold blockSize
    split
    · exact hsc
    · rw [hhp]
      omega
  -- one hugepage has the pages that a block needs
  have hneeded : 0 < cfg.hugepagesSize / cfg.pageSize →
      pagesNeeded cfg size ≤ cfg.hugepagesSize / cfg.pageSize :=
    fun hpos => Nat.max_le.mpr ⟨hpos, Nat.div_le_div_right hblock⟩
  have hroom := @ensureFree_granted cfg mgr size hp ⟨hmod, hgrant⟩ hneeded
  generalize hr : malloc cfg size direction hp mapFunc mgr = r
  have hrun : MallocRun cfg mgr size direction hp mapFunc r := hr ▸ malloc_run
  cases hrun with
  | ungrown hgrow _ =>
      rcases hroom with ⟨grown, hok, _⟩ | ⟨_, hnot⟩
      · exact absurd (hgrow.symm.trans hok) (by simp)
      · exact iff_of_false (fun hb => by obtain ⟨b, mgr', hb⟩ := hb; exact absurd hb (by simp)) hnot
  | noGroup hgrow hnone =>
      rcases hroom with ⟨grown, hok, hiff⟩ | ⟨⟨e, herr⟩, _⟩
      · have he := Except.ok.inj (hgrow.symm.trans hok)
        subst he
        refine iff_of_false (fun hb => by obtain ⟨b, mgr', hb⟩ := hb; exact absurd hb (by simp)) ?_
        rw [← hiff, ← find_isSome_iff, hnone]
        exact Bool.false_ne_true
      · exact absurd (hgrow.symm.trans herr) (by simp)
  | noIova hfinds hnot =>
      rw [hfinds.grown.freeIovas] at hnot
      exact absurd ⟨hhp ▸ hblock, hiova⟩ hnot
  | unmapped hfinds _ _ hnot => exact absurd ⟨hd, hmap _⟩ hnot
  | block hfinds _ _ _ _ =>
      rcases hroom with ⟨grown, hok, hiff⟩ | ⟨⟨e, herr⟩, _⟩
      · have he := Except.ok.inj (hfinds.grows.symm.trans hok)
        subst he
        refine iff_of_true ⟨_, _, rfl⟩ (hiff.mp (find_isSome_iff.mp ?_))
        rw [hfinds.group]
        rfl
      · exact absurd (hfinds.grows.symm.trans herr) (by simp)

/-- Four blocks of a page, and every other one freed. -/
def everyOtherFreed : List Op :=
  [.malloc 0x80000 .hostToDevice (fun _ => 0) fun _ => .ok (),
    .malloc 0x80000 .hostToDevice (fun _ => 0) fun _ => .ok (),
    .malloc 0x80000 .hostToDevice (fun _ => 0) fun _ => .ok (),
    .malloc 0x80000 .hostToDevice (fun _ => 0) fun _ => .ok (),
    .free 0 fun _ _ => .ok (), .free 2 fun _ _ => .ok ()]

/-- Two scattered pages are free: there is room for a block of one. -/
theorem malloc_returns_iff_everyOtherFreed :
    ∃ mgr, (runs largePages).Reachable mgr ∧ mgr.freePages = [0, 2]
      ∧ ∃ b mgr', malloc largePages 0x80000 .hostToDevice (fun _ => 0x400000) (fun _ => .ok ()) mgr
        = .ok b mgr' := by
  have hsome : ((start largePages).bind fun mgr => (runs largePages).run mgr everyOtherFreed).map
      (fun mgr => (mgr.freeIovas == [], mgr.freePages)) = some (false, [0, 2]) := by
    decide +kernel
  obtain ⟨mgr, hrun, hmgr⟩ := Option.map_eq_some_iff.mp hsome
  obtain ⟨mgr₀, hstart, hrun⟩ := Option.bind_eq_some_iff.mp hrun
  obtain ⟨hiovas, hfree⟩ := Prod.mk.inj hmgr
  have hr := (Machine.Reachable.start (init_start hstart)).run _ hrun
  refine ⟨mgr, hr, hfree, ?_⟩
  have hroom : Room largePages mgr 0x80000 := by
    unfold Room
    rw [hfree]
    exact ⟨[0], by decide, rfl⟩
  exact (malloc_returns_iff hr rfl (fun _ => by decide) (fun he => absurd (he ▸ hiovas) (by decide))
    (by decide) (by decide) fun _ => rfl).mpr (Or.inl hroom)

/-- A block of two pages is not found there. -/
theorem not_malloc_returns_everyOtherFreed :
    ∃ mgr, (runs largePages).Reachable mgr ∧ mgr.freeIovas ≠ [] ∧ mgr.freePages = [0, 2]
      ∧ ∃ e mgr', malloc largePages 0x100000 .hostToDevice (fun _ => 0x400000) (fun _ => .ok ()) mgr
        = .error e mgr' := by
  have hsome : ((start largePages).bind fun mgr => (runs largePages).run mgr everyOtherFreed).map
      (fun mgr => (mgr.freeIovas == [], mgr.freePages,
        match malloc largePages 0x100000 .hostToDevice (fun _ => 0x400000) (fun _ => .ok ()) mgr with
        | .ok _ _ => true
        | .error _ _ => false)) = some (false, [0, 2], false) := by
    decide +kernel
  obtain ⟨mgr, hrun, hmgr⟩ := Option.map_eq_some_iff.mp hsome
  obtain ⟨mgr₀, hstart, hrun⟩ := Option.bind_eq_some_iff.mp hrun
  obtain ⟨hiovas, hrest⟩ := Prod.mk.inj hmgr
  obtain ⟨hfree, hmalloc⟩ := Prod.mk.inj hrest
  refine ⟨mgr, (Machine.Reachable.start (init_start hstart)).run _ hrun,
    fun he => absurd (he ▸ hiovas) (by decide), hfree, ?_⟩
  cases hr : malloc largePages 0x100000 .hostToDevice (fun _ => 0x400000) (fun _ => .ok ()) mgr with
  | ok b mgr' =>
      rw [hr] at hmalloc
      exact absurd hmalloc (by simp)
  | error e mgr' => exact ⟨e, mgr', rfl⟩

end Calls

end HugePagesMemoryMgr

end LoneNvme
