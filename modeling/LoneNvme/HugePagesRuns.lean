import LoneNvme.FreeAll

/-!
# Runs with calls that raise

Any calls of the manager, returning or raising, also `free_all`. If no call raises between
marking pages and mapping them, or between releasing pages and unmapping them, the ownership
invariant holds all along: from it follow what a block covers, and that no live block is in
the way of `free_all`. Hugepages that `free_all` did not give back stay in front of the list,
and no page is theirs.
-/

namespace LoneNvme

open Lib

namespace HugePagesMemoryMgr

namespace Calls

/-- The state a call leaves, whether it returns or raises. -/
def leaves {α : Type} : EStateM.Result Exc HugePagesMemoryMgr α → HugePagesMemoryMgr
  | .ok _ mgr => mgr
  | .error _ mgr => mgr

/-- Calls of the manager, and a client writing one byte of a block. -/
inductive Op where
  | malloc (size : Int) (direction : DMADirection) (hp : Nat → Nat)
      (mapFunc : Mapping → Except Exc Unit)
  | mallocPages (numPages : Nat) (hp : Nat → Nat)
  | free (b : Nat) (unmapFunc : (iova size : Nat) → Except Exc Unit)
  | freeAll (unmapFunc : (iova size : Nat) → Except Exc Unit)
  | write (b offset : Nat) (value : BitVec 8)

/-- A call, returning or raising. Only live blocks are freed or written. -/
def call (cfg : HugePagesConfig) (mgr : HugePagesMemoryMgr) : Op → Option HugePagesMemoryMgr
  | .malloc size direction hp mapFunc => some (leaves (malloc cfg size direction hp mapFunc mgr))
  | .mallocPages numPages hp => some (leaves (mallocPages cfg numPages hp mgr))
  | .free b unmapFunc =>
      if b ∈ mgr.mallocMem then some (leaves (free cfg unmapFunc b mgr)) else none
  | .freeAll unmapFunc => some (leaves (freeAll cfg unmapFunc mgr))
  | .write b offset value =>
      if b ∈ mgr.mallocMem ∧ offset < (mgr.page b).size then
        some { mgr with mem := mgr.mem.store ((mgr.page b).vaddr + offset) [value] }
      else none

/-- `hugepages.malloc` returns regions apart from those that were not freed. -/
def step (cfg : HugePagesConfig) (mgr : HugePagesMemoryMgr) (a : Op) : Option HugePagesMemoryMgr :=
  match call cfg mgr a with
  | some mgr' => if mgr'.allocatedMemory.Pairwise RegionsApart then some mgr' else none
  | none => none

def runs (cfg : HugePagesConfig) : Machine HugePagesMemoryMgr Op :=
  ⟨fun mgr => ∃ mem hp, new cfg mem hp = .ok mgr, step cfg⟩

variable {cfg : HugePagesConfig} {mgr mgr' : HugePagesMemoryMgr} {iovas : List Nat} {k : Nat}

/--
If `malloc` finds a group, it maps it; or there is no IOVA, and the group is one page with the
size. What `free` and `free_all` release, they unmap.
-/
def Quiet (cfg : HugePagesConfig) (mgr : HugePagesMemoryMgr) : Op → Prop
  | .malloc size direction hp mapFunc => ∀ grown b linked, Finds cfg mgr size hp grown b linked →
      (HasIova cfg mgr size → Maps cfg mgr grown b size direction mapFunc)
      ∧ (¬ HasIova cfg mgr size → linked = [] ∧ (grown.page b).size = blockSize cfg size)
  | .free b unmapFunc => Unmaps cfg mgr unmapFunc b
  | .freeAll unmapFunc => ∀ b ∈ mgr.mallocMem, Unmaps cfg mgr unmapFunc b
  | _ => True

/-- The size is a multiple of the page size, or less than a page. -/
def Covers (cfg : HugePagesConfig) (size : Int) : Prop :=
  blockSize cfg size ≤ cfg.pageSize ∨ cfg.pageSize ∣ blockSize cfg size

instance (cfg : HugePagesConfig) (size : Int) : Decidable (Covers cfg size) :=
  inferInstanceAs (Decidable (blockSize cfg size ≤ cfg.pageSize ∨ cfg.pageSize ∣ blockSize cfg size))

/-- A call that asks for such a size. -/
def Covered (cfg : HugePagesConfig) : Op → Prop
  | .malloc size _ _ _ => Covers cfg size
  | _ => True

/-! ## The invariant -/

/-- The manager without the first `k` hugepages of its list. -/
def since (mgr : HugePagesMemoryMgr) (k : Nat) : HugePagesMemoryMgr :=
  { mgr with allocatedMemory := mgr.allocatedMemory.drop k }

/-- The ownership invariant, the first `k` hugepages being left from before `free_all`. -/
structure Owns (cfg : HugePagesConfig) (iovas : List Nat) (k : Nat) (mgr : HugePagesMemoryMgr) : Prop where
  le : k ≤ mgr.allocatedMemory.length
  inv : Inv cfg iovas (since mgr k)

/-- No block is larger than its pages. -/
def Sized (cfg : HugePagesConfig) (mgr : HugePagesMemoryMgr) : Prop :=
  ∀ b ∈ mgr.mallocMem, (mgr.page b).size ≤ (mgr.block b).length * cfg.pageSize

theorem Owns.withHugepage (h : Owns cfg iovas k mgr) (vaddr : Nat) :
    Owns cfg iovas k (mgr.withHugepage cfg vaddr) where
  le := by
    show k ≤ (mgr.allocatedMemory ++ [(vaddr, cfg.hugepagesSize)]).length
    rw [List.length_append]
    exact Nat.le_add_right_of_le h.le
  inv := by
    have hsince : since (mgr.withHugepage cfg vaddr) k = (since mgr k).withHugepage cfg vaddr := by
      unfold since HugePagesMemoryMgr.withHugepage
      dsimp only
      rw [List.drop_append_of_le_length h.le]
    rw [hsince]
    exact h.inv.withHugepage vaddr

/-- Growing keeps both, and no block is new. -/
theorem Sized.grown {grown : HugePagesMemoryMgr} (h : Sized cfg mgr) (howns : Owns cfg iovas k mgr)
    (hgrown : Grown mgr grown) : Sized cfg grown := by
  intro b hb
  rw [hgrown.mallocMem] at hb
  have hlt : b < mgr.numPages := howns.inv.lt_of_mallocMem hb
  rw [block, hgrown.page b hlt]
  exact h b hb

/-- What a step keeps. -/
structure Keeps (cfg : HugePagesConfig) (iovas : List Nat) (mgr mgr' : HugePagesMemoryMgr)
    (covers : Prop) : Prop where
  owns : ∃ k, Owns cfg iovas k mgr'
  sized : covers → Sized cfg mgr → Sized cfg mgr'

theorem keeps_grown {grown : HugePagesMemoryMgr} {covers : Prop} (h : Owns cfg iovas k mgr)
    (howns : Owns cfg iovas k grown) (hgrown : Grown mgr grown) : Keeps cfg iovas mgr grown covers :=
  ⟨⟨k, howns⟩, fun _ hsized => hsized.grown h hgrown⟩

/-! ## A new block -/

/-- The pages of a group that is found are free, and have the page size and no links. -/
theorem Finds.plain {size : Int} {hp : Nat → Nat} {grown : HugePagesMemoryMgr} {b : Nat}
    {linked : List Nat} (hfinds : Finds cfg mgr size hp grown b linked) (h : Owns cfg iovas k grown) :
    ∀ i ∈ b :: linked, (grown.page i).size = cfg.pageSize ∧ (grown.page i).linkedMem = [] := by
  intro i hi
  obtain ⟨hlt, hnot⟩ := h.inv.not_mem_owned (hfinds.spec.1.subset hi)
  exact h.inv.plain i hlt fun hm => hnot (mem_owned_of_mallocMem hm)

theorem Finds.owns {size : Int} {hp : Nat → Nat} {grown : HugePagesMemoryMgr} {b : Nat}
    {linked : List Nat} (hfinds : Finds cfg mgr size hp grown b linked) (h : Owns cfg iovas k mgr) :
    Owns cfg iovas k grown :=
  ensureFree_induct (fun _ vaddr h => h.withHugepage vaddr) h hfinds.grows

/-- Whether pages follow each other is about the pages only. -/
theorem contiguous_since : ∀ {group : List Nat}, (since mgr k).contiguous group = mgr.contiguous group
  | [] => rfl
  | [_] => rfl
  | i :: j :: group => by
      rw [contiguous, contiguous, @contiguous_since (j :: group)]
      rfl

theorem Owns.withBlock {grown : HugePagesMemoryMgr} {b iova : Nat} {linked freeIovas : List Nat}
    {size : Int} {direction : DMADirection} {hp : Nat → Nat}
    (h : Owns cfg iovas k grown) (hfinds : Finds cfg mgr size hp grown b linked)
    (hfree : grown.freeIovas = iova :: freeIovas) :
    Owns cfg iovas k (grown.withBlock b linked
      (mappingOf grown b iova (blockSize cfg size) direction) freeIovas) :=
  ⟨h.le, h.inv.withBlock hfinds.spec.1 (contiguous_since.trans hfinds.spec.2.2) hfree rfl⟩

/-- The pages that are found are enough exactly for such sizes. -/
theorem blockSize_le_iff {size : Int} :
    blockSize cfg size ≤ pagesNeeded cfg size * cfg.pageSize ↔ Covers cfg size := by
  unfold pagesNeeded Covers
  have hmul := Nat.div_mul_le_self (blockSize cfg size) cfg.pageSize
  rcases Nat.lt_or_ge (blockSize cfg size) cfg.pageSize with hlt | hge
  · rw [Nat.div_eq_of_lt hlt, Nat.max_eq_left (Nat.zero_le 1), Nat.one_mul]
    exact iff_of_true hlt.le (Or.inl hlt.le)
  · rw [Nat.max_eq_right (Nat.div_pos hge cfg.pageSize_pos)]
    constructor
    · intro hle
      exact Or.inr ⟨blockSize cfg size / cfg.pageSize, by rw [Nat.mul_comm]; omega⟩
    · rintro (hle | hdvd)
      · rw [Nat.le_antisymm hle hge, Nat.div_self cfg.pageSize_pos, Nat.one_mul]
      · rw [Nat.div_mul_cancel hdvd]

/-- A block that `malloc` returned: its pages are those of the group. -/
theorem length_block_withBlock {grown : HugePagesMemoryMgr} {b : Nat} {linked freeIovas : List Nat}
    {m : Mapping} (hb : (grown.page b).linkedMem = []) :
    (grown.withBlock b linked m freeIovas).block b = b :: linked := by
  rw [block, withBlock_page_self, hb, List.nil_append]

/-- Marking one page that has the size changes nothing. -/
theorem withLinks_nil {grown : HugePagesMemoryMgr} {b n : Nat} (hsize : (grown.page b).size = n) :
    withLinks grown b [] n = grown := by
  unfold withLinks
  subst hsize
  have hpage : (fun i => if i = b then { grown.page b with
      linkedMem := (grown.page b).linkedMem ++ [], size := (grown.page b).size }
      else if i ∈ [] then { grown.page i with inUse := true } else grown.page i) = grown.page := by
    funext i
    by_cases hi : i = b
    · rw [if_pos hi, List.append_nil, hi]
    · rw [if_neg hi, if_neg List.not_mem_nil]
  rw [hpage]

theorem Owns.keeps_malloc {size : Int} {direction : DMADirection} {hp : Nat → Nat}
    {mapFunc : Mapping → Except Exc Unit} (h : Owns cfg iovas k mgr)
    (hquiet : Quiet cfg mgr (.malloc size direction hp mapFunc)) :
    Keeps cfg iovas mgr (leaves (malloc cfg size direction hp mapFunc mgr)) (Covers cfg size) := by
  generalize hr : malloc cfg size direction hp mapFunc mgr = r
  have hrun : MallocRun cfg mgr size direction hp mapFunc r := hr ▸ malloc_run
  cases hrun with
  | ungrown _ hleft =>
      exact keeps_grown h (mallocHps_induct (fun _ vaddr h => h.withHugepage vaddr) h hleft)
        (mallocHps_induct (fun _ vaddr h => h.withHugepage vaddr) (Grown.refl mgr) hleft)
  | noGroup hgrow _ =>
      exact keeps_grown h (ensureFree_induct (fun _ vaddr h => h.withHugepage vaddr) h hgrow)
        (ensureFree_grown hgrow)
  | @noIova grown b linked e hfinds hnot =>
      rw [hfinds.grown.freeIovas] at hnot
      obtain ⟨rfl, hsize⟩ := (hquiet _ _ _ hfinds).2 hnot
      show Keeps cfg iovas mgr (withLinks grown b [] (blockSize cfg size)) _
      rw [withLinks_nil hsize]
      exact keeps_grown h (hfinds.owns h) hfinds.grown
  | @unmapped grown b iova linked freeIovas e hfinds hle hfree hnot =>
      -- a quiet call maps what it found
      rw [hfinds.grown.freeIovas] at hfree
      have hhas : HasIova cfg mgr size := ⟨hle, by rw [hfree]; exact List.cons_ne_nil _ _⟩
      obtain ⟨hd, hmap⟩ := (hquiet _ _ _ hfinds).1 hhas
      exact absurd ⟨hd, hmap iova (by rw [hfree]; rfl)⟩ hnot
  | @block grown b iova linked freeIovas hfinds hle hfree hd hmap =>
      have howns := hfinds.owns h
      refine ⟨⟨k, howns.withBlock hfinds hfree⟩, fun hcovers hsized c hc => ?_⟩
      rcases List.mem_append.mp hc with hc | hc
      · have hother : c ∉ b :: linked := fun hin =>
          (howns.inv.not_mem_owned (hfinds.spec.1.subset hin)).2 (mem_owned_of_mallocMem hc)
        rw [block, leaves, withBlock_page_other hother]
        exact hsized.grown h hfinds.grown c hc
      · rw [List.mem_singleton.mp hc, leaves,
          length_block_withBlock (hfinds.plain howns b List.mem_cons_self).2, withBlock_page_self,
          hfinds.spec.2.1]
        exact blockSize_le_iff.mpr hcovers

/-! ## The other calls -/

theorem mallocPages_run {num : Nat} {hp : Nat → Nat} :
    (∃ grown, mgr.ensureFree cfg hp num mallocPagesGrowth = .ok grown
        ∧ leaves (mallocPages cfg num hp mgr) = grown.withHanded (grown.freePages.take num))
      ∨ ∃ left n, HugePagesMemoryMgr.mallocHps cfg hp n mgr = .ok left
        ∧ leaves (mallocPages cfg num hp mgr) = left := by
  unfold mallocPages
  rcases @ensureFree_run cfg mgr hp num mallocPagesGrowth with
    ⟨grown, hpure, hrun⟩ | ⟨e, left, n, _, hleft, hrun⟩
  · refine Or.inl ⟨grown, hpure, ?_⟩
    rw [run_bind_ok hrun, run_get_bind]
    dsimp only
    cases decide ((grown.freePages.take num).length = num) with
    | true => rfl
    | false => rfl
  · rw [run_bind_error hrun]
    exact Or.inr ⟨left, n, hleft, rfl⟩

theorem Owns.keeps_mallocPages {num : Nat} {hp : Nat → Nat} {covers : Prop} (h : Owns cfg iovas k mgr) :
    Keeps cfg iovas mgr (leaves (mallocPages cfg num hp mgr)) covers := by
  rcases @mallocPages_run cfg mgr num hp with ⟨grown, hgrow, hleaves⟩ | ⟨left, n, hleft, hleaves⟩
  · have howns : Owns cfg iovas k grown :=
      ensureFree_induct (fun _ vaddr h => h.withHugepage vaddr) h hgrow
    have hsub : (grown.freePages.take num).Sublist grown.freePages := List.take_sublist _ _
    rw [hleaves]
    refine ⟨⟨k, howns.le, howns.inv.withHanded hsub⟩, fun _ hsized b hb => ?_⟩
    have hpage : (grown.withHanded (grown.freePages.take num)).page b = grown.page b :=
      if_neg fun hin => (howns.inv.not_mem_owned (hsub.subset hin)).2 (mem_owned_of_mallocMem hb)
    rw [block, hpage]
    exact hsized.grown h (ensureFree_grown hgrow) b hb
  · rw [hleaves]
    exact keeps_grown h (mallocHps_induct (fun _ vaddr h => h.withHugepage vaddr) h hleft)
      (mallocHps_induct (fun _ vaddr h => h.withHugepage vaddr) (Grown.refl mgr) hleft)

theorem Owns.allFreeable (h : Owns cfg iovas k mgr) : AllFreeable mgr := by
  have howned : ∀ b ∈ mgr.mallocMem, ∀ i ∈ mgr.block b, i ∈ (since mgr k).owned :=
    fun b hb i hi => mem_owned.mpr (Or.inl ⟨b, hb, hi⟩)
  refine ⟨(List.nodup_append.mp h.inv.nodup).1, fun b hb i hi => ?_, fun b hb => (h.inv.mapped b hb).1⟩
  exact (h.inv.inUse i (h.inv.lt i (howned b hb i hi))).mpr (howned b hb i hi)

theorem AllFreeable.freeable (h : AllFreeable mgr) {b : Nat} (hb : b ∈ mgr.mallocMem) :
    Freeable mgr b :=
  ⟨(List.nodup_flatMap.mp h.nodup).1 b hb, h.inUse b hb, h.mapped b hb, hb⟩

theorem AllFreeable.nodup_mallocMem (h : AllFreeable mgr) : mgr.mallocMem.Nodup := by
  refine (List.nodup_flatMap.mp h.nodup).2.imp fun {b c} hapart he => ?_
  exact List.disjoint_left.mp hapart List.mem_cons_self (he ▸ List.mem_cons_self)

theorem Owns.withoutBlock (h : Owns cfg iovas k mgr) {b : Nat} (hb : b ∈ mgr.mallocMem) :
    Owns cfg iovas k (mgr.withoutBlock cfg b) := ⟨h.le, Inv.withoutBlock h.inv hb⟩

theorem Owns.keeps_free {unmapFunc : Nat → Nat → Except Exc Unit} (h : Owns cfg iovas k mgr) {b : Nat}
    (hb : b ∈ mgr.mallocMem) (hunmaps : Unmaps cfg mgr unmapFunc b) {covers : Prop} :
    Keeps cfg iovas mgr (leaves (free cfg unmapFunc b mgr)) covers := by
  rcases @free_run cfg mgr unmapFunc b with ⟨hfree, _, hrun⟩ | ⟨hnot, _⟩
  · rw [hrun]
    refine ⟨⟨k, h.withoutBlock hb⟩, fun _ hsized c hc => ?_⟩
    have hc' : c ∈ mgr.mallocMem := List.mem_of_mem_erase hc
    have hne : c ≠ b := fun he => h.allFreeable.nodup_mallocMem.not_mem_erase (he ▸ hc)
    have hother : c ∉ mgr.block b := fun hin =>
      hne (h.inv.block_unique hc' hb List.mem_cons_self hin)
    rw [block, leaves, withoutBlock_page_other hother]
    exact hsized c hc'
  · exact absurd ⟨h.allFreeable.freeable hb, hunmaps⟩ hnot

/-- After `free_all` the hugepages that are still listed have no pages. -/
theorem Owns.forget (h : Owns cfg iovas k mgr) (hmem : mgr.mallocMem = []) (kept : List (Nat × Nat)) :
    Owns cfg iovas kept.length
      { mgr with numPages := 0, handedOut := [], allocatedMemory := kept } := by
  have hmem' : (since { mgr with numPages := 0, handedOut := [], allocatedMemory := kept }
      kept.length).mallocMem = [] := hmem
  have howned : (since { mgr with numPages := 0, handedOut := [], allocatedMemory := kept }
      kept.length).owned = [] := by
    rw [owned, hmem']
    rfl
  refine ⟨Nat.le_refl _, fun i hi => ?_, ?_, fun i hi => absurd hi (Nat.not_lt_zero i),
    fun i hi => absurd hi (Nat.not_lt_zero i), fun b hb => ?_, h.inv.iovas, fun b hb => ?_, ?_⟩
  · rw [howned] at hi
    exact absurd hi List.not_mem_nil
  · rw [howned]
    exact List.nodup_nil
  · exact absurd (hmem' ▸ hb) List.not_mem_nil
  · exact absurd (hmem' ▸ hb) List.not_mem_nil
  · show [] = (kept.drop kept.length).flatMap (splits cfg)
    rw [List.drop_length]
    rfl

theorem Owns.keeps_freeAll {unmapFunc : Nat → Nat → Except Exc Unit} {covers : Prop}
    (h : Owns cfg iovas k mgr) (hunmaps : ∀ b ∈ mgr.mallocMem, Unmaps cfg mgr unmapFunc b) :
    Keeps cfg iovas mgr (leaves (freeAll cfg unmapFunc mgr)) covers := by
  rcases @freeAll_run cfg mgr unmapFunc (Owns cfg iovas k) (fun _ _ hb h => h.withoutBlock hb) h with
    ⟨_, freed, hmem, _, howns, hrun⟩ | ⟨hnot, _⟩
  · rw [hrun]
    refine ⟨⟨_, howns.forget hmem _⟩, fun _ _ b hb => ?_⟩
    exact absurd (hmem ▸ hb) List.not_mem_nil
  · exact absurd ⟨h.allFreeable, hunmaps⟩ hnot

/-- **One quiet call** keeps who owns the pages, and that blocks fit, if the new one does. -/
theorem keeps_call {a : Op} (h : Owns cfg iovas k mgr) (hquiet : Quiet cfg mgr a)
    (hs : call cfg mgr a = some mgr') : Keeps cfg iovas mgr mgr' (Covered cfg a) := by
  cases a with
  | malloc size direction hp mapFunc =>
      rw [← Option.some.inj hs]
      exact h.keeps_malloc hquiet
  | mallocPages num hp =>
      rw [← Option.some.inj hs]
      exact h.keeps_mallocPages
  | free b unmapFunc =>
      obtain ⟨hb, hok⟩ := Option.ite_none_right_eq_some.mp hs
      rw [← Option.some.inj hok]
      exact h.keeps_free hb hquiet
  | freeAll unmapFunc =>
      rw [← Option.some.inj hs]
      exact h.keeps_freeAll hquiet
  | write b offset value =>
      obtain ⟨_, hok⟩ := Option.ite_none_right_eq_some.mp hs
      rw [← Option.some.inj hok]
      exact ⟨⟨k, h.le, h.inv.lt, h.inv.nodup, h.inv.inUse, h.inv.plain, h.inv.consecutive, h.inv.iovas,
        h.inv.mapped, h.inv.addrs⟩, fun _ hsized => hsized⟩

theorem step_spec {a : Op} (h : step cfg mgr a = some mgr') :
    call cfg mgr a = some mgr' ∧ mgr'.allocatedMemory.Pairwise RegionsApart := by
  unfold step at h
  split at h
  · rename_i mgr'' hcall
    obtain ⟨hapart, he⟩ := Option.ite_none_right_eq_some.mp h
    rw [Option.some.inj he] at hcall hapart
    exact ⟨hcall, hapart⟩
  · exact absurd h (by simp)

/-- Who owns the pages in a run of quiet calls. -/
structure RunInv (cfg : HugePagesConfig) (mgr : HugePagesMemoryMgr) : Prop where
  owns : ∃ iovas k, Owns cfg iovas k mgr
  apart : mgr.allocatedMemory.Pairwise RegionsApart

theorem runInv_init (h : (runs cfg).init mgr) : RunInv cfg mgr ∧ Sized cfg mgr := by
  obtain ⟨mem, hp, hnew⟩ := h
  obtain ⟨iovas, hreset, rfl⟩ := new_ok hnew
  exact ⟨⟨⟨iovas, 0, Nat.zero_le _, inv_new mem (hp 0) iovas⟩, List.pairwise_singleton _ _⟩,
    fun b hb => absurd hb List.not_mem_nil⟩

theorem runInv_step {a : Op} (h : RunInv cfg mgr) (hquiet : Quiet cfg mgr a)
    (hs : step cfg mgr a = some mgr') :
    RunInv cfg mgr' ∧ (Covered cfg a → Sized cfg mgr → Sized cfg mgr') := by
  obtain ⟨iovas, k, howns⟩ := h.owns
  obtain ⟨hcall, hapart⟩ := step_spec hs
  obtain ⟨⟨k', howns'⟩, hsized⟩ := keeps_call howns hquiet hcall
  exact ⟨⟨⟨iovas, k', howns'⟩, hapart⟩, hsized⟩

theorem runInv_reachable (h : (runs cfg).ReachableBy (Quiet cfg) mgr) : RunInv cfg mgr :=
  h.invariant (I := RunInv cfg) (fun _ hinit => (runInv_init hinit).1)
    fun _ _ _ _ hinv hquiet hs => (runInv_step hinv hquiet hs).1

theorem sized_reachable
    (h : (runs cfg).ReachableBy (fun mgr a => Quiet cfg mgr a ∧ Covered cfg a) mgr) :
    RunInv cfg mgr ∧ Sized cfg mgr :=
  h.invariant (I := fun mgr => RunInv cfg mgr ∧ Sized cfg mgr) (fun _ hinit => runInv_init hinit)
    fun _ _ _ _ hinv hok hs =>
      ⟨(runInv_step hinv.1 hok.1 hs).1, (runInv_step hinv.1 hok.1 hs).2 hok.2 hinv.2⟩

/-! ## What a block covers -/

/-- The byte `x` belongs to the block `b`, as the size of `b` says. -/
def InBlock (mgr : HugePagesMemoryMgr) (b x : Nat) : Prop :=
  (mgr.page b).vaddr ≤ x ∧ x < (mgr.page b).vaddr + (mgr.page b).size

/-- The byte `x` belongs to one of the pages of `b`. -/
def InPages (cfg : HugePagesConfig) (mgr : HugePagesMemoryMgr) (b x : Nat) : Prop :=
  ∃ i ∈ mgr.block b, (mgr.page i).vaddr ≤ x ∧ x < (mgr.page i).vaddr + cfg.pageSize

/-- A block lies in its own pages if it is not larger than they are. -/
theorem Owns.inPages_iff (h : Owns cfg iovas k mgr) {b : Nat} (hb : b ∈ mgr.mallocMem) :
    (∀ x, InBlock mgr b x → InPages cfg mgr b x)
      ↔ (mgr.page b).size ≤ (mgr.block b).length * cfg.pageSize := by
  have hcons : ∀ j i, (mgr.block b)[j]? = some i →
      (mgr.page i).vaddr = (mgr.page b).vaddr + j * cfg.pageSize := h.inv.consecutive b hb
  constructor
  · intro hall
    by_contra hlt
    -- the first byte behind the pages
    obtain ⟨i, hi, hle, hend⟩ := hall ((mgr.page b).vaddr + (mgr.block b).length * cfg.pageSize)
      ⟨Nat.le_add_right _ _, by omega⟩
    obtain ⟨j, hj, hget⟩ := List.getElem_of_mem hi
    have hvaddr := hcons j i (hget ▸ List.getElem?_eq_getElem hj)
    have hmul : (j + 1) * cfg.pageSize ≤ (mgr.block b).length * cfg.pageSize :=
      Nat.mul_le_mul_right _ hj
    rw [Nat.succ_mul] at hmul
    omega
  · intro hsize x hx
    obtain ⟨hle, hend⟩ := hx
    have hdiv := Nat.div_add_mod (x - (mgr.page b).vaddr) cfg.pageSize
    have hmod := Nat.mod_lt (x - (mgr.page b).vaddr) cfg.pageSize_pos
    have hlt : (x - (mgr.page b).vaddr) / cfg.pageSize < (mgr.block b).length :=
      Nat.div_lt_of_lt_mul (by rw [Nat.mul_comm]; omega)
    have hvaddr := hcons _ _ (List.getElem?_eq_getElem hlt)
    rw [Nat.mul_comm] at hdiv
    exact ⟨_, List.getElem_mem hlt, by omega, by omega⟩

/-- The contract: blocks lie in their own pages, and share no byte. -/
structure BlocksApart (cfg : HugePagesConfig) (mgr : HugePagesMemoryMgr) : Prop where
  inPages : ∀ b ∈ mgr.mallocMem, ∀ x, InBlock mgr b x → InPages cfg mgr b x
  apart : ∀ b ∈ mgr.mallocMem, ∀ c ∈ mgr.mallocMem, b ≠ c → ∀ x, InBlock mgr b x → ¬ InBlock mgr c x

theorem RunInv.blocksApart (h : RunInv cfg mgr) (hsized : Sized cfg mgr) : BlocksApart cfg mgr := by
  obtain ⟨iovas, k, howns⟩ := h.owns
  have hin : ∀ b ∈ mgr.mallocMem, ∀ x, InBlock mgr b x → InPages cfg mgr b x :=
    fun b hb => (howns.inPages_iff hb).mpr (hsized b hb)
  refine ⟨hin, fun b hb c hc hne x hxb hxc => ?_⟩
  obtain ⟨i, hi, hib, hie⟩ := hin b hb x hxb
  obtain ⟨j, hj, hjb, hje⟩ := hin c hc x hxc
  have hij : i ≠ j := fun he => hne (howns.inv.block_unique hb hc hi (he ▸ hj))
  have hlt : ∀ b ∈ mgr.mallocMem, ∀ i ∈ mgr.block b, i < mgr.numPages :=
    fun b hb i hi => howns.inv.lt i (mem_owned.mpr (Or.inl ⟨b, hb, hi⟩))
  have hapart := howns.inv.pages_apart (h.apart.sublist (List.drop_sublist _ _))
    (hlt b hb i hi) (hlt c hc j hj) hij
  have hpages : (mgr.page i).vaddr + cfg.pageSize ≤ (mgr.page j).vaddr
      ∨ (mgr.page j).vaddr + cfg.pageSize ≤ (mgr.page i).vaddr := hapart
  omega

/-- A block that `malloc` returns has at least the size, and lies in its pages for such sizes only. -/
theorem Owns.covers_iff {size : Int} {direction : DMADirection} {hp : Nat → Nat}
    {mapFunc : Mapping → Except Exc Unit} {b : Nat} (h : Owns cfg iovas k mgr)
    (hok : malloc cfg size direction hp mapFunc mgr = .ok b mgr') :
    size ≤ (mgr'.page b).size
      ∧ ((∀ x, InBlock mgr' b x → InPages cfg mgr' b x) ↔ Covers cfg size) := by
  have hrun : MallocRun cfg mgr size direction hp mapFunc (.ok b mgr') := hok ▸ malloc_run
  cases hrun with
  | @block grown b iova linked freeIovas hfinds hle hfree hd hmap =>
      have howns := hfinds.owns h
      have hb : b ∈ (grown.withBlock b linked
          (mappingOf grown b iova (blockSize cfg size) direction) freeIovas).mallocMem :=
        List.mem_append_right _ List.mem_cons_self
      rw [(howns.withBlock hfinds hfree).inPages_iff hb,
        length_block_withBlock (hfinds.plain howns b List.mem_cons_self).2, hfinds.spec.2.1,
        withBlock_page_self]
      refine ⟨?_, blockSize_le_iff⟩
      show size ≤ (blockSize cfg size : Int)
      unfold blockSize
      split
      · omega
      · omega

/--
**Blocks and their pages.** As long as no call raises between marking pages and mapping
them, or between releasing and unmapping them, a block that is returned lies in its own pages
exactly if the size is a multiple of the page size or less than a page. If all sizes are, no
two live blocks share a byte.

The number of pages is rounded down, so a block may be longer than its pages. It then reaches
into pages that are free or another block's.
-/
theorem blocks_cover (cfg : HugePagesConfig) :
    (∀ mgr, (runs cfg).ReachableBy (Quiet cfg) mgr → ∀ size direction hp mapFunc b mgr',
      malloc cfg size direction hp mapFunc mgr = .ok b mgr' →
        size ≤ (mgr'.page b).size
        ∧ ((∀ x, InBlock mgr' b x → InPages cfg mgr' b x) ↔ Covers cfg size))
    ∧ ∀ mgr, (runs cfg).ReachableBy (fun mgr a => Quiet cfg mgr a ∧ Covered cfg a) mgr →
      BlocksApart cfg mgr := by
  constructor
  · intro mgr hr size direction hp mapFunc b mgr' hok
    obtain ⟨iovas, k, howns⟩ := (runInv_reachable hr).owns
    exact howns.covers_iff hok
  · intro mgr hr
    obtain ⟨hinv, hsized⟩ := sized_reachable hr
    exact hinv.blocksApart hsized

/-- A map function that accepts all is quiet as long as there is an IOVA. -/
theorem quiet_of_hasIova {size : Int} {direction : DMADirection} {hp : Nat → Nat}
    {mapFunc : Mapping → Except Exc Unit} (hiova : HasIova cfg mgr size)
    (hd : direction ≠ .bidirectional) (hmap : ∀ m, mapFunc m = .ok ()) :
    Quiet cfg mgr (.malloc size direction hp mapFunc) :=
  fun _ _ _ _ => ⟨fun _ => ⟨hd, fun _ _ => hmap _⟩, fun hnot => absurd hiova hnot⟩

/-- A new manager of 2 MiB hugepages at fixed addresses. -/
def start (cfg : HugePagesConfig) : Option HugePagesMemoryMgr :=
  (new cfg (fun _ => 0) fun _ => 0x200000).toOption

theorem init_start (h : start cfg = some mgr) : (runs cfg).init mgr :=
  ⟨_, _, toOption_eq_some h⟩

/-- A block of two pages in a new manager. -/
theorem blocks_cover_two_pages :
    ∃ mgr b mgr', start smallPages = some mgr
      ∧ malloc smallPages 8192 .hostToDevice (fun _ => 0) (fun _ => .ok ()) mgr = .ok b mgr'
      ∧ (∀ x, InBlock mgr' b x → InPages smallPages mgr' b x)
      ∧ mgr'.mallocMem = [b] ∧ BlocksApart smallPages mgr' := by
  have hsome : (start smallPages).map (fun mgr =>
      match malloc smallPages 8192 .hostToDevice (fun _ => 0) (fun _ => .ok ()) mgr with
      | .ok b left => (mgr.freeIovas == [], left.mallocMem == [b],
          decide (left.allocatedMemory.Pairwise RegionsApart))
      | .error _ _ => (true, false, false)) = some (false, true, true) := by
    decide +kernel
  -- the call returns a block, and the region it maps is apart from the first
  obtain ⟨mgr, hstart, hmgr⟩ := Option.map_eq_some_iff.mp hsome
  cases hmalloc : malloc smallPages 8192 .hostToDevice (fun _ => 0) (fun _ => .ok ()) mgr with
  | error e left =>
      rw [hmalloc] at hmgr
      exact absurd (Prod.mk.inj hmgr).1 (by simp)
  | ok b mgr' =>
      rw [hmalloc] at hmgr
      obtain ⟨hiovas, hmem, hapart⟩ : _ ∧ _ ∧ _ :=
        ⟨(Prod.mk.inj hmgr).1, (Prod.mk.inj (Prod.mk.inj hmgr).2).1, (Prod.mk.inj (Prod.mk.inj hmgr).2).2⟩
      have hiova : HasIova smallPages mgr 8192 :=
        ⟨by decide, fun he => absurd (he ▸ hiovas) (by decide)⟩
      have hquiet := @quiet_of_hasIova _ mgr 8192 .hostToDevice (fun _ => 0) (fun _ => .ok ()) hiova
        (by decide) fun _ => rfl
      have hstep : step smallPages mgr (.malloc 8192 .hostToDevice (fun _ => 0) fun _ => .ok ())
          = some mgr' := by
        have hcall : call smallPages mgr (.malloc 8192 .hostToDevice (fun _ => 0) fun _ => .ok ())
            = some mgr' := congrArg (fun r => some (leaves r)) hmalloc
        unfold step
        rw [hcall]
        exact if_pos (of_decide_eq_true hapart)
      have hr : (runs smallPages).ReachableBy
          (fun mgr a => Quiet smallPages mgr a ∧ Covered smallPages a) mgr := .init (init_start hstart)
      exact ⟨mgr, b, mgr', hstart, hmalloc,
        ((blocks_cover smallPages).1 mgr (.init (init_start hstart)) _ _ _ _ _ _ hmalloc).2.mpr
          (Or.inr (by decide)),
        beq_iff_eq.mp hmem,
        (blocks_cover smallPages).2 mgr' (hr.tail ⟨hquiet, Or.inr (by decide)⟩ hstep)⟩

/-- A hundred entries of 64 bytes need two pages, and get one. -/
theorem not_inPages_hundred_entries :
    ∃ mgr b mgr', (runs smallPages).Reachable mgr
      ∧ malloc smallPages 6400 .hostToDevice (fun _ => 0) (fun _ => .ok ()) mgr = .ok b mgr'
      ∧ ¬ ∀ x, InBlock mgr' b x → InPages smallPages mgr' b x := by
  have hsome : (start smallPages).map (fun mgr =>
      match malloc smallPages 6400 .hostToDevice (fun _ => 0) (fun _ => .ok ()) mgr with
      | .ok _ _ => true
      | .error _ _ => false) = some true := by
    decide +kernel
  obtain ⟨mgr, hstart, hmgr⟩ := Option.map_eq_some_iff.mp hsome
  cases hmalloc : malloc smallPages 6400 .hostToDevice (fun _ => 0) (fun _ => .ok ()) mgr with
  | error e left =>
      rw [hmalloc] at hmgr
      exact absurd hmgr (by simp)
  | ok b mgr' =>
      obtain ⟨iovas, k, howns⟩ := (runInv_init (init_start hstart)).1.owns
      refine ⟨mgr, b, mgr', .init (init_start hstart), hmalloc, fun hall => ?_⟩
      exact absurd ((howns.covers_iff hmalloc).2.mp hall) (by decide)

/-! ## Giving back the hugepages -/

/--
**When `free_all` gives back every hugepage.** In any state: exactly if every live block
can be freed and unmapped and there is at most one hugepage. As long as no call raises between
marking pages and mapping them, or between releasing and unmapping them, every live block
can be freed.

The last loop removes each region from the list that it walks, and so keeps every other one.
-/
theorem freesAllMemory_iff (cfg : HugePagesConfig) :
    (∀ mgr unmapFunc, FreesAll cfg mgr unmapFunc ↔ AllFreeable mgr
        ∧ (∀ b ∈ mgr.mallocMem, Unmaps cfg mgr unmapFunc b) ∧ mgr.allocatedMemory.length ≤ 1)
    ∧ ∀ mgr, (runs cfg).ReachableBy (Quiet cfg) mgr → AllFreeable mgr := by
  constructor
  · exact fun mgr unmapFunc => freesAll_iff_allFreeable
  · intro mgr hr
    obtain ⟨iovas, k, howns⟩ := (runInv_reachable hr).owns
    exact howns.allFreeable

theorem freesAllMemory_iff_new :
    ∃ mgr, start smallPages = some mgr ∧ FreesAll smallPages mgr fun _ _ => .ok () := by
  have hsome : (start smallPages).map (fun mgr => mgr.allocatedMemory.length) = some 1 := by
    decide +kernel
  obtain ⟨mgr, hstart, hmgr⟩ := Option.map_eq_some_iff.mp hsome
  refine ⟨mgr, hstart, ((freesAllMemory_iff smallPages).1 mgr _).mpr ⟨?_, fun _ _ => rfl, hmgr.le⟩⟩
  exact (freesAllMemory_iff smallPages).2 mgr (.init (init_start hstart))

/-- Pages of 512 KiB: four in a hugepage. -/
def largePages : HugePagesConfig where
  pageSize := 0x80000
  scPageSize := 4096
  hugepagesSize := 0x200000
  iovaRanges := [(0, 0x10000000000)]
  pageSize_pos := by decide
  hugepagesSize_pos := smallPages.hugepagesSize_pos

/-- A fifth page takes another hugepage, and one of the two is not given back. -/
theorem not_freesAll_two_hugepages :
    ∃ mgr, (runs largePages).Reachable mgr ∧ ¬ FreesAll largePages mgr fun _ _ => .ok () := by
  have hsome : ((start largePages).bind fun mgr =>
      (runs largePages).run mgr [.mallocPages 5 fun _ => 0x400000]).map
      (fun mgr => mgr.allocatedMemory.length) = some 2 := by
    decide +kernel
  obtain ⟨mgr, hrun, hmgr⟩ := Option.map_eq_some_iff.mp hsome
  obtain ⟨mgr₀, hstart, hrun⟩ := Option.bind_eq_some_iff.mp hrun
  refine ⟨mgr, (Machine.Reachable.start (init_start hstart)).run _ hrun, fun hall => ?_⟩
  have hlen := (freesAll_iff_allFreeable.mp hall).2.2
  omega

end Calls

end HugePagesMemoryMgr

end LoneNvme
