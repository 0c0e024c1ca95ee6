import LoneNvme.HugePagesCalls

/-!
# Freeing everything

`free_all` frees the live blocks, forgets the pages, and then walks the list of hugepages
while it removes from it. A block that cannot be freed or unmapped stops it; otherwise all
hugepages are given back exactly if there is at most one.

Each block costs one turn, and what `free` does to a block depends on its own pages only. So
whether all blocks can be freed is decided by the state before the first turn: `AllFreeable`
says it once, and the induction (`freeBlocks_run`) shows that freeing one block takes nothing
from what is said about the others.
-/

namespace LoneNvme

open Lib

namespace HugePagesMemoryMgr

namespace Calls

variable {cfg : HugePagesConfig} {mgr : HugePagesMemoryMgr}
  {unmapFunc : (iova size : Nat) → Except Exc Unit}

/-! ## How a call of `free` ends -/

/-- The pages of a list, released. -/
def released (cfg : HugePagesConfig) (mgr : HugePagesMemoryMgr) (linked : List Nat) :
    HugePagesMemoryMgr :=
  { mgr with page := fun i => if i ∈ linked then (mgr.page i).release cfg.pageSize else mgr.page i }

theorem released_cons {i : Nat} {linked : List Nat} (hi : i ∉ linked) :
    released cfg (mgr.setPage i ((mgr.page i).release cfg.pageSize)) linked
      = released cfg mgr (i :: linked) := by
  unfold released setPage
  congr 1
  funext j
  by_cases hij : j = i
  · rw [hij, if_neg hi, if_pos List.mem_cons_self]
    exact Function.update_self _ _ _
  · dsimp only
    rw [Function.update_of_ne hij]
    simp only [List.mem_cons, hij, false_or]

theorem check_false_bind {α : Type} {msg : String} {k : Unit → Call α} :
    (check false msg >>= k) mgr = .error (.assertionError msg) mgr := rfl

/-- The loop over the links succeeds if all are in use, and none is listed twice. -/
theorem freeLinks_run {linked : List Nat} :
    (linked.Nodup ∧ (∀ i ∈ linked, (mgr.page i).inUse = true)
        ∧ freeLinks cfg linked mgr = .ok () (released cfg mgr linked))
      ∨ ¬ (linked.Nodup ∧ ∀ i ∈ linked, (mgr.page i).inUse = true)
        ∧ ∃ e left, freeLinks cfg linked mgr = .error e left := by
  induction linked generalizing mgr with
  | nil => exact Or.inl ⟨List.nodup_nil, fun i hi => absurd hi List.not_mem_nil, rfl⟩
  | cons i linked ih =>
      rw [freeLinks, run_get_bind]
      cases huse : (mgr.page i).inUse with
      | false =>
          refine Or.inr ⟨fun h => ?_, _, _, check_false_bind⟩
          exact absurd (huse.symm.trans (h.2 i List.mem_cons_self)) Bool.false_ne_true
      | true =>
          rw [check_true_bind]
          show _ ∨ _ ∧ ∃ e left, freeLinks cfg linked _ = _
          have hset : ∀ j, j ≠ i →
              (mgr.setPage i ((mgr.page i).release cfg.pageSize)).page j = mgr.page j :=
            fun j hne => setPage_of_ne _ hne
          rcases @ih (mgr.setPage i ((mgr.page i).release cfg.pageSize)) with
            ⟨hnodup, hall, hrun⟩ | ⟨hnot, hrun⟩
          · -- the page itself is not in use any more
            have hi : i ∉ linked := fun hin => by
              have hin := hall i hin
              rw [setPage_self] at hin
              exact absurd hin Bool.false_ne_true
            refine Or.inl ⟨List.nodup_cons.mpr ⟨hi, hnodup⟩, fun j hj => ?_, ?_⟩
            · rcases List.mem_cons.mp hj with rfl | hj
              · exact huse
              · rw [← hset j (ne_of_mem_of_not_mem hj hi)]
                exact hall j hj
            · rw [← released_cons hi]
              exact hrun
          · refine Or.inr ⟨fun h => hnot ⟨(List.nodup_cons.mp h.1).2, fun j hj => ?_⟩, hrun⟩
            rw [hset j (ne_of_mem_of_not_mem hj (List.nodup_cons.mp h.1).1)]
            exact h.2 j (List.mem_cons_of_mem _ hj)

/-- What `free` asks of a block. -/
structure Freeable (mgr : HugePagesMemoryMgr) (b : Nat) : Prop where
  nodup : (mgr.block b).Nodup
  inUse : ∀ i ∈ mgr.block b, (mgr.page i).inUse = true
  mapped : (mgr.page b).iovaMapped = true
  live : b ∈ mgr.mallocMem

/-- The manager once a released block is unmapped and forgotten. -/
def forgotten (mgr : HugePagesMemoryMgr) (b : Nat) : HugePagesMemoryMgr :=
  { mgr.setPage b { mgr.page b with iovaMapped := false } with
    iommu := unmap mgr.iommu (mgr.page b).iova (mgr.page b).size
    unmapped := ((mgr.page b).iova, (mgr.page b).size) :: mgr.unmapped
    freeIovas := mgr.freeIovas ++ [(mgr.page b).iova]
    mem := mgr.mem.fill (mgr.page b).vaddr (mgr.page b).size 0
    mallocMem := mgr.mallocMem.erase b }

theorem unmapBlock_run {b : Nat} :
    ((mgr.page b).iovaMapped = true ∧ unmapFunc (mgr.page b).iova (mgr.page b).size = .ok ()
        ∧ b ∈ mgr.mallocMem ∧ unmapBlock unmapFunc b mgr = .ok () (forgotten mgr b))
      ∨ ¬ ((mgr.page b).iovaMapped = true ∧ unmapFunc (mgr.page b).iova (mgr.page b).size = .ok ()
          ∧ b ∈ mgr.mallocMem)
        ∧ ∃ e left, unmapBlock unmapFunc b mgr = .error e left := by
  unfold unmapBlock
  rw [run_get_bind]
  -- the three steps of the source, each of which may raise
  cases hmapped : (mgr.page b).iovaMapped with
  | false => exact Or.inr ⟨fun h => Bool.false_ne_true h.1, _, _, check_false_bind⟩
  | true =>
      rw [check_true_bind]
      dsimp only
      cases unmapFunc (mgr.page b).iova (mgr.page b).size with
      | error e => exact Or.inr ⟨fun h => absurd h.2.1 (by simp), e, mgr, outcome_error_bind⟩
      | ok u =>
          rw [outcome_ok_bind]
          show _ ∨ _ ∧ ∃ e left, (if b ∈ mgr.mallocMem then _ else _ : Call Unit) _ = _
          by_cases hb : b ∈ mgr.mallocMem
          · refine Or.inl ⟨rfl, rfl, hb, ?_⟩
            show (if b ∈ mgr.mallocMem then _ else _ : Call Unit) _ = _
            rw [if_pos hb]
            rfl
          · rw [if_neg hb]
            exact Or.inr ⟨fun h => hb h.2.2, _, _, rfl⟩

/-- The manager once the links of `b`, and then `b`, are released. -/
def unlinked (cfg : HugePagesConfig) (mgr : HugePagesMemoryMgr) (b : Nat) : HugePagesMemoryMgr :=
  ((released cfg mgr (mgr.page b).linkedMem).setPage b { mgr.page b with linkedMem := [] }).setPage b
    ({ mgr.page b with linkedMem := [] }.release cfg.pageSize)

theorem unlinked_page_self {b : Nat} : (unlinked cfg mgr b).page b
    = { mgr.page b with linkedMem := [] }.release cfg.pageSize := setPage_self _ _ _

theorem forgotten_unlinked {b : Nat} : forgotten (unlinked cfg mgr b) b = mgr.withoutBlock cfg b := by
  unfold forgotten
  rw [unlinked_page_self]
  unfold unlinked setPage
  dsimp only [MemPage.release]
  rw [Function.update_idem, Function.update_idem, withoutBlock]
  congr 1
  funext i
  by_cases hi : i = b
  · rw [hi, Function.update_self, if_pos rfl]
    rfl
  · rw [Function.update_of_ne hi, if_neg hi]
    rfl

/-- The unmap function returns for the block `b`. -/
def Unmaps (cfg : HugePagesConfig) (mgr : HugePagesMemoryMgr)
    (unmapFunc : (iova size : Nat) → Except Exc Unit) (b : Nat) : Prop :=
  unmapFunc (mgr.page b).iova cfg.pageSize = .ok ()

/-- **How `free` ends.** -/
theorem free_run {b : Nat} :
    (Freeable mgr b ∧ Unmaps cfg mgr unmapFunc b
        ∧ free cfg unmapFunc b mgr = .ok () (mgr.withoutBlock cfg b))
      ∨ ¬ (Freeable mgr b ∧ Unmaps cfg mgr unmapFunc b)
        ∧ ∃ e left, free cfg unmapFunc b mgr = .error e left := by
  unfold free
  rw [run_get_bind]
  rcases @freeLinks_run cfg mgr (mgr.page b).linkedMem with ⟨hnodup, hall, hrun⟩ | ⟨hnot, e, left, hrun⟩
  · rw [run_bind_ok hrun, run_modify_bind, run_get_bind, setPage_self]
    by_cases hb : b ∈ (mgr.page b).linkedMem
    · -- a block among its own links is not in use after the loop
      have hself : (released cfg mgr (mgr.page b).linkedMem).page b
          = (mgr.page b).release cfg.pageSize := if_pos hb
      rw [hself]
      exact Or.inr ⟨fun h => absurd hb (List.nodup_cons.mp h.1.nodup).1, _, _, check_false_bind⟩
    · have hself : (released cfg mgr (mgr.page b).linkedMem).page b = mgr.page b := if_neg hb
      rw [hself]
      cases huse : (mgr.page b).inUse with
      | false =>
          refine Or.inr ⟨fun h => ?_, _, _, check_false_bind⟩
          exact absurd (huse.symm.trans (h.1.inUse b List.mem_cons_self)) Bool.false_ne_true
      | true =>
          dsimp only
          rw [check_true_bind, run_modify_bind, setPage_self]
          -- every check but the mapping has passed
          show _ ∧ _ ∧ unmapBlock unmapFunc b (unlinked cfg mgr b) = _
            ∨ _ ∧ ∃ e left, unmapBlock unmapFunc b (unlinked cfg mgr b) = _
          have hpage : ((unlinked cfg mgr b).page b).iovaMapped = (mgr.page b).iovaMapped := by
            rw [unlinked_page_self]
            rfl
          -- the size has been reset by now
          have hargs : unmapFunc ((unlinked cfg mgr b).page b).iova ((unlinked cfg mgr b).page b).size
              = unmapFunc (mgr.page b).iova cfg.pageSize := by
            rw [unlinked_page_self]
            rfl
          rcases @unmapBlock_run (unlinked cfg mgr b) unmapFunc b with
            ⟨hmapped, hunmaps, hlive, hrun⟩ | ⟨hnot, hrun⟩
          · rw [hpage] at hmapped
            rw [hargs] at hunmaps
            rw [forgotten_unlinked] at hrun
            refine Or.inl ⟨⟨List.nodup_cons.mpr ⟨hb, hnodup⟩, fun i hi => ?_, hmapped, hlive⟩,
              hunmaps, hrun⟩
            rcases List.mem_cons.mp hi with rfl | hi
            · exact huse
            · exact hall i hi
          · exact Or.inr ⟨fun h => hnot ⟨hpage.trans h.1.mapped, hargs.trans h.2, h.1.live⟩, hrun⟩
  · rw [run_bind_error hrun]
    refine Or.inr ⟨fun h => hnot ⟨(List.nodup_cons.mp h.1.nodup).2, fun i hi => ?_⟩, e, left, rfl⟩
    exact h.1.inUse i (List.mem_cons_of_mem _ hi)

/-! ## Freeing the live blocks -/

/-- Every live block can be freed, and they share no page. -/
structure AllFreeable (mgr : HugePagesMemoryMgr) : Prop where
  nodup : (mgr.mallocMem.flatMap mgr.block).Nodup
  inUse : ∀ b ∈ mgr.mallocMem, ∀ i ∈ mgr.block b, (mgr.page i).inUse = true
  mapped : ∀ b ∈ mgr.mallocMem, (mgr.page b).iovaMapped = true

theorem not_inUse_withoutBlock {b i : Nat} (hi : i ∈ mgr.block b) :
    ((mgr.withoutBlock cfg b).page i).inUse = false := by
  by_cases hib : i = b
  · rw [hib, withoutBlock_page_self]
    rfl
  · rw [withoutBlock_page_linked hib ((List.mem_cons.mp hi).resolve_left hib)]
    rfl

/-- Freeing the first live block does not decide about the others. -/
theorem allFreeable_cons {b : Nat} {bs : List Nat} (hbs : mgr.mallocMem = b :: bs) :
    AllFreeable mgr ↔ Freeable mgr b ∧ AllFreeable (mgr.withoutBlock cfg b) := by
  have hrest : (mgr.withoutBlock cfg b).mallocMem = bs := by
    show mgr.mallocMem.erase b = bs
    rw [hbs, List.erase_cons_head]
  have hhead : b ∈ mgr.mallocMem := hbs ▸ List.mem_cons_self
  have htail : ∀ c ∈ bs, c ∈ mgr.mallocMem := fun c hc => hbs ▸ List.mem_cons_of_mem b hc
  -- blocks that share no page with `b` stay as they are
  have hsame : ∀ c, (∀ i ∈ mgr.block c, i ∉ mgr.block b) →
      (mgr.withoutBlock cfg b).block c = mgr.block c := by
    intro c hc
    rw [block, block, withoutBlock_page_other (hc c List.mem_cons_self)]
  constructor
  · intro h
    have hnodup := h.nodup
    rw [hbs, List.flatMap_cons, List.nodup_append] at hnodup
    obtain ⟨hown, hnodup, hapart⟩ := hnodup
    have hother : ∀ c ∈ bs, ∀ i ∈ mgr.block c, i ∉ mgr.block b := fun c hc i hi hib =>
      hapart i hib i (List.mem_flatMap.mpr ⟨c, hc, hi⟩) rfl
    refine ⟨⟨hown, h.inUse b hhead, h.mapped b hhead, hhead⟩, ?_, fun c hc i hi => ?_, fun c hc => ?_⟩
    · rw [hrest, List.flatMap_congr fun c hc => hsame c (hother c hc)]
      exact hnodup
    · rw [hrest] at hc
      rw [hsame c (hother c hc)] at hi
      rw [withoutBlock_page_other (hother c hc i hi)]
      exact h.inUse c (htail c hc) i hi
    · rw [hrest] at hc
      rw [withoutBlock_page_other (hother c hc c List.mem_cons_self)]
      exact h.mapped c (htail c hc)
  · rintro ⟨hb, h⟩
    -- what is in use afterwards is not a page of `b`
    have hused : ∀ c ∈ bs, ∀ i ∈ (mgr.withoutBlock cfg b).block c, i ∉ mgr.block b := by
      intro c hc i hi hib
      exact Bool.false_ne_true
        ((not_inUse_withoutBlock hib).symm.trans (h.inUse c (hrest ▸ hc) i hi))
    have hblock : ∀ c ∈ bs, (mgr.withoutBlock cfg b).block c = mgr.block c := by
      intro c hc
      rw [block, block, withoutBlock_page_other (hused c hc c List.mem_cons_self)]
    have hother : ∀ c ∈ bs, ∀ i ∈ mgr.block c, i ∉ mgr.block b :=
      fun c hc i hi => hused c hc i ((hblock c hc).symm ▸ hi)
    refine ⟨?_, fun c hc i hi => ?_, fun c hc => ?_⟩
    · rw [hbs, List.flatMap_cons, List.nodup_append]
      refine ⟨hb.nodup, ?_, fun i hi j hj he => ?_⟩
      · rw [← List.flatMap_congr hblock, ← hrest]
        exact h.nodup
      · obtain ⟨c, hc, hj⟩ := List.mem_flatMap.mp hj
        exact hother c hc j hj (he ▸ hi)
    · rw [hbs] at hc
      rcases List.mem_cons.mp hc with rfl | hc
      · exact hb.inUse i hi
      · rw [← @withoutBlock_page_other cfg mgr b i (hother c hc i hi)]
        exact h.inUse c (hrest ▸ hc) i ((hblock c hc).symm ▸ hi)
    · rw [hbs] at hc
      rcases List.mem_cons.mp hc with rfl | hc
      · exact hb.mapped
      · rw [← @withoutBlock_page_other cfg mgr b c (hother c hc c List.mem_cons_self)]
        exact h.mapped c (hrest ▸ hc)

/-- Freeing a block gives no other block another IOVA. -/
theorem unmaps_withoutBlock {b c : Nat} :
    Unmaps cfg (mgr.withoutBlock cfg b) unmapFunc c ↔ Unmaps cfg mgr unmapFunc c := by
  have hiova : ((mgr.withoutBlock cfg b).page c).iova = (mgr.page c).iova := by
    by_cases hcb : c = b
    · rw [hcb, withoutBlock_page_self]
      rfl
    · by_cases hc : c ∈ (mgr.page b).linkedMem
      · rw [withoutBlock_page_linked hcb hc]
        rfl
      · rw [withoutBlock_page_other fun hin => (List.mem_cons.mp hin).elim hcb hc]
  unfold Unmaps
  rw [hiova]

/-- What freeing a live block keeps, freeing all keeps; and the hugepages are not touched. -/
theorem freeBlocks_run {P : HugePagesMemoryMgr → Prop}
    (hstep : ∀ mgr b, b ∈ mgr.mallocMem → P mgr → P (mgr.withoutBlock cfg b)) {bs : List Nat}
    (hbs : mgr.mallocMem = bs) (h : P mgr) :
    ((AllFreeable mgr ∧ ∀ b ∈ bs, Unmaps cfg mgr unmapFunc b)
        ∧ ∃ left, freeBlocks cfg unmapFunc bs mgr = .ok () left ∧ left.mallocMem = []
          ∧ left.allocatedMemory = mgr.allocatedMemory ∧ P left)
      ∨ ¬ (AllFreeable mgr ∧ ∀ b ∈ bs, Unmaps cfg mgr unmapFunc b)
        ∧ ∃ e left, freeBlocks cfg unmapFunc bs mgr = .error e left := by
  induction bs generalizing mgr with
  | nil =>
      refine Or.inl ⟨⟨⟨?_, fun b hb => ?_, fun b hb => ?_⟩, fun b hb => absurd hb List.not_mem_nil⟩,
        mgr, rfl, hbs, rfl, h⟩
      · rw [hbs]
        exact List.nodup_nil
      · exact absurd (hbs ▸ hb) List.not_mem_nil
      · exact absurd (hbs ▸ hb) List.not_mem_nil
  | cons b bs ih =>
      have hb : b ∈ mgr.mallocMem := hbs ▸ List.mem_cons_self
      have hrest : (mgr.withoutBlock cfg b).mallocMem = bs := by
        show mgr.mallocMem.erase b = bs
        rw [hbs, List.erase_cons_head]
      rw [@allFreeable_cons cfg mgr b bs hbs, freeBlocks]
      rcases @free_run cfg mgr unmapFunc b with ⟨hfree, hunmaps, hrun⟩ | ⟨hnot, e, left, hrun⟩
      · rw [run_bind_ok hrun]
        rcases ih hrest (hstep mgr b hb h) with ⟨⟨hall, hothers⟩, left, hleft⟩ | ⟨hnot, e, left, hleft⟩
        · refine Or.inl ⟨⟨⟨hfree, hall⟩, fun c hc => ?_⟩, left, hleft⟩
          rcases List.mem_cons.mp hc with rfl | hc
          · exact hunmaps
          · exact unmaps_withoutBlock.mp (hothers c hc)
        · refine Or.inr ⟨fun hall => hnot ⟨hall.1.2, fun c hc => ?_⟩, e, left, hleft⟩
          exact unmaps_withoutBlock.mpr (hall.2 c (List.mem_cons_of_mem b hc))
      · rw [run_bind_error hrun]
        exact Or.inr ⟨fun hall => hnot ⟨hall.1.1, hall.2 b List.mem_cons_self⟩, e, left, rfl⟩

/-! ## Freeing the hugepages -/

/-- The calls of `hugepages.free` and the list that is left. -/
theorem freeHugepages_run : freeHugepages mgr
    = .ok ((sweep mgr.allocatedMemory 0).1.map Prod.fst)
        { mgr with allocatedMemory := (sweep mgr.allocatedMemory 0).2 } := by
  have hfold : ∀ (rs : List (Nat × Nat)) (calls : List Nat),
      rs.foldlM (fun (calls : List Nat) (r : Nat × Nat) => (.ok (calls ++ [r.1]) : Except Exc _)) calls
        = .ok (calls ++ rs.map Prod.fst) := by
    intro rs
    induction rs with
    | nil => exact fun calls => by rw [List.map_nil, List.append_nil]; rfl
    | cons r rs ih =>
        intro calls
        rw [List.foldlM_cons, List.map_cons]
        exact (ih (calls ++ [r.1])).trans (by rw [List.append_assoc]; rfl)
  unfold freeHugepages
  rw [run_get_bind, forRemoving_eq, hfold]
  rfl

/-- The contract: each hugepage is given back once, and nothing is left. -/
def FreesAll (cfg : HugePagesConfig) (mgr : HugePagesMemoryMgr)
    (unmapFunc : (iova size : Nat) → Except Exc Unit) : Prop :=
  ∃ calls left, freeAll cfg unmapFunc mgr = .ok calls left
    ∧ calls.Perm (mgr.allocatedMemory.map Prod.fst)
    ∧ left.allocatedMemory = [] ∧ left.numPages = 0 ∧ left.mallocMem = []

/-- **How `free_all` ends**, with what freeing a live block keeps. -/
theorem freeAll_run {P : HugePagesMemoryMgr → Prop}
    (hstep : ∀ mgr b, b ∈ mgr.mallocMem → P mgr → P (mgr.withoutBlock cfg b)) (h : P mgr) :
    ((AllFreeable mgr ∧ ∀ b ∈ mgr.mallocMem, Unmaps cfg mgr unmapFunc b)
        ∧ ∃ freed, freed.mallocMem = [] ∧ freed.allocatedMemory = mgr.allocatedMemory ∧ P freed
          ∧ freeAll cfg unmapFunc mgr = .ok ((sweep mgr.allocatedMemory 0).1.map Prod.fst)
            { freed with
              numPages := 0, handedOut := [], allocatedMemory := (sweep mgr.allocatedMemory 0).2 })
      ∨ ¬ (AllFreeable mgr ∧ ∀ b ∈ mgr.mallocMem, Unmaps cfg mgr unmapFunc b)
        ∧ ∃ e left, freeAll cfg unmapFunc mgr = .error e left := by
  unfold freeAll
  rw [run_get_bind]
  rcases freeBlocks_run hstep rfl h with ⟨hall, freed, hrun, hmem, halloc, hp⟩ | ⟨hnot, e, left, hrun⟩
  · rw [run_bind_ok hrun, run_modify_bind, run_bind_ok freeHugepages_run, run_get_bind]
    refine Or.inl ⟨hall, freed, hmem, halloc, hp, ?_⟩
    dsimp only
    rw [hmem, halloc]
    rfl
  · rw [run_bind_error hrun]
    exact Or.inr ⟨hnot, e, left, rfl⟩

/-- **When `free_all` frees all**, in any state. -/
theorem freesAll_iff_allFreeable :
    FreesAll cfg mgr unmapFunc ↔ AllFreeable mgr ∧ (∀ b ∈ mgr.mallocMem, Unmaps cfg mgr unmapFunc b)
      ∧ mgr.allocatedMemory.length ≤ 1 := by
  rw [← and_assoc]
  rcases @freeAll_run cfg mgr unmapFunc (fun _ => True) (fun _ _ _ _ => trivial) trivial with
    ⟨hall, freed, hmem, halloc, _, hrun⟩ | ⟨hnot, e, left, hrun⟩
  · constructor
    · rintro ⟨calls, left, hok, _, hempty, _⟩
      rw [hrun] at hok
      injection hok with _ hleft
      rw [← hleft] at hempty
      exact ⟨hall, sweep_left_eq_nil.mp hempty⟩
    · rintro ⟨_, hlen⟩
      exact ⟨_, _, hrun, (sweep_visited_perm.mpr hlen).map Prod.fst, sweep_left_eq_nil.mpr hlen, rfl,
        hmem⟩
  · refine iff_of_false ?_ fun h => hnot h.1
    rintro ⟨calls, left', hok, _⟩
    exact absurd (hrun.symm.trans hok) (by simp)

end Calls

end HugePagesMemoryMgr

end LoneNvme
