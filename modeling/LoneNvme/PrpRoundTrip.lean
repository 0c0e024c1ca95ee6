import LoneNvme.PrpEnds
import Mathlib.Data.List.Nodup

/-!
# A buffer written and read back

Here the program and the device may address a page differently, as they do with the
hugepage memory manager. `get_data_segments` recognises pages by their device address,
so what it finds depends on these being distinct, and the transfers on the pages sharing
no byte. Both hold of what a memory manager hands out. The buffer then keeps its data if
it is one page, or more than two pages and the data whole pages: the second of two pages
is read as a list, and is never among the segments.
-/

namespace LoneNvme

open Lib

namespace PRP

variable {mps : Nat} {mem mem' : Mem} {prp : PRP}

/-- Pages as a memory manager hands them out; neither manager gives out address zero. -/
structure Fresh (mps : Nat) (pages : List MemoryLocation) : Prop where
  size : ∀ s ∈ pages, s.size = mps
  ne_zero : ∀ s ∈ pages, s.iova ≠ 0
  lt : ∀ s ∈ pages, s.iova < 2 ^ 64
  distinct : (pages.map MemoryLocation.iova).Nodup
  apart : pages.Pairwise (Apart mps)

instance (mps : Nat) (pages : List MemoryLocation) : Decidable (Fresh mps pages) :=
  decidable_of_iff ((∀ s ∈ pages, s.size = mps) ∧ (∀ s ∈ pages, s.iova ≠ 0)
      ∧ (∀ s ∈ pages, s.iova < 2 ^ 64) ∧ (pages.map MemoryLocation.iova).Nodup
      ∧ pages.Pairwise (Apart mps))
    ⟨fun h => ⟨h.1, h.2.1, h.2.2.1, h.2.2.2.1, h.2.2.2.2⟩,
      fun h => ⟨h.size, h.ne_zero, h.lt, h.distinct, h.apart⟩⟩

/--
The buffer keeps `data`: filling it does not raise, reading it gives the data back and
at least the bytes it was made for, and the list page is what it was.
-/
def RoundTrips (prp : PRP) (mem : Mem) (data : List (BitVec 8)) : Prop :=
  ∃ mem' out, prp.setDataBuffer mem data = .ok mem' ∧ prp.getDataBuffer mem' = .ok out
    ∧ out.take data.length = data ∧ prp.numBytes ≤ out.length
    ∧ (2 < prp.pagesNeeded → ∀ s ∈ prp.memList, s.iova = prp.prp2 →
        mem'.load s.vaddr prp.mps = mem.load s.vaddr prp.mps)

/-! ## The pages found by their addresses -/

/-- Distinct addresses name their pages. -/
theorem filter_iova {pages : List MemoryLocation} (hd : (pages.map MemoryLocation.iova).Nodup)
    {s : MemoryLocation} (hs : s ∈ pages) : (pages.filter fun p => p.iova = s.iova) = [s] := by
  induction pages with
  | nil => exact absurd hs (by simp)
  | cons p pages ih =>
      rw [List.map_cons, List.nodup_cons] at hd
      rcases List.mem_cons.mp hs with rfl | hs
      · have hnone : (pages.filter fun p => p.iova = s.iova) = [] := by
          rw [List.filter_eq_nil_iff]
          intro p hp he
          exact hd.1 (of_decide_eq_true he ▸ List.mem_map_of_mem hp)
        rw [List.filter_cons_of_pos (by exact decide_eq_true rfl), hnone]
      · have hne : p.iova ≠ s.iova := fun he => hd.1 (he ▸ List.mem_map_of_mem hs)
        rw [List.filter_cons_of_neg (by simpa using hne), ih hd.2 hs]

/-- Pages that are neither the first nor at PRP2 contribute nothing of their own. -/
theorem segmentsLoop_unlisted :
    ∀ {pages : List MemoryLocation}, (∀ s ∈ pages, prp.prp1 ≠ s.iova ∧ prp.prp2 ≠ s.iova) →
      prp.segmentsLoop mem pages = .ok [] := by
  intro pages
  induction pages with
  | nil => exact fun _ => rfl
  | cons s pages ih =>
      intro h
      obtain ⟨h1, h2⟩ := h s List.mem_cons_self
      rw [segmentsLoop_cons, ih fun t ht => h t (List.mem_cons_of_mem s ht), pageSegments,
        if_neg h2, if_neg h1]
      rfl

/-- **One page.** -/
theorem getDataSegments_one {a : MemoryLocation} (h1 : prp.prp1 = a.iova) (h2 : prp.prp2 = 0)
    (ha : a.iova ≠ 0) (hlist : prp.memList = [a]) : prp.getDataSegments mem = .ok [a] := by
  rw [getDataSegments, hlist, segmentsLoop_cons, pageSegments,
    if_neg (by rw [h2]; exact fun h => ha h.symm), if_pos h1]
  rfl

/-- **A first page and the pages that the page at PRP2 lists.** -/
theorem getDataSegments_listed {a l : MemoryLocation} {segments : List MemoryLocation} {r : Nat}
    (h1 : prp.prp1 = a.iova) (h2 : prp.prp2 = l.iova) (hlist : prp.memList = a :: l :: segments)
    (hfresh : Fresh prp.mps prp.memList)
    (hwords : mem.words l.vaddr (prp.mps / 8)
      = segments.map MemoryLocation.iova ++ List.replicate r 0) :
    prp.getDataSegments mem = .ok (a :: segments) := by
  have hdistinct := hfresh.distinct
  rw [hlist, List.map_cons, List.map_cons, List.nodup_cons, List.nodup_cons] at hdistinct
  obtain ⟨hal, hl, _⟩ := hdistinct
  have hla : l.iova ≠ a.iova := fun h => hal (h ▸ List.mem_cons_self)
  have hentries : prp.listSegments (mem.words l.vaddr (prp.mps / 8)) = .ok segments := by
    rw [hwords]
    refine listSegments_eq r fun s hs => ?_
    have hs' : s ∈ prp.memList := by
      rw [hlist]
      exact List.mem_cons_of_mem _ (List.mem_cons_of_mem _ hs)
    exact ⟨hfresh.ne_zero s hs', filter_iova hfresh.distinct hs'⟩
  -- no segment is one of the first two pages, so the loop adds each of them once
  have hothers : ∀ s ∈ segments, prp.prp1 ≠ s.iova ∧ prp.prp2 ≠ s.iova := by
    intro s hs
    rw [h1, h2]
    exact ⟨fun h => hal (h ▸ List.mem_cons_of_mem _ (List.mem_map_of_mem hs)),
      fun h => hl (h ▸ List.mem_map_of_mem hs)⟩
  have hfirst : prp.pageSegments mem a = .ok [] := by
    rw [pageSegments, if_neg (by rw [h2]; exact hla)]
  have hsecond : prp.pageSegments mem l = .ok segments := by
    rw [pageSegments, if_pos h2, hentries]
  rw [getDataSegments, hlist, segmentsLoop_cons, segmentsLoop_cons, segmentsLoop_unlisted hothers,
    hfirst, hsecond, if_pos h1, if_neg (by rw [h1]; exact fun h => hla h.symm)]
  show Except.ok ([a] ++ [] ++ ([] ++ segments ++ [])) = _
  rw [List.append_nil, List.append_nil, List.nil_append]
  rfl

/-! ## What `alloc` leaves -/

/-- Beyond one page, the page at PRP2 lists the pages after it: none of two pages. -/
theorem alloc_listed {numBytes : Nat} (hm : 0 < mps) (hlt : mps < numBytes)
    {page : Nat → MemoryLocation}
    (halloc : PRP.alloc { numBytes, mps } mem page = (prp, mem', .ok ()))
    (hfresh : Fresh mps prp.memList) :
    ∃ segments r, prp.memList = page 0 :: page 1 :: segments
      ∧ mem'.words (page 1).vaddr (mps / 8)
        = segments.map MemoryLocation.iova ++ List.replicate r 0
      ∧ (numBytes ≤ 2 * mps → segments = []) := by
  have hwords : 8 * (mps / 8) ≤ mps := by omega
  have hcases := @pagesNeeded_cases { numBytes, mps } hm (by show 0 < numBytes; omega)
  dsimp only at hcases
  unfold PRP.alloc at halloc
  dsimp only [mallocPage, List.nil_append] at halloc
  unfold pagesNeeded at hcases halloc
  dsimp only at hcases halloc
  rcases hcases with ⟨hle, _⟩ | ⟨_, hle, hneed⟩ | ⟨hgt, hneed⟩
  · exact absurd hle (Nat.not_le.mpr hlt)
  · -- two pages: the second one is fresh, and so reads as a list of nothing
    rw [if_neg (by omega), if_pos hneed] at halloc
    injection halloc with hprp halloc
    injection halloc with hmem _
    subst hprp hmem
    exact ⟨[], mps / 8, rfl, Mem.words_zeros _ hwords, fun _ => rfl⟩
  · rw [if_neg (by omega), if_neg (by omega)] at halloc
    have hleft : 8 * (0 + prpsPerPage mps) ≤ mps := by
      unfold prpsPerPage
      omega
    obtain ⟨segments, _, hprp, _, _, hin⟩ :=
      @allocList_ok mps page _ _ _ _ _ _ _ rfl hleft halloc
    subst hprp
    -- the segments keep off the list page, so storing them leaves its words
    have hapart : ∀ s ∈ segments, s.iova < 2 ^ 64 ∧ Apart mps s (page 1) := by
      intro s hs
      obtain ⟨_, hrest⟩ := List.pairwise_cons.mp hfresh.apart
      obtain ⟨hsecond, _⟩ := List.pairwise_cons.mp hrest
      exact ⟨hfresh.lt s (List.mem_cons_of_mem _ (List.mem_cons_of_mem _ hs)), (hsecond s hs).symm⟩
    obtain ⟨r, hr⟩ := hin hapart [] rfl (by unfold prpsPerPage; omega) (Mem.words_zeros _ hwords)
    exact ⟨segments, r, rfl, hr, fun hle => absurd hle (Nat.not_le.mpr hgt)⟩

/-- How many segments are found: the second of two pages is not. -/
def segmentsFound (numBytes mps : Nat) : Nat :=
  if numBytes ≤ 2 * mps then 1 else dataPages numBytes mps

/-- **The segments of a fresh buffer**, found as long as the page at PRP2 is not written. -/
theorem alloc_segments {numBytes : Nat} (hm : 0 < mps) (hn : 0 < numBytes)
    (hcap : numBytes ≤ mps / 8 * mps) {page : Nat → MemoryLocation}
    (halloc : PRP.alloc { numBytes, mps } mem page = (prp, mem', .ok ()))
    (hfresh : Fresh mps prp.memList) :
    prp.numBytes = numBytes ∧ prp.mps = mps ∧ ∃ segments : List MemoryLocation,
      segments.Sublist prp.memList ∧ segments.length = segmentsFound numBytes mps
      ∧ (∀ s ∈ prp.memList, s.iova = prp.prp2 → ∀ t ∈ segments, Apart mps s t)
      ∧ ∀ later : Mem, (∀ s ∈ prp.memList, s.iova = prp.prp2 →
          ∀ k, k < mps → later (s.vaddr + k) = mem' (s.vaddr + k)) →
        prp.getDataSegments later = .ok segments := by
  obtain ⟨mem'', heq⟩ := alloc_eq hm hn hcap page mem
  have hprp : prp = allocated numBytes mps page := congrArg Prod.fst (halloc.symm.trans heq)
  -- `alloc` has made the host's object, whatever memory held before
  have hlen : prp.memList.length = pagesNeeded { numBytes, mps } := by
    rw [hprp]
    exact (List.length_map _).trans List.length_range
  have hnum : prp.numBytes = numBytes := by rw [hprp]; rfl
  have hmps : prp.mps = mps := by rw [hprp]; rfl
  have hp1 : prp.prp1 = (page 0).iova := by rw [hprp]; rfl
  refine ⟨hnum, hmps, ?_⟩
  by_cases hle : numBytes ≤ mps
  · -- one page: no second pointer
    have hp2 : prp.prp2 = 0 := by
      rw [hprp]
      exact if_pos hle
    have hlist : prp.memList = [page 0] := by
      have hcases := @pagesNeeded_cases { numBytes, mps } hm hn
      dsimp only at hcases
      rw [hprp, allocated, show pagesNeeded { numBytes, mps } = 1 by omega]
      rfl
    refine ⟨[page 0], by rw [hlist], by rw [segmentsFound, if_pos (by omega)]; rfl,
      fun s hs he => absurd (he.trans hp2) (hfresh.ne_zero s hs), fun later _ => ?_⟩
    exact getDataSegments_one hp1 hp2
      (hfresh.ne_zero _ (by rw [hlist]; exact List.mem_cons_self)) hlist
  · -- the second pointer is read as a list, even where it is a data page
    have hp2 : prp.prp2 = (page 1).iova := by
      rw [hprp]
      exact if_neg hle
    obtain ⟨segments, r, hlist, hwords, hshort⟩ :=
      alloc_listed hm (Nat.lt_of_not_le hle) halloc hfresh
    have hsecond : page 1 ∈ prp.memList := by
      rw [hlist]
      exact List.mem_cons_of_mem _ List.mem_cons_self
    refine ⟨page 0 :: segments, ?_, ?_, fun s hs he t ht => ?_, fun later hlater => ?_⟩
    · rw [hlist]
      exact List.Sublist.cons_cons _ (List.sublist_cons_self _ _)
    · unfold segmentsFound
      by_cases h2 : numBytes ≤ 2 * mps
      · rw [if_pos h2, hshort h2]
        rfl
      · have h3 : 2 < dataPages numBytes mps := by
          have := (@dataPages_le_iff mps numBytes 2 hm).mp
          omega
        rw [hlist, pagesNeeded_list h3 ((dataPages_le_iff hm).mpr hcap), List.length_cons,
          List.length_cons] at hlen
        rw [if_neg h2, List.length_cons]
        omega
    · -- the page at PRP2 is the second page
      have hs1 : s = page 1 := List.inj_on_of_nodup_map hfresh.distinct hs hsecond (he.trans hp2)
      have hap := hfresh.apart
      rw [hlist] at hap
      obtain ⟨hfirst, hrest⟩ := List.pairwise_cons.mp hap
      obtain ⟨hlisted, _⟩ := List.pairwise_cons.mp hrest
      rw [hs1]
      rcases List.mem_cons.mp ht with rfl | ht
      · exact (hfirst _ List.mem_cons_self).symm
      · exact hlisted t ht
    · refine getDataSegments_listed hp1 hp2 hlist (by rw [hmps]; exact hfresh) (r := r) ?_
      rw [hmps, ← hwords]
      refine Mem.words_congr fun x hx => hlater _ hsecond hp2.symm x ?_
      have := Nat.div_mul_le_self mps 8
      omega

/-! ## The round trip -/

/-- The segments found take all the data and hold all the bytes. -/
theorem segmentsFound_suffice {numBytes n : Nat} (hm : 0 < mps) (hle : n ≤ numBytes) :
    Fits mps n (segmentsFound numBytes mps) ∧ numBytes ≤ segmentsFound numBytes mps * mps
      ↔ numBytes ≤ mps ∨ 2 * mps < numBytes ∧ mps ∣ n := by
  unfold Fits segmentsFound
  by_cases h2 : numBytes ≤ 2 * mps
  · rw [if_pos h2, Nat.one_mul]
    constructor
    · exact fun h => Or.inl h.2
    · rintro (h | ⟨h, _⟩)
      · exact ⟨Or.inr (Nat.le_max_left 1 _), h⟩
      · exact absurd h2 (Nat.not_le.mpr h)
  · -- more than two pages: the list names them
    have hall : numBytes ≤ dataPages numBytes mps * mps := (dataPages_le_iff hm).mp (Nat.le_refl _)
    have hthree : ¬ dataPages numBytes mps ≤ 2 := fun h => h2 ((dataPages_le_iff hm).mp h)
    rw [if_neg h2]
    constructor
    · rintro ⟨hdvd | hcount, _⟩
      · exact Or.inr ⟨by omega, hdvd⟩
      · -- as many whole pages as there are: the data is all of them
        have hwhole : dataPages numBytes mps * mps ≤ n / mps * mps :=
          Nat.mul_le_mul_right mps (by omega)
        have hfloor := Nat.div_mul_le_self n mps
        exact Or.inr ⟨by omega, ⟨n / mps, by rw [Nat.mul_comm]; omega⟩⟩
    · rintro (h | ⟨_, hdvd⟩)
      · omega
      · exact ⟨Or.inl hdvd, hall⟩

/-- The buffer keeps data that its segments take, if they hold all its bytes. -/
theorem alloc_roundTrips {numBytes : Nat} (hm : 0 < mps) (hn : 0 < numBytes)
    (hcap : numBytes ≤ mps / 8 * mps) {page : Nat → MemoryLocation}
    (halloc : PRP.alloc { numBytes, mps } mem page = (prp, mem', .ok ()))
    (hfresh : Fresh mps prp.memList) {data : List (BitVec 8)} (hlen : data.length ≤ numBytes) :
    prp.RoundTrips mem' data ↔ Fits mps data.length (segmentsFound numBytes mps)
      ∧ numBytes ≤ segmentsFound numBytes mps * mps := by
  obtain ⟨rfl, rfl, segments, hsub, hcount, hsecond, hfound⟩ :=
    alloc_segments hm hn hcap halloc hfresh
  have hsize : ∀ s ∈ segments, s.size = prp.mps := fun s hs => hfresh.size s (hsub.subset hs)
  obtain ⟨hset, hraise⟩ := @setDataBuffer_eq prp mem' segments data hm
    (hfound mem' fun _ _ _ _ _ => rfl) hsize
  -- filling the segments leaves the page at PRP2 alone, so the same segments are read
  have hlist : ∀ s ∈ prp.memList, s.iova = prp.prp2 → ∀ k, k < prp.mps →
      scatter prp.mps mem' segments data (s.vaddr + k) = mem' (s.vaddr + k) :=
    fun s hs he k hk => scatter_outside (a := s.vaddr) (n := prp.mps) (hsecond s hs he) _
      (Nat.le_add_right _ _) (Nat.add_lt_add_left hk _)
  have hget := getDataBuffer_eq (hfound _ hlist) hsize
  rw [← hcount]
  constructor
  · rintro ⟨later, out, hok, hread, _, hlong, _⟩
    have hfits : Fits prp.mps data.length segments.length := by
      by_contra hnot
      obtain ⟨e, he⟩ := hraise hnot
      exact absurd (hok.symm.trans he) (by simp)
    rw [hset hfits] at hok
    rw [← Except.ok.inj hok, hget] at hread
    rw [← Except.ok.inj hread, length_gather] at hlong
    exact ⟨hfits, hlong⟩
  · rintro ⟨hfits, hroom⟩
    refine ⟨_, _, hset hfits, hget, gather_scatter (hfresh.apart.sublist hsub) (by omega),
      by rw [length_gather]; exact hroom, fun _ s hs he => Mem.load_congr fun k hk => ?_⟩
    exact hlist s hs he k hk

/--
**The round trip of a fresh buffer**: one page, or more than two pages and whole pages of
data.

With two pages the second is read as a list, and a list of zeros has no segments. A last
page that is not full is assigned fewer bytes than its slice has, which raises.
-/
theorem roundTrips_iff {numBytes : Nat} (hmps : 32 ≤ mps) {prp₀ : PRP} {page : Nat → MemoryLocation}
    (hnew : PRP.new numBytes mps = .ok prp₀) (halloc : prp₀.alloc mem page = (prp, mem', .ok ()))
    (hfresh : Fresh mps prp.memList) (data : List (BitVec 8)) (hlen : data.length ≤ numBytes) :
    prp.RoundTrips mem' data ↔ numBytes ≤ mps ∨ 2 * mps < numBytes ∧ mps ∣ data.length := by
  have hm : 0 < mps := by omega
  obtain ⟨hn, rfl⟩ := new_eq_ok hm hnew
  have hcap := (alloc_ok_iff hmps hn page mem).mp (by rw [halloc])
  rw [alloc_roundTrips hm hn hcap halloc hfresh hlen, segmentsFound_suffice hm hlen]

/-- Three pages of 32 bytes at device addresses of their own, and a list page. -/
theorem roundTrips_three_pages :
    ∃ prp mem', PRP.alloc { numBytes := 96, mps := 32 } (fun _ => 0)
        (fun k => ⟨4096 + 32 * k, 0x10000 + 0x200000 * k, 32⟩) = (prp, mem', .ok ())
      ∧ prp.RoundTrips mem' (List.replicate 96 1) := by
  obtain ⟨mem', halloc⟩ := @alloc_eq 32 96 (by decide) (by decide) (by decide)
    (fun k => ⟨4096 + 32 * k, 0x10000 + 0x200000 * k, 32⟩) fun _ => 0
  refine ⟨_, mem', halloc, (roundTrips_iff (by decide) (new_ok (by decide) (by decide)) halloc
    (by decide) _ (by decide)).mpr ?_⟩
  exact Or.inr ⟨by decide, by decide⟩

/-- Two pages: only the first one is read back. -/
theorem not_roundTrips_two_pages :
    ¬ ∀ (mps numBytes : Nat) (prp₀ prp : PRP) (page : Nat → MemoryLocation) (mem mem' : Mem)
      (data : List (BitVec 8)), 8 ∣ mps → 32 ≤ mps → PRP.new numBytes mps = .ok prp₀ →
      prp₀.alloc mem page = (prp, mem', .ok ()) → Fresh mps prp.memList →
      data.length ≤ numBytes → prp.RoundTrips mem' data := by
  intro hall
  obtain ⟨mem', halloc⟩ := @alloc_eq 4096 8192 (by decide) (by decide) (by decide)
    (fun k => pageAt 4096 (4096 * (k + 1))) fun _ => 0
  have hfresh : Fresh 4096 (allocated 8192 4096 fun k => pageAt 4096 (4096 * (k + 1))).memList := by
    decide
  have htwo := hall 4096 8192 _ _ _ _ mem' (List.replicate 8192 1) (by decide) (by decide)
    (new_ok (by decide) (by decide)) halloc hfresh (Nat.le_of_eq List.length_replicate)
  rw [alloc_roundTrips (by decide) (by decide) (by decide) halloc hfresh
    (Nat.le_of_eq List.length_replicate)] at htwo
  exact absurd htwo.2 (by decide)

end PRP

end LoneNvme
