import LoneNvme.PrpBuffer

/-!
# Both ends of a buffer

The host knows the pages of a `PRP` because it allocated them, the simulator because it
trusts two addresses and a list page. Up to the capacity of one list page they find the
same data pages, whatever the data pages hold: below three pages the two objects are the
same, beyond that the list page is no data page and reads as `alloc` filled it.

`alloc_eq` computes what `alloc` leaves for every size within the capacity, and `alloc_full`
that beyond it the call raises. The simulator's side needs only that the list page still holds
what `alloc` put there, which is the hypothesis on the memory it is given.
-/

namespace LoneNvme

open Lib

namespace PRP

variable {mps : Nat} {mem mem' : Mem} {prp : PRP}

/-- How many pages the loop adds: as many as the remaining bytes need. -/
theorem allocList_eq (page : Nat → MemoryLocation) :
    ∀ {left i count : Nat} {remBytes : Int} {prp : PRP} {mem : Mem}, count + 1 ≤ left →
      (count : Int) * prp.mps < remBytes → remBytes ≤ (count + 1 : Nat) * prp.mps →
      ∃ mem', allocList page left i remBytes prp mem =
        ({ prp with memList := prp.memList ++ (List.range' (i + 2) (count + 1)).map page }, mem',
          .ok ()) := by
  intro left
  induction left with
  | zero => intro i count remBytes prp mem hle; omega
  | succ left ih =>
      intro i count remBytes prp mem hle hlt hge
      rw [allocList]
      dsimp only [mallocPage]
      cases count with
      | zero =>
          rw [Nat.zero_add, Nat.cast_one, Int.one_mul] at hge
          rw [if_pos (by omega)]
          exact ⟨_, rfl⟩
      | succ count =>
          rw [Nat.cast_succ, Int.add_mul] at hlt hge
          -- a page is left to go, so the loop does not end here
          have hmore : ¬ remBytes - prp.mps ≤ 0 := by
            have : 0 ≤ (count : Int) * prp.mps := Int.mul_nonneg (by omega) (by omega)
            omega
          rw [if_neg hmore]
          obtain ⟨mem', h⟩ := @ih (i + 1) count (remBytes - prp.mps)
            { prp with memList := prp.memList ++ [page (i + 2)] }
            ((mem.store (page (i + 2)).vaddr (List.replicate prp.mps 0)).storeWord
              ((page 1).vaddr + 8 * i) (page (i + 2)).iova) (by omega)
            (by show (count : Int) * prp.mps < _; omega)
            (by show _ ≤ ((count + 1 : Nat) : Int) * prp.mps; omega)
          refine ⟨mem', h.trans ?_⟩
          rw [List.range'_succ, List.map_cons]
          dsimp only
          rw [List.append_assoc]
          rfl

/-- With at most one list page, the pages are the data pages and that one. -/
theorem pagesNeeded_list {numBytes : Nat} (h3 : 2 < dataPages numBytes mps)
    (hcap : dataPages numBytes mps ≤ mps / 8) :
    pagesNeeded { numBytes, mps } = dataPages numBytes mps + 1 := by
  unfold pagesNeeded listsNeeded prpsPerPage
  dsimp only
  rw [if_pos h3]
  generalize dataPages numBytes mps = pages at h3 hcap
  have hone : (pages - 1 + (mps / 8 - 1) - 1) / (mps / 8 - 1) = 1 :=
    Nat.div_eq_of_lt_le (by omega) (by omega)
  rw [hone]

/-- The object `alloc` makes of the pages it is handed. -/
def allocated (numBytes mps : Nat) (page : Nat → MemoryLocation) : PRP where
  numBytes := numBytes
  mps := mps
  prp1 := (page 0).iova
  prp2 := if numBytes ≤ mps then 0 else (page 1).iova
  memList := (List.range (pagesNeeded { numBytes, mps })).map page

/-- **What `alloc` builds**: an object that knows exactly `pages_needed` pages, in order. -/
theorem alloc_eq {numBytes : Nat} (hm : 0 < mps) (hn : 0 < numBytes)
    (hcap : numBytes ≤ mps / 8 * mps) (page : Nat → MemoryLocation) (mem : Mem) :
    ∃ mem', PRP.alloc { numBytes, mps } mem page = (allocated numBytes mps page, mem', .ok ()) := by
  have hdata : dataPages numBytes mps ≤ mps / 8 := (dataPages_le_iff hm).mpr hcap
  have hcases := @pagesNeeded_cases { numBytes, mps } hm hn
  dsimp only at hcases
  unfold PRP.alloc allocated
  dsimp only [mallocPage, List.nil_append]
  unfold pagesNeeded at hcases ⊢
  dsimp only at hcases ⊢
  rcases hcases with ⟨hle, hneed⟩ | ⟨hlt, hle, hneed⟩ | ⟨hlt, hneed⟩
  · rw [if_pos hneed, hneed, if_pos hle]
    exact ⟨_, rfl⟩
  · rw [if_neg (by omega), if_pos hneed, hneed, if_neg (by omega)]
    exact ⟨_, rfl⟩
  · rw [if_neg (by omega), if_neg (by omega), if_neg (by omega)]
    have h3 : 2 < dataPages numBytes mps := by
      have := (@dataPages_le_iff mps numBytes 2 hm).mp
      omega
    have hneeded := pagesNeeded_list h3 hdata
    unfold pagesNeeded at hneeded
    rw [hneeded]
    -- `count` pages are filled, and the last one is not more than that
    obtain ⟨count, hcount⟩ : ∃ count, dataPages numBytes mps = count + 2 :=
      ⟨dataPages numBytes mps - 2, by omega⟩
    have hge : numBytes ≤ (count + 2) * mps := (dataPages_le_iff hm).mp (Nat.le_of_eq hcount)
    have hgt : (count + 1) * mps < numBytes := by
      have := (@dataPages_le_iff mps numBytes (count + 1) hm).mpr
      omega
    obtain ⟨mem', h⟩ := @allocList_eq page (prpsPerPage mps) 0 count ((numBytes : Int) - mps)
      { numBytes, mps, prp1 := (page 0).iova, prp2 := (page 1).iova,
        memList := [page 0] ++ [page 1] } _ (by unfold prpsPerPage; omega)
      (by
        rw [Nat.succ_mul] at hgt
        show (count : Int) * mps < numBytes - mps
        exact_mod_cast (show ((count * mps : Nat) : Int) < numBytes - mps by omega))
      (by
        rw [Nat.succ_mul] at hge
        show (numBytes : Int) - mps ≤ ((count + 1 : Nat) : Int) * mps
        exact_mod_cast (show (numBytes : Int) - mps ≤ (((count + 1) * mps : Nat) : Int) by omega))
    refine ⟨mem', h.trans ?_⟩
    rw [hcount, List.range_eq_range', List.range'_succ, List.range'_succ]
    rfl

/-- More than the list page can list: the loop fills it and raises. -/
theorem allocList_full (page : Nat → MemoryLocation) :
    ∀ {left i : Nat} {remBytes : Int} {prp : PRP} {mem : Mem}, (left : Int) * prp.mps < remBytes →
      ∃ mem', allocList page left i remBytes prp mem =
        ({ prp with memList := prp.memList ++ (List.range' (i + 2) left).map page }, mem',
          .error (.assertionError "Support for PRPs larger than 2M not implemented!")) := by
  intro left
  induction left with
  | zero =>
      intro i remBytes prp mem _
      rw [allocList, List.range'_zero, List.map_nil, List.append_nil]
      exact ⟨mem, rfl⟩
  | succ left ih =>
      intro i remBytes prp mem hgt
      rw [Nat.cast_succ, Int.add_mul] at hgt
      have hmore : ¬ remBytes - prp.mps ≤ 0 := by
        have : 0 ≤ (left : Int) * prp.mps := Int.mul_nonneg (by omega) (by omega)
        omega
      rw [allocList]
      dsimp only [mallocPage]
      rw [if_neg hmore]
      obtain ⟨mem', h⟩ := @ih (i + 1) (remBytes - prp.mps)
        { prp with memList := prp.memList ++ [page (i + 2)] }
        ((mem.store (page (i + 2)).vaddr (List.replicate prp.mps 0)).storeWord
          ((page 1).vaddr + 8 * i) (page (i + 2)).iova) (by show (left : Int) * prp.mps < _; omega)
      refine ⟨mem', h.trans ?_⟩
      rw [List.range'_succ, List.map_cons]
      dsimp only
      rw [List.append_assoc]
      rfl

/-- **Beyond the capacity** `alloc` raises once it holds two pages and a page for every entry. -/
theorem alloc_full {numBytes : Nat} (hmps : 32 ≤ mps) (hcap : mps / 8 * mps < numBytes)
    (page : Nat → MemoryLocation) (mem : Mem) :
    ∃ prp mem', PRP.alloc { numBytes, mps } mem page = (prp, mem',
        .error (.assertionError "Support for PRPs larger than 2M not implemented!"))
      ∧ prp.memList = (List.range (mps / 8 + 1)).map page := by
  -- too many bytes for one list page, so for two pages as well
  have h2 : 2 * mps < numBytes := by
    have hle := Nat.mul_le_mul_right mps (show 2 ≤ mps / 8 by omega)
    omega
  have hcases := @pagesNeeded_cases { numBytes, mps } (by show 0 < mps; omega)
    (by show 0 < numBytes; omega)
  dsimp only at hcases
  unfold PRP.alloc
  dsimp only [mallocPage, List.nil_append]
  unfold pagesNeeded at hcases ⊢
  dsimp only at hcases ⊢
  rw [if_neg (by omega), if_neg (by omega)]
  obtain ⟨entries, hentries⟩ : ∃ entries, mps / 8 = entries + 1 := ⟨mps / 8 - 1, by omega⟩
  obtain ⟨mem', h⟩ := @allocList_full page (prpsPerPage mps) 0 ((numBytes : Int) - mps)
    { numBytes, mps, prp1 := (page 0).iova, prp2 := (page 1).iova,
      memList := [page 0] ++ [page 1] } _ (by
        unfold prpsPerPage
        rw [hentries, Nat.succ_mul] at hcap
        rw [hentries, Nat.add_sub_cancel]
        show (entries : Int) * mps < numBytes - mps
        exact_mod_cast (show ((entries * mps : Nat) : Int) < numBytes - mps by omega))
  refine ⟨_, mem', h, ?_⟩
  unfold prpsPerPage
  rw [hentries, Nat.add_sub_cancel, List.range_eq_range', List.range'_succ, List.range'_succ]
  rfl

/-- **What `alloc` accepts.** -/
theorem alloc_ok_iff {numBytes : Nat} (hmps : 32 ≤ mps) (hn : 0 < numBytes)
    (page : Nat → MemoryLocation) (mem : Mem) :
    (PRP.alloc { numBytes, mps } mem page).2.2 = .ok () ↔ numBytes ≤ mps / 8 * mps := by
  constructor
  · intro hok
    by_contra hcap
    obtain ⟨prp, mem', h, _⟩ := alloc_full hmps (Nat.lt_of_not_le hcap) page mem
    rw [h] at hok
    exact absurd hok (by simp)
  · intro hcap
    obtain ⟨mem', h⟩ := alloc_eq (by omega) hn hcap page mem
    rw [h]

/-- Its addresses are those of pages it was handed. -/
theorem allocated_ne_zero {numBytes : Nat} (hm : 0 < mps) (hn : 0 < numBytes)
    {page : Nat → MemoryLocation} (hpage : ∀ k, page k = pageAt mps (page k).vaddr)
    (hpages : PagesOk mps (allocated numBytes mps page).memList) :
    (allocated numBytes mps page).prp1 ≠ 0
      ∧ (mps < numBytes → (allocated numBytes mps page).prp2 ≠ 0) := by
  have hne : ∀ k, k < pagesNeeded { numBytes, mps } → (page k).iova ≠ 0 := by
    intro k hk
    rw [hpage k]
    exact hpages.ne_zero _ (List.mem_map_of_mem (List.mem_range.mpr hk))
  have hcases := @pagesNeeded_cases { numBytes, mps } hm hn
  dsimp only at hcases
  refine ⟨hne 0 (by omega), fun hlt => ?_⟩
  show (if numBytes ≤ mps then 0 else (page 1).iova) ≠ 0
  rw [if_neg (Nat.not_le.mpr hlt)]
  exact hne 1 (by omega)

/-- Below three data pages the rebuilt object is the host's. -/
theorem attached_allocated {numBytes : Nat} (hm : 0 < mps) (hn : 0 < numBytes)
    {page : Nat → MemoryLocation} (hpage : ∀ k, page k = pageAt mps (page k).vaddr)
    (h2 : numBytes ≤ 2 * mps) (mem : Mem) :
    attached numBytes mps mem (allocated numBytes mps page).prp1 (allocated numBytes mps page).prp2
      = allocated numBytes mps page := by
  have h0 : pageAt mps (page 0).iova = page 0 := by rw [hpage 0]; rfl
  have h1 : pageAt mps (page 1).iova = page 1 := by rw [hpage 1]; rfl
  have hcases := @pagesNeeded_cases { numBytes, mps } hm hn
  dsimp only at hcases
  unfold attached allocated addresses
  rcases hcases with ⟨hle, hneed⟩ | ⟨hlt, hle, hneed⟩ | ⟨hlt, hneed⟩
  · rw [hneed, if_pos hle, if_pos hle, if_pos hle, List.map_singleton, h0]
    rfl
  · have hgt : ¬ numBytes ≤ mps := Nat.not_le.mpr hlt
    rw [hneed, if_neg hgt, if_neg hgt, if_neg hgt, if_pos hle, List.map_cons, List.map_singleton, h0,
      h1]
    rfl
  · exact absurd h2 (Nat.not_le.mpr hlt)

/-- The data pages of a list are the allocated pages but the second. -/
theorem Laid.allocated {numBytes : Nat} (hm : 0 < mps) {page : Nat → MemoryLocation} {addrs : List Nat}
    (h : (PRP.allocated numBytes mps page).Laid mem addrs) (h3 : 2 < dataPages numBytes mps)
    (hcap : dataPages numBytes mps ≤ mps / 8) :
    addrs.map (pageAt mps) = page 0 :: (List.range' 2 (dataPages numBytes mps - 1)).map page := by
  cases h with
  | page hle _ _ _ =>
      have hone := (@dataPages_le_iff mps numBytes 1 hm).mpr (by rw [Nat.one_mul]; exact hle)
      omega
  | @list a l r ds _ _ _ hlist _ _ _ =>
      have hrange : List.range (pagesNeeded { numBytes, mps })
          = 0 :: 1 :: List.range' 2 (dataPages numBytes mps - 1) := by
        rw [pagesNeeded_list h3 hcap, List.range_eq_range', List.range'_succ]
        obtain ⟨count, hcount⟩ : ∃ count, dataPages numBytes mps = count + 1 :=
          ⟨dataPages numBytes mps - 1, by omega⟩
        rw [hcount, List.range'_succ]
        rfl
      change (List.range (pagesNeeded { numBytes, mps })).map page
        = (a :: l :: ds).map (pageAt mps) at hlist
      rw [hrange, List.map_cons, List.map_cons, List.map_cons, List.map_cons] at hlist
      obtain ⟨hfirst, hlist⟩ := List.cons.inj hlist
      obtain ⟨_, hrest⟩ := List.cons.inj hlist
      rw [List.map_cons, hfirst, hrest]

/-- **As many data pages as the bytes need**, of a size a buffer can carry. -/
theorem Laid.length_allocated {numBytes : Nat} (hm : 0 < mps) (hn : 0 < numBytes)
    {page : Nat → MemoryLocation} {addrs : List Nat}
    (h : (PRP.allocated numBytes mps page).Laid mem addrs) (hmove : Movable mps numBytes)
    (hcap : dataPages numBytes mps ≤ mps / 8) : addrs.length = dataPages numBytes mps := by
  rcases hmove with hle | ⟨_, h2⟩
  · have hone : dataPages numBytes mps ≤ 1 := (dataPages_le_iff hm).mpr (by rw [Nat.one_mul]; exact hle)
    have hpos := dataPages_pos hm hn
    have hlen := h.length_of_two (show numBytes ≤ 2 * mps by omega)
    omega
  · have h3 : 2 < dataPages numBytes mps :=
      Nat.lt_of_not_le fun h => absurd ((dataPages_le_iff hm).mp h) (Nat.not_le.mpr h2)
    have hpages := congrArg List.length (h.allocated hm h3 hcap)
    rw [List.length_map, List.length_cons, List.length_map, List.length_range'] at hpages
    omega

/-- The data pages are full exactly if the size is one of whole pages. -/
theorem dataPages_mul_eq_iff {numBytes : Nat} (hm : 0 < mps) :
    dataPages numBytes mps * mps = numBytes ↔ mps ∣ numBytes := by
  constructor
  · exact fun h => h ▸ Nat.dvd_mul_left mps _
  · rintro ⟨q, rfl⟩
    refine Nat.le_antisymm ?_ ((dataPages_le_iff hm).mp (Nat.le_refl _))
    rw [Nat.mul_comm mps q]
    exact Nat.mul_le_mul_right mps ((dataPages_le_iff hm).mpr (Nat.le_refl _))

/--
**Both ends agree.** The simulator's object, rebuilt from the two addresses, finds the
pages the host's finds, in the same order, or raises the same exception; from three data
pages on they are exactly the data pages, as long as nobody writes the list page.

Up to two data pages the rebuilt object is the host's own. Beyond that both read the list page,
and find what `alloc` has written there.
-/
theorem ends_agree {numBytes : Nat} (hmps : 32 ≤ mps) (hn : 0 < numBytes)
    (hcap : numBytes ≤ mps / 8 * mps) {page : Nat → MemoryLocation}
    (hpage : ∀ k, page k = pageAt mps (page k).vaddr)
    (hpages : PagesOk mps ((List.range (pagesNeeded { numBytes, mps })).map page)) (mem : Mem) :
    ∃ host mem', PRP.new numBytes mps = .ok { numBytes, mps }
      ∧ PRP.alloc { numBytes, mps } mem page = (host, mem', .ok ())
      ∧ host.memList = (List.range (pagesNeeded { numBytes, mps })).map page
      ∧ ∀ later : Mem, (2 < dataPages numBytes mps →
            ∀ x, host.prp2 ≤ x → x < host.prp2 + mps → later x = mem' x) →
          (∃ sim, attach numBytes mps later host.prp1 host.prp2 = .ok sim
              ∧ sim.getDataSegments later = host.getDataSegments later)
            ∧ (2 < dataPages numBytes mps → host.getDataSegments later
              = .ok (page 0 :: (List.range' 2 (dataPages numBytes mps - 1)).map page)) := by
  have hm : 0 < mps := by omega
  obtain ⟨mem', halloc⟩ := alloc_eq hm hn hcap page mem
  refine ⟨_, mem', new_ok hm hn, halloc, rfl, fun later hlater => ?_⟩
  have h0 : (page 0).iova = (page 0).vaddr := by rw [hpage 0]; rfl
  have h1 : (page 1).iova = (page 1).vaddr := by rw [hpage 1]; rfl
  obtain ⟨_, _, ⟨addrs, hlaid⟩, _⟩ := alloc_laid hm hn hpage halloc hpages
  have hdata : dataPages numBytes mps ≤ mps / 8 := (dataPages_le_iff hm).mpr hcap
  by_cases h3 : 2 < dataPages numBytes mps
  · have hlaid' := hlaid.frame fun _ => hlater h3
    obtain ⟨sim, hsim, _, hfound⟩ := hlaid'.attach hm hn hpages
    have hhost := hlaid'.host hm hpages
    refine ⟨⟨sim, hsim, hfound.trans hhost.symm⟩, fun _ => ?_⟩
    rw [hhost]
    exact congrArg Except.ok (hlaid'.allocated hm h3 hdata)
  · have hsame := attached_allocated hm hn hpage ((dataPages_le_iff hm).mp (Nat.le_of_not_lt h3)) later
    have hattach := (@attach_eq mps numBytes (allocated numBytes mps page).prp1
      (allocated numBytes mps page).prp2 later hm hn).1 (allocated_ne_zero hm hn hpage hpages)
    rw [hsame] at hattach
    exact ⟨⟨_, hattach, rfl⟩, fun h => absurd h h3⟩

/-- Four data pages of 32 bytes and the page that lists three of them. -/
theorem ends_agree_four :
    ∃ host mem', PRP.alloc { numBytes := 100, mps := 32 } (fun _ => 0)
        (fun k => pageAt 32 (32 * (k + 1))) = (host, mem', .ok ())
      ∧ host.memList.length = 5
      ∧ ∃ sim, attach 100 32 mem' host.prp1 host.prp2 = .ok sim
        ∧ sim.getDataSegments mem' = .ok [pageAt 32 32, pageAt 32 96, pageAt 32 128, pageAt 32 160] := by
  obtain ⟨host, mem', _, halloc, hlist, hends⟩ := @ends_agree 32 100 (by decide) (by decide)
    (by decide) (fun k => pageAt 32 (32 * (k + 1))) (fun _ => rfl) (by decide) (fun _ => 0)
  obtain ⟨⟨sim, hsim, hsame⟩, hfound⟩ := hends mem' fun _ _ _ _ => rfl
  exact ⟨host, mem', halloc, by rw [hlist]; rfl, sim, hsim, hsame.trans (hfound (by decide))⟩

end PRP

end LoneNvme
