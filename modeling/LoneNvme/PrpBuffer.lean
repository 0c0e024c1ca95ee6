import LoneNvme.PrpData
import Mathlib.Data.List.Flatten
import Mathlib.Data.List.Pairwise

/-!
# A buffer both sides agree on

`Laid` is what `alloc` leaves in memory: the host's object knows its pages, and beyond
one page the page at PRP2 lists the data pages after the first, zeros behind them.
From it the host finds the data pages, and so does the object that the other side
rebuilds from the two addresses. A transfer of up to two pages is laid out like a list
with no entries: its second page is reached by neither side.
-/

namespace LoneNvme

open Lib

namespace PRP

variable {mps : Nat} {mem mem' : Mem} {prp : PRP}

/-! ## What memory a manager hands out -/

/-- Pages in use: none at address zero, all addressable, no two sharing a byte. -/
structure PagesOk (mps : Nat) (pages : List MemoryLocation) : Prop where
  ne_zero : ∀ s ∈ pages, s.vaddr ≠ 0
  lt : ∀ s ∈ pages, s.vaddr < 2 ^ 64
  apart : pages.Pairwise (Apart mps)

instance (mps : Nat) (s t : MemoryLocation) : Decidable (Apart mps s t) :=
  inferInstanceAs (Decidable (s.vaddr + mps ≤ t.vaddr ∨ t.vaddr + mps ≤ s.vaddr))

instance (mps : Nat) (pages : List MemoryLocation) : Decidable (PagesOk mps pages) :=
  decidable_of_iff ((∀ s ∈ pages, s.vaddr ≠ 0) ∧ (∀ s ∈ pages, s.vaddr < 2 ^ 64)
      ∧ pages.Pairwise (Apart mps))
    ⟨fun h => ⟨h.1, h.2.1, h.2.2⟩, fun h => ⟨h.ne_zero, h.lt, h.apart⟩⟩

theorem PagesOk.sublist {pages pages' : List MemoryLocation} (h : PagesOk mps pages)
    (hs : pages'.Sublist pages) : PagesOk mps pages' :=
  ⟨fun s hm => h.ne_zero s (hs.subset hm), fun s hm => h.lt s (hs.subset hm), h.apart.sublist hs⟩

/-- Pages that share no byte have different addresses. -/
theorem PagesOk.nodup (hm : 0 < mps) {addrs : List Nat} (h : PagesOk mps (addrs.map (pageAt mps))) :
    addrs.Nodup := by
  refine (List.pairwise_map.mp h.apart).imp fun hap he => ?_
  rcases hap with hap | hap
  · rw [he] at hap
    exact absurd hap (by show ¬ (_ + mps ≤ _); omega)
  · rw [he] at hap
    exact absurd hap (by show ¬ (_ + mps ≤ _); omega)

/-! ## The data pages, found from either side -/

theorem map_iova_pageAt (ds : List Nat) : (ds.map (pageAt mps)).map MemoryLocation.iova = ds := by
  rw [List.map_map]
  exact List.map_id ds

/-- The known pages at one address. -/
theorem filter_pageAt (addrs : List Nat) (d : Nat) :
    ((addrs.map (pageAt mps)).filter fun p => p.iova = d)
      = List.replicate (addrs.count d) (pageAt mps d) := by
  induction addrs with
  | nil => rfl
  | cons a addrs ih =>
      rw [List.map_cons, List.count_cons]
      by_cases h : a = d
      · subst h
        rw [List.filter_cons_of_pos (by exact decide_eq_true rfl), ih, if_pos (beq_self_eq_true a)]
        rfl
      · rw [List.filter_cons_of_neg (by simp [pageAt, h]), ih, if_neg (by simpa using h),
          Nat.add_zero]

/-- Pages that are neither the first nor at PRP2 contribute nothing of their own. -/
theorem segmentsLoop_other :
    ∀ {addrs : List Nat}, (∀ x ∈ addrs, prp.prp1 ≠ x ∧ prp.prp2 ≠ x) →
      prp.segmentsLoop mem (addrs.map (pageAt prp.mps)) = .ok [] := by
  intro addrs
  induction addrs with
  | nil => exact fun _ => rfl
  | cons a addrs ih =>
      intro h
      obtain ⟨h1, h2⟩ := h a List.mem_cons_self
      rw [List.map_cons, segmentsLoop_cons, ih fun x hx => h x (List.mem_cons_of_mem a hx),
        pageSegments, if_neg (show prp.prp2 ≠ (pageAt prp.mps a).iova from h2),
        if_neg (show prp.prp1 ≠ (pageAt prp.mps a).iova from h1)]
      rfl

/-- One page, nothing at PRP2. -/
theorem getDataSegments_page {a : Nat} (h1 : prp.prp1 = a) (h2 : prp.prp2 = 0) (ha : a ≠ 0)
    (hlist : prp.memList = [pageAt prp.mps a]) :
    prp.getDataSegments mem = .ok [pageAt prp.mps a] := by
  rw [getDataSegments, hlist, segmentsLoop_cons, pageSegments,
    if_neg (show prp.prp2 ≠ (pageAt prp.mps a).iova by rw [h2]; exact fun h => ha h.symm),
    if_pos (show prp.prp1 = (pageAt prp.mps a).iova from h1)]
  rfl

/-- **A first page and the pages listed at PRP2**, zero entries and zero pages ignored. -/
theorem getDataSegments_list {a l r z : Nat} {ds : List Nat} (h1 : prp.prp1 = a)
    (h2 : prp.prp2 = l) (hlist : prp.memList
      = (a :: l :: (ds ++ List.replicate z 0)).map (pageAt prp.mps))
    (hnodup : (a :: l :: ds).Nodup) (hne : 0 ∉ a :: l :: ds)
    (hwords : mem.words l (prp.mps / 8) = ds ++ List.replicate r 0) :
    prp.getDataSegments mem = .ok ((a :: ds).map (pageAt prp.mps)) := by
  obtain ⟨hal, hds⟩ := List.nodup_cons.mp hnodup
  obtain ⟨hlds, _⟩ := List.nodup_cons.mp hds
  have ha0 : a ≠ 0 := fun h => hne (h ▸ List.mem_cons_self)
  have hl0 : l ≠ 0 := fun h => hne (h ▸ List.mem_cons_of_mem a List.mem_cons_self)
  have hla : l ≠ a := fun h => hal (h ▸ List.mem_cons_self)
  -- the list page: each entry is the address of exactly one known page
  have hentries : prp.listSegments (mem.words l (prp.mps / 8)) = .ok (ds.map (pageAt prp.mps)) := by
    have hone := @listSegments_eq prp (ds.map (pageAt prp.mps)) r fun s hs => by
      obtain ⟨d, hd, rfl⟩ := List.mem_map.mp hs
      have hd' : d ∈ a :: l :: ds := List.mem_cons_of_mem a (List.mem_cons_of_mem l hd)
      have hd0 : d ≠ 0 := fun h => hne (h ▸ hd')
      refine ⟨hd0, ?_⟩
      have hcount : (a :: l :: (ds ++ List.replicate z 0)).count d = 1 := by
        have hz : (List.replicate z 0).count d = 0 :=
          List.count_eq_zero.mpr fun h => hd0 (List.eq_of_mem_replicate h)
        rw [← List.cons_append, ← List.cons_append, List.count_append, hz,
          hnodup.count, if_pos hd']
      show (prp.memList.filter fun p => p.iova = d) = [pageAt prp.mps d]
      rw [hlist, filter_pageAt, hcount]
      rfl
    rw [map_iova_pageAt] at hone
    rw [hwords]
    exact hone
  have hothers : ∀ x ∈ ds ++ List.replicate z 0, prp.prp1 ≠ x ∧ prp.prp2 ≠ x := by
    intro x hx
    rw [h1, h2]
    rcases List.mem_append.mp hx with hx | hx
    · exact ⟨fun h => hal (h ▸ List.mem_cons_of_mem l hx), fun h => hlds (h ▸ hx)⟩
    · rw [List.eq_of_mem_replicate hx]
      exact ⟨ha0, hl0⟩
  have hfirst : prp.pageSegments mem (pageAt prp.mps a) = .ok [] := by
    rw [pageSegments, if_neg (show prp.prp2 ≠ (pageAt prp.mps a).iova by rw [h2]; exact hla)]
  have hsecond : prp.pageSegments mem (pageAt prp.mps l) = .ok (ds.map (pageAt prp.mps)) := by
    rw [pageSegments, if_pos (show prp.prp2 = (pageAt prp.mps l).iova from h2)]
    exact hentries
  rw [getDataSegments, hlist, List.map_cons, List.map_cons, segmentsLoop_cons, segmentsLoop_cons,
    segmentsLoop_other hothers, hfirst, hsecond,
    if_pos (show prp.prp1 = (pageAt prp.mps a).iova from h1),
    if_neg (show prp.prp1 ≠ (pageAt prp.mps l).iova by rw [h1]; exact fun h => hla h.symm)]
  show Except.ok ([pageAt prp.mps a] ++ [] ++ ([] ++ ds.map (pageAt prp.mps) ++ [])) = _
  rw [List.append_nil, List.append_nil, List.nil_append]
  rfl

/-! ## What `alloc` leaves -/

/--
A buffer in memory, with the addresses of its data pages: one page, or a first page
and the page at PRP2, which lists the others. Up to two pages it lists none.
-/
inductive Laid (mem : Mem) (prp : PRP) : List Nat → Prop where
  | page {a : Nat} : prp.numBytes ≤ prp.mps → prp.prp1 = a → prp.prp2 = 0 →
      prp.memList = [pageAt prp.mps a] → Laid mem prp [a]
  | list {a l r : Nat} {ds : List Nat} : prp.mps < prp.numBytes → prp.prp1 = a → prp.prp2 = l →
      prp.memList = (a :: l :: ds).map (pageAt prp.mps) →
      mem.words l (prp.mps / 8) = ds ++ List.replicate r 0 →
      (prp.numBytes ≤ 2 * prp.mps → ds = []) →
      (2 * prp.mps < prp.numBytes → prp.numBytes ≤ (ds.length + 1) * prp.mps) →
      Laid mem prp (a :: ds)

/-- The data pages are some of the pages the object holds. -/
theorem Laid.sublist {addrs : List Nat} (h : prp.Laid mem addrs) :
    (addrs.map (pageAt prp.mps)).Sublist prp.memList := by
  cases h with
  | page _ _ _ hlist =>
      rw [hlist]
      exact List.Sublist.refl _
  | @list a l r ds _ _ _ hlist _ _ _ =>
      rw [hlist]
      exact List.Sublist.cons_cons _ (List.sublist_cons_self _ _)

/-- **Frame.** Only the list page holds anything a layout depends on. -/
theorem Laid.frame {addrs : List Nat} (h : prp.Laid mem addrs)
    (hsame : prp.mps < prp.numBytes →
      ∀ x, prp.prp2 ≤ x → x < prp.prp2 + prp.mps → mem' x = mem x) : prp.Laid mem' addrs := by
  cases h with
  | page hle h1 h2 hlist => exact .page hle h1 h2 hlist
  | @list a l r ds hlt h1 h2 hlist hwords hshort hroom =>
      refine .list (r := r) hlt h1 h2 hlist ?_ hshort hroom
      rw [← hwords]
      refine Mem.words_congr fun x hx => hsame hlt _ (by omega) ?_
      have := Nat.div_mul_le_self prp.mps 8
      omega

/-- **The host finds the data pages.** -/
theorem Laid.host {addrs : List Nat} (hm : 0 < prp.mps) (h : prp.Laid mem addrs)
    (hpages : PagesOk prp.mps prp.memList) :
    prp.getDataSegments mem = .ok (addrs.map (pageAt prp.mps)) := by
  cases h with
  | @page a _ h1 h2 hlist =>
      rw [hlist] at hpages
      exact getDataSegments_page h1 h2 (hpages.ne_zero _ List.mem_cons_self) hlist
  | @list a l r ds _ h1 h2 hlist hwords _ _ =>
      rw [hlist] at hpages
      refine getDataSegments_list (z := 0) h1 h2 ?_ (hpages.nodup hm) ?_ hwords
      · rw [List.replicate_zero, List.append_nil]
        exact hlist
      · intro h0
        exact hpages.ne_zero (pageAt prp.mps 0) (List.mem_map_of_mem h0) rfl

/-- **The other side finds them too**, from the two addresses. -/
theorem Laid.attach {addrs : List Nat} (hm : 0 < prp.mps) (hn : 0 < prp.numBytes)
    (h : prp.Laid mem addrs) (hpages : PagesOk prp.mps prp.memList) :
    ∃ other, attach prp.numBytes prp.mps mem prp.prp1 prp.prp2 = .ok other
      ∧ other.mps = prp.mps ∧ other.getDataSegments mem = .ok (addrs.map (pageAt prp.mps)) := by
  have hok := (@attach_eq prp.mps prp.numBytes prp.prp1 prp.prp2 mem hm hn).1
  cases h with
  | @page a hle h1 h2 hlist =>
      rw [hlist] at hpages
      have ha : a ≠ 0 := hpages.ne_zero _ List.mem_cons_self
      refine ⟨_, hok ⟨by rw [h1]; exact ha, fun hlt => absurd hle (Nat.not_le.mpr hlt)⟩, rfl, ?_⟩
      refine getDataSegments_page h1 (if_pos hle) ha ?_
      show (addresses _ _ _ _ _).map _ = _
      rw [addresses, if_pos hle, h1]
      rfl
  | @list a l r ds hlt h1 h2 hlist hwords hshort hroom =>
      rw [hlist] at hpages
      have hne : 0 ∉ a :: l :: ds := fun h0 =>
        hpages.ne_zero (pageAt prp.mps 0) (List.mem_map_of_mem h0) rfl
      have ha : a ≠ 0 := fun h0 => hne (h0 ▸ List.mem_cons_self)
      have hl : l ≠ 0 := fun h0 => hne (h0 ▸ List.mem_cons_of_mem a List.mem_cons_self)
      have hgt : ¬ prp.numBytes ≤ prp.mps := Nat.not_le.mpr hlt
      refine ⟨_, hok ⟨by rw [h1]; exact ha, fun _ => by rw [h2]; exact hl⟩, rfl, ?_⟩
      -- it also knows a page for every zero entry, if it reads the list at all
      refine getDataSegments_list (z := if prp.numBytes ≤ 2 * prp.mps then 0 else r) h1
        ((if_neg hgt).trans h2) ?_ (hpages.nodup hm) hne hwords
      show (addresses _ _ _ _ _).map _ = _
      rw [addresses, if_neg hgt, h1, h2]
      by_cases h2m : prp.numBytes ≤ 2 * prp.mps
      · rw [if_pos h2m, if_pos h2m, hshort h2m]
        rfl
      · rw [if_neg h2m, if_neg h2m, hwords]
        rfl

/-! ## `alloc` lays a buffer out -/

/-- The word of the list page that one round of the loop writes. -/
theorem words_mallocPage {v a l i r : Nat} {done : List Nat} (ha : a < 2 ^ 64)
    (hap : v + mps ≤ l ∨ l + mps ≤ v) (hlen : done.length = i)
    (hwords : mem.words l (mps / 8) = done ++ List.replicate (r + 1) 0) :
    ((mem.store v (List.replicate mps 0)).storeWord (l + 8 * i) a).words l (mps / 8)
      = (done ++ [a]) ++ List.replicate r 0 := by
  have hdisj : l + 8 * (mps / 8) ≤ v ∨ v + (List.replicate mps (0 : BitVec 8)).length ≤ l := by
    have := Nat.div_mul_le_self mps 8
    rw [List.length_replicate]
    omega
  subst hlen
  rw [Mem.words_storeWord _ ha, Mem.words_store_disjoint mem hdisj, hwords, Mem.set_zeros]

/--
**The loop of `alloc`**: the pages it adds, what it leaves alone, and the entries it
makes in the list page, `done` being those made before.
-/
theorem allocList_ok {page : Nat → MemoryLocation} :
    ∀ {left i : Nat} {remBytes : Int} {prp prp' : PRP} {mem mem' : Mem}, prp.mps = mps →
      8 * (i + left) ≤ mps → allocList page left i remBytes prp mem = (prp', mem', .ok ()) →
      ∃ segments : List MemoryLocation, (∀ s ∈ segments, ∃ k, s = page k)
        ∧ prp' = { prp with memList := prp.memList ++ segments }
        ∧ remBytes ≤ segments.length * mps
        ∧ (∀ x, (x < (page 1).vaddr ∨ (page 1).vaddr + mps ≤ x) →
            (∀ s ∈ segments, x < s.vaddr ∨ s.vaddr + mps ≤ x) → mem' x = mem x)
        ∧ ((∀ s ∈ segments, s.iova < 2 ^ 64 ∧ Apart mps s (page 1)) →
            ∀ (done : List Nat) {r : Nat}, done.length = i → left ≤ r →
              mem.words (page 1).vaddr (mps / 8) = done ++ List.replicate r 0 →
              ∃ r', mem'.words (page 1).vaddr (mps / 8)
                = (done ++ segments.map MemoryLocation.iova) ++ List.replicate r' 0) := by
  intro left
  induction left with
  | zero =>
      intro i remBytes prp prp' mem mem' _ _ h
      rw [allocList] at h
      injection h with _ h
      injection h with _ h
      exact absurd h (by simp)
  | succ left ih =>
      intro i remBytes prp prp' mem mem' hmps hfit h
      subst hmps
      rw [allocList] at h
      dsimp only [mallocPage] at h
      generalize hv : page (i + 2) = segment at h
      -- what this round writes: the new page, and one word of the list page
      have hframe : ∀ x, (x < (page 1).vaddr ∨ (page 1).vaddr + prp.mps ≤ x) →
          (x < segment.vaddr ∨ segment.vaddr + prp.mps ≤ x) →
          ((mem.store segment.vaddr (List.replicate prp.mps 0)).storeWord ((page 1).vaddr + 8 * i)
            segment.iova) x = mem x := by
        intro x hx hs
        rw [Mem.storeWord, Mem.store_outside _ (by rw [Mem.length_toLE]; omega),
          Mem.store_outside _ (by rw [List.length_replicate]; exact hs)]
      by_cases hdone : remBytes - prp.mps ≤ 0
      · rw [if_pos hdone] at h
        injection h with hprp h
        injection h with hmem _
        subst hprp hmem
        refine ⟨[segment], ?_, rfl, by rw [List.length_singleton]; omega, ?_, ?_⟩
        · exact fun s hs => ⟨i + 2, (List.mem_singleton.mp hs).trans hv.symm⟩
        · exact fun x hx hs => hframe x hx (hs _ List.mem_cons_self)
        · intro hs done r hlen hr hwords
          obtain ⟨hlt, hap⟩ := hs _ List.mem_cons_self
          obtain ⟨r, rfl⟩ : ∃ r', r = r' + 1 := ⟨r - 1, by omega⟩
          exact ⟨r, words_mallocPage hlt hap hlen hwords⟩
      · rw [if_neg hdone] at h
        have hfit' : 8 * (i + 1 + left) ≤ prp.mps := by omega
        have hrest := fun he => ih he hfit' h
        obtain ⟨segments, hpage, hprp, hrem, hout, hin⟩ := hrest rfl
        refine ⟨segment :: segments, ?_, ?_, ?_, ?_, ?_⟩
        · intro s hs
          rcases List.mem_cons.mp hs with rfl | hs
          · exact ⟨i + 2, hv.symm⟩
          · exact hpage s hs
        · rw [hprp]
          dsimp only
          rw [List.append_assoc]
          rfl
        · rw [List.length_cons, Nat.cast_succ, Int.add_mul]
          omega
        · intro x hx hs
          rw [hout x hx fun s hm => hs s (List.mem_cons_of_mem _ hm)]
          exact hframe x hx (hs _ List.mem_cons_self)
        · intro hs done r hlen hr hwords
          obtain ⟨hlt, hap⟩ := hs _ List.mem_cons_self
          obtain ⟨r, rfl⟩ : ∃ r', r = r' + 1 := ⟨r - 1, by omega⟩
          obtain ⟨r', hr'⟩ := hin (fun s hm => hs s (List.mem_cons_of_mem _ hm))
            (done ++ [segment.iova]) (by rw [List.length_append, hlen]; rfl)
            (Nat.le_of_succ_le_succ hr) (words_mallocPage hlt hap hlen hwords)
          rw [List.append_assoc done] at hr'
          exact ⟨r', hr'⟩

/-- The listed pages share nothing with the list page. -/
theorem PagesOk.apart_list {first list : MemoryLocation} {segments : List MemoryLocation}
    (h : PagesOk mps (first :: list :: segments)) :
    ∀ s ∈ segments, s.vaddr < 2 ^ 64 ∧ Apart mps s list := by
  intro s hs
  obtain ⟨_, hrest⟩ := List.pairwise_cons.mp h.apart
  obtain ⟨hap, _⟩ := List.pairwise_cons.mp hrest
  exact ⟨h.lt _ (List.mem_cons_of_mem _ (List.mem_cons_of_mem _ hs)), (hap _ hs).symm⟩

/-- Pages that the program and the device address alike. -/
theorem eq_map_pageAt {segments : List MemoryLocation} (h : ∀ s ∈ segments, s = pageAt mps s.vaddr) :
    segments = (segments.map MemoryLocation.vaddr).map (pageAt mps) := by
  rw [List.map_map, List.map_congr_left (g := id), List.map_id]
  exact fun s hs => (h s hs).symm

/-- **`alloc` lays its buffer out**, and writes to its own pages only. -/
theorem alloc_laid {numBytes : Nat} (hm : 0 < mps) (hn : 0 < numBytes) {page : Nat → MemoryLocation}
    (hpage : ∀ k, page k = pageAt mps (page k).vaddr)
    (h : PRP.alloc { numBytes, mps } mem page = (prp, mem', .ok ()))
    (hpages : PagesOk mps prp.memList) :
    prp.numBytes = numBytes ∧ prp.mps = mps ∧ (∃ addrs, prp.Laid mem' addrs)
      ∧ ∀ x, (∀ s ∈ prp.memList, x < s.vaddr ∨ s.vaddr + mps ≤ x) → mem' x = mem x := by
  have hcases := @pagesNeeded_cases { numBytes, mps } hm hn
  dsimp only at hcases
  have h0 : (page 0).iova = (page 0).vaddr := by rw [hpage 0]; rfl
  have h1 : (page 1).iova = (page 1).vaddr := by rw [hpage 1]; rfl
  unfold PRP.alloc at h
  dsimp only [mallocPage, List.nil_append] at h
  unfold pagesNeeded at hcases h
  dsimp only at hcases h
  have hwords : 8 * (mps / 8) ≤ mps := by omega
  rcases hcases with ⟨hle, hneed⟩ | ⟨hlt, hle, hneed⟩ | ⟨hlt, hneed⟩
  · -- one page
    rw [if_pos hneed] at h
    injection h with hprp h
    injection h with hmem _
    subst hprp hmem
    refine ⟨rfl, rfl, ⟨_, .page hle h0 rfl (by rw [← hpage 0])⟩, fun x hx => ?_⟩
    refine Mem.store_outside _ ?_
    rw [List.length_replicate]
    exact hx _ List.mem_cons_self
  · -- two pages: the second reads as a list of nothing
    rw [if_neg (by omega), if_pos hneed] at h
    injection h with hprp h
    injection h with hmem _
    subst hprp hmem
    refine ⟨rfl, rfl, ⟨_, @Laid.list _ _ _ _ _ [] hlt h0 h1 ?_ (Mem.words_zeros _ hwords) (fun _ => rfl)
      fun hgt => absurd hle (Nat.not_le.mpr hgt)⟩, fun x hx => ?_⟩
    · rw [List.map_cons, List.map_cons, ← hpage 0, ← hpage 1]
      rfl
    · have hx0 := hx (page 0) List.mem_cons_self
      have hx1 := hx (page 1) (List.mem_cons_of_mem _ List.mem_cons_self)
      rw [Mem.store_outside _ (by rw [List.length_replicate]; exact hx1),
        Mem.store_outside _ (by rw [List.length_replicate]; exact hx0)]
  · -- a list page, and the pages it lists
    rw [if_neg (by omega), if_neg (by omega)] at h
    have hleft : 8 * (0 + prpsPerPage mps) ≤ mps := by
      unfold prpsPerPage
      omega
    obtain ⟨segments, hfrom, hprp, hrem, hout, hin⟩ := @allocList_ok mps page _ _ _ _ _ _ _ rfl hleft h
    -- whatever pages were listed, each is the one at its address
    have halike : ∀ s ∈ segments, s = pageAt mps s.vaddr := by
      intro s hs
      obtain ⟨k, rfl⟩ := hfrom s hs
      exact hpage k
    obtain ⟨ds, rfl⟩ : ∃ ds : List Nat, segments = ds.map (pageAt mps) := ⟨_, eq_map_pageAt halike⟩
    rw [map_iova_pageAt] at hin
    rw [List.length_map] at hrem
    subst hprp
    dsimp only at hpages hrem ⊢
    have hlist : [page 0] ++ [page 1] ++ ds.map (pageAt mps)
        = ((page 0).vaddr :: (page 1).vaddr :: ds).map (pageAt mps) := by
      rw [List.map_cons, List.map_cons, ← hpage 0, ← hpage 1]
      rfl
    rw [hlist] at hpages ⊢
    have hds : ∀ s ∈ ds.map (pageAt mps), s.iova < 2 ^ 64 ∧ Apart mps s (page 1) := by
      intro s hs
      obtain ⟨d, _, rfl⟩ := List.mem_map.mp hs
      exact hpages.apart_list (pageAt mps d) hs
    obtain ⟨r, hr⟩ := hin hds [] rfl (by unfold prpsPerPage; omega) (Mem.words_zeros _ hwords)
    refine ⟨rfl, rfl, ⟨_, .list (by show mps < numBytes; omega) h0 h1 rfl hr
      (fun hle => absurd hle (Nat.not_le.mpr hlt)) fun _ => ?_⟩, fun x hx => ?_⟩
    · show numBytes ≤ (ds.length + 1) * mps
      rw [Nat.succ_mul]
      exact_mod_cast (show (numBytes : Int) ≤ ds.length * mps + mps by omega)
    · have hx0 := hx _ List.mem_cons_self
      have hx1 := hx _ (List.mem_cons_of_mem _ List.mem_cons_self)
      rw [hout x hx1 fun s hs => hx s (List.mem_cons_of_mem _ (List.mem_cons_of_mem _ hs)),
        Mem.store_outside _ (by rw [List.length_replicate]; exact hx1),
        Mem.store_outside _ (by rw [List.length_replicate]; exact hx0)]

/-! ## What a buffer can carry -/

/-- One page at most, or whole pages, but not two of them. -/
def Movable (mps n : Nat) : Prop := n ≤ mps ∨ mps ∣ n ∧ 2 * mps < n

instance (mps n : Nat) : Decidable (Movable mps n) :=
  inferInstanceAs (Decidable (n ≤ mps ∨ mps ∣ n ∧ 2 * mps < n))

/-- Data of a movable size fits the data pages, and is scattered without raising. -/
theorem Laid.capacity {addrs : List Nat} (h : prp.Laid mem addrs)
    (hmove : Movable prp.mps prp.numBytes) :
    prp.numBytes ≤ addrs.length * prp.mps ∧ Fits prp.mps prp.numBytes addrs.length := by
  cases h with
  | page hle _ _ _ =>
      rw [List.length_singleton, Nat.one_mul]
      exact ⟨hle, Or.inr (Nat.le_max_left 1 _)⟩
  | list hlt _ _ _ _ _ hroom =>
      rcases hmove with hle | ⟨hdvd, h2⟩
      · exact absurd hle (Nat.not_le.mpr hlt)
      · exact ⟨hroom h2, Or.inl hdvd⟩

/-- The second of two pages is not among the data pages. -/
theorem Laid.length_of_two {addrs : List Nat} (h : prp.Laid mem addrs)
    (h2 : prp.numBytes ≤ 2 * prp.mps) : addrs.length = 1 := by
  cases h with
  | page _ _ _ _ => rfl
  | list _ _ _ _ _ hshort _ => rw [hshort h2]; rfl

/-- The two addresses fit their fields in a command. -/
theorem Laid.prp_lt {addrs : List Nat} (h : prp.Laid mem addrs)
    (hpages : PagesOk prp.mps prp.memList) : prp.prp1 < 2 ^ 64 ∧ prp.prp2 < 2 ^ 64 := by
  have hlt := hpages.lt
  cases h with
  | @page a _ h1 h2 hlist =>
      rw [hlist] at hlt
      rw [h1, h2]
      exact ⟨hlt (pageAt prp.mps a) List.mem_cons_self, by omega⟩
  | @list a l r ds _ h1 h2 hlist _ _ _ =>
      rw [hlist] at hlt
      rw [h1, h2]
      exact ⟨hlt (pageAt prp.mps a) List.mem_cons_self,
        hlt (pageAt prp.mps l) (List.mem_cons_of_mem _ List.mem_cons_self)⟩

theorem Laid.apart {addrs : List Nat} (h : prp.Laid mem addrs)
    (hpages : PagesOk prp.mps prp.memList) : (addrs.map (pageAt prp.mps)).Pairwise (Apart prp.mps) :=
  hpages.apart.sublist h.sublist

/-- The list page is one of the pages held, and no data page. -/
theorem Laid.second {addrs : List Nat} (h : prp.Laid mem addrs)
    (hpages : PagesOk prp.mps prp.memList) (hlt : prp.mps < prp.numBytes) :
    pageAt prp.mps prp.prp2 ∈ prp.memList
      ∧ ∀ s ∈ addrs.map (pageAt prp.mps), Apart prp.mps (pageAt prp.mps prp.prp2) s := by
  cases h with
  | page hle _ _ _ => exact absurd hle (Nat.not_le.mpr hlt)
  | @list a l r ds _ _ h2 hlist _ _ _ =>
      have hap := hpages.apart
      rw [hlist] at hap ⊢
      rw [h2]
      obtain ⟨hfirst, hrest⟩ := List.pairwise_cons.mp hap
      obtain ⟨hsecond, _⟩ := List.pairwise_cons.mp hrest
      refine ⟨List.mem_cons_of_mem _ List.mem_cons_self, fun s hs => ?_⟩
      rcases List.mem_cons.mp hs with rfl | hs
      · exact (hfirst _ List.mem_cons_self).symm
      · exact hsecond s hs

/-! ## Moving data through one -/

/-- Pages of the size of the object. -/
theorem size_pageAt {addrs : List Nat} : ∀ s ∈ addrs.map (pageAt mps), s.size = mps := by
  intro s hs
  obtain ⟨a, _, rfl⟩ := List.mem_map.mp hs
  rfl

/-- **Filling the buffer** scatters the data, or raises. -/
theorem Laid.setDataBuffer {addrs : List Nat} (hm : 0 < prp.mps) (h : prp.Laid mem addrs)
    (hpages : PagesOk prp.mps prp.memList) (data : List (BitVec 8)) :
    (Fits prp.mps data.length addrs.length → prp.setDataBuffer mem data
        = .ok (scatter prp.mps mem (addrs.map (pageAt prp.mps)) data))
      ∧ (¬ Fits prp.mps data.length addrs.length → ∃ e, prp.setDataBuffer mem data = .error e) := by
  have hset := @setDataBuffer_eq prp mem _ data hm (h.host hm hpages) size_pageAt
  rw [List.length_map] at hset
  exact hset

theorem Laid.getDataBuffer {addrs : List Nat} (hm : 0 < prp.mps) (h : prp.Laid mem addrs)
    (hpages : PagesOk prp.mps prp.memList) :
    prp.getDataBuffer mem = .ok (gather prp.mps mem (addrs.map (pageAt prp.mps))) :=
  getDataBuffer_eq (h.host hm hpages) size_pageAt

/-- **The other side** fills and reads the same pages. -/
theorem Laid.other {addrs : List Nat} (hm : 0 < prp.mps) (hn : 0 < prp.numBytes)
    (h : prp.Laid mem addrs) (hpages : PagesOk prp.mps prp.memList) :
    ∃ other, PRP.attach prp.numBytes prp.mps mem prp.prp1 prp.prp2 = .ok other
      ∧ other.getDataBuffer mem = .ok (gather prp.mps mem (addrs.map (pageAt prp.mps)))
      ∧ ∀ data, Fits prp.mps data.length addrs.length → other.setDataBuffer mem data
        = .ok (scatter prp.mps mem (addrs.map (pageAt prp.mps)) data) := by
  obtain ⟨other, hattach, hmps, hsegments⟩ := h.attach hm hn hpages
  rw [← hmps] at hm hsegments ⊢
  refine ⟨other, by rw [hmps]; exact hattach, getDataBuffer_eq hsegments size_pageAt, ?_⟩
  intro data hfits
  refine (@setDataBuffer_eq other mem _ data hm hsegments size_pageAt).1 ?_
  rw [List.length_map]
  exact hfits

/-! ## All the buffers of a host -/

/-- The buffers in use: laid out in memory, on pages of their own. -/
structure Buffers (mps : Nat) (mem : Mem) (prps : List PRP) : Prop where
  pages : PagesOk mps (prps.flatMap memList)
  laid : ∀ prp ∈ prps, prp.mps = mps ∧ 0 < prp.numBytes ∧ ∃ addrs, prp.Laid mem addrs

theorem Buffers.pagesOk {prps : List PRP} (h : Buffers mps mem prps) (hp : prp ∈ prps) :
    PagesOk mps prp.memList :=
  ⟨fun s hs => h.pages.ne_zero s (List.mem_flatMap.mpr ⟨prp, hp, hs⟩),
    fun s hs => h.pages.lt s (List.mem_flatMap.mpr ⟨prp, hp, hs⟩),
    (List.pairwise_flatMap.mp h.pages.apart).1 prp hp⟩

/-- Two buffers share no byte. -/
theorem Buffers.apart {prps : List PRP} {prp' : PRP} (h : Buffers mps mem prps) (hp : prp ∈ prps)
    (hp' : prp' ∈ prps) (hne : prp ≠ prp') :
    ∀ s ∈ prp.memList, ∀ t ∈ prp'.memList, Apart mps s t := by
  have hsymm : Std.Symm fun p q : PRP => ∀ s ∈ p.memList, ∀ t ∈ q.memList, Apart mps s t :=
    ⟨fun p q hpq t ht s hs => (hpq s hs t ht).symm⟩
  exact (List.pairwise_flatMap.mp h.pages.apart).2.forall hp hp' hne

theorem Buffers.erase {prps : List PRP} (h : Buffers mps mem prps) (k : Nat) :
    Buffers mps mem (prps.eraseIdx k) := by
  have hsub : (prps.eraseIdx k).Sublist prps := List.eraseIdx_sublist prps k
  exact ⟨h.pages.sublist (hsub.flatMap memList), fun p hp => h.laid p (hsub.subset hp)⟩

/-- A new buffer, its pages being none that are in use. -/
theorem Buffers.alloc {prps : List PRP} (h : Buffers mps mem prps) (hm : 0 < mps) {numBytes : Nat}
    (hn : 0 < numBytes) {page : Nat → MemoryLocation}
    (hpage : ∀ k, page k = pageAt mps (page k).vaddr)
    (halloc : PRP.alloc { numBytes, mps } mem page = (prp, mem', .ok ()))
    (hpages : PagesOk mps ((prp :: prps).flatMap memList)) : Buffers mps mem' (prp :: prps) := by
  have hown : PagesOk mps prp.memList := by
    rw [List.flatMap_cons] at hpages
    exact hpages.sublist (List.sublist_append_left _ _)
  obtain ⟨hbytes, hmps, hlaid, hframe⟩ := alloc_laid hm hn hpage halloc hown
  refine ⟨hpages, fun q hq => ?_⟩
  rcases List.mem_cons.mp hq with rfl | hq
  · exact ⟨hmps, by rw [hbytes]; exact hn, hlaid⟩
  · obtain ⟨hqmps, hqn, addrs, hq'⟩ := h.laid q hq
    refine ⟨hqmps, hqn, addrs, hq'.frame fun hlt x hx hxlt => hframe x fun s hs => ?_⟩
    -- the list page of an older buffer is apart from every new page
    have hqpages := h.pagesOk hq
    rw [← hqmps] at hqpages
    have hmem := (hq'.second hqpages hlt).1
    have hap := hpages.apart
    rw [List.flatMap_cons, List.pairwise_append] at hap
    rcases hap.2.2 s hs _ (List.mem_flatMap.mpr ⟨q, hq, hmem⟩) with hst | hst
    · right
      exact Nat.le_trans hst hx
    · left
      rw [hqmps] at hxlt
      exact Nat.lt_of_lt_of_le hxlt hst

/-- **Filling a buffer** leaves every buffer laid out, with the same data pages. -/
theorem Buffers.scatter {prps : List PRP} (h : Buffers mps mem prps) {prp : PRP} (hp : prp ∈ prps)
    {addrs : List Nat} (hl : prp.Laid mem addrs) (data : List (BitVec 8)) :
    prp.Laid (PRP.scatter mps mem (addrs.map (pageAt mps)) data) addrs
      ∧ Buffers mps (PRP.scatter mps mem (addrs.map (pageAt mps)) data) prps := by
  obtain ⟨hmps, _, _⟩ := h.laid prp hp
  have hown := h.pagesOk hp
  subst hmps
  have hself : prp.Laid (PRP.scatter prp.mps mem (addrs.map (pageAt prp.mps)) data) addrs :=
    hl.frame fun hlt => scatter_outside (hl.second hown hlt).2
  refine ⟨hself, h.pages, fun q hq => ?_⟩
  obtain ⟨hqmps, hqn, addrs', hq'⟩ := h.laid q hq
  refine ⟨hqmps, hqn, ?_⟩
  by_cases hqp : prp = q
  · subst hqp
    exact ⟨addrs, hself⟩
  · refine ⟨addrs', hq'.frame fun hlt => scatter_outside fun s hs => ?_⟩
    have hqpages := h.pagesOk hq
    rw [← hqmps] at hqpages
    have hap := h.apart hp hq hqp s (hl.sublist.subset hs) _ (hq'.second hqpages hlt).1
    rw [hqmps]
    exact hap.symm

/-- **What goes in comes out**, from either side, through the data pages of one buffer. -/
theorem Laid.gather_scatter {addrs : List Nat} (h : prp.Laid mem addrs)
    (hpages : PagesOk prp.mps prp.memList) {data : List (BitVec 8)}
    (hlen : data.length ≤ addrs.length * prp.mps) :
    (gather prp.mps (PRP.scatter prp.mps mem (addrs.map (pageAt prp.mps)) data)
      (addrs.map (pageAt prp.mps))).take data.length = data :=
  PRP.gather_scatter (h.apart hpages) (by rw [List.length_map]; exact hlen)

/-- **Data of the size of a buffer** goes in, and going in once more changes nothing. -/
theorem Buffers.fill {prps : List PRP} (h : Buffers mps mem prps) (hm : 0 < mps) {prp : PRP}
    (hp : prp ∈ prps) (hmove : Movable mps prp.numBytes) {data : List (BitVec 8)}
    (hlen : data.length = prp.numBytes) : ∃ mem', prp.setDataBuffer mem data = .ok mem'
      ∧ Buffers mps mem' prps ∧ prp.setDataBuffer mem' data = .ok mem' := by
  obtain ⟨rfl, _, addrs, hlaid⟩ := h.laid prp hp
  have hpages := h.pagesOk hp
  obtain ⟨hroom, hfits⟩ := hlaid.capacity hmove
  rw [← hlen] at hroom hfits
  obtain ⟨hlaid', hbuffers⟩ := h.scatter hp hlaid data
  have hback := hlaid.gather_scatter hpages hroom
  refine ⟨_, (hlaid.setDataBuffer hm hpages data).1 hfits, hbuffers, ?_⟩
  rw [(hlaid'.setDataBuffer hm hpages data).1 hfits, scatter_eq_self hback]

end PRP

end LoneNvme
