import LoneNvme.Prp

/-!
# What a PRP transfer moves

Filling a buffer scatters its data over the data pages in pieces of `mps` bytes,
reading it gathers them back. `set_data_buffer` does so exactly for data that fits
one page, or whose length is a multiple of the page size, or that covers all its
pages: for the last, partial page of any other data the source takes its slices with
the wrong bounds, and the assignment raises.
-/

namespace LoneNvme

open Lib

namespace PRP

variable {mps : Nat}

/-! ## How many pages -/

theorem dataPages_le_iff {numBytes k : Nat} (hm : 0 < mps) :
    dataPages numBytes mps ≤ k ↔ numBytes ≤ k * mps := by
  unfold dataPages
  rw [← Nat.lt_succ_iff, Nat.div_lt_iff_lt_mul hm, Nat.succ_mul]
  omega

theorem dataPages_pos {numBytes : Nat} (hm : 0 < mps) (hn : 0 < numBytes) :
    0 < dataPages numBytes mps := by
  have h := (@dataPages_le_iff mps numBytes 0 hm).mp
  rw [Nat.zero_mul] at h
  omega

/-- One page, two pages, or a list. -/
theorem pagesNeeded_cases {prp : PRP} (hm : 0 < prp.mps) (hn : 0 < prp.numBytes) :
    (prp.numBytes ≤ prp.mps ∧ prp.pagesNeeded = 1)
      ∨ (prp.mps < prp.numBytes ∧ prp.numBytes ≤ 2 * prp.mps ∧ prp.pagesNeeded = 2)
      ∨ (2 * prp.mps < prp.numBytes ∧ 2 < prp.pagesNeeded) := by
  have hpos := dataPages_pos hm hn
  have h1 := @dataPages_le_iff prp.mps prp.numBytes 1 hm
  have h2 := @dataPages_le_iff prp.mps prp.numBytes 2 hm
  rw [Nat.one_mul] at h1
  unfold pagesNeeded listsNeeded
  by_cases hlist : dataPages prp.numBytes prp.mps > 2
  · rw [if_pos hlist]
    generalize (dataPages prp.numBytes prp.mps - 1 + prpsPerPage prp.mps - 1)
      / prpsPerPage prp.mps = lists
    omega
  · rw [if_neg hlist]
    omega

theorem new_ok {numBytes : Nat} (hm : 0 < mps) (hn : 0 < numBytes) :
    PRP.new numBytes mps = .ok { numBytes, mps } := by
  unfold PRP.new
  rw [decide_eq_true (dataPages_pos hm hn)]
  rfl

theorem new_eq_ok {numBytes : Nat} {prp : PRP} (hm : 0 < mps) (h : PRP.new numBytes mps = .ok prp) :
    0 < numBytes ∧ prp = { numBytes, mps } := by
  obtain ⟨_, hpages, h⟩ := bind_eq_ok h
  have hpos := of_decide_eq_true (assertThat_eq_ok hpages)
  have hzero := (@dataPages_le_iff mps numBytes 0 hm).mpr
  rw [Nat.zero_mul] at hzero
  exact ⟨by omega, (Except.ok.inj h).symm⟩

/-! ## The segments of a list page -/

/-- The entries of a list page all lead to a page, and to one only. -/
def ListOk (prp : PRP) (ds : List Nat) : Prop :=
  ∀ d ∈ ds, d ≠ 0 → (prp.memList.filter fun p => p.iova = d).length = 1

theorem listSegments_ok {prp : PRP} :
    ∀ {ds : List Nat}, prp.ListOk ds → ∃ segments, prp.listSegments ds = .ok segments
      ∧ segments.length = (ds.filter fun d => d ≠ 0).length
      ∧ ∀ s ∈ segments, s ∈ prp.memList := by
  intro ds
  induction ds with
  | nil => exact fun _ => ⟨[], rfl, rfl, by simp⟩
  | cons d ds ih =>
      intro h
      obtain ⟨segments, hs, hlen, hmem⟩ := ih fun e he => h e (List.mem_cons_of_mem d he)
      unfold listSegments
      by_cases hd : d = 0
      · rw [if_pos hd, List.filter_cons_of_neg (by simpa using hd)]
        exact ⟨segments, hs, hlen, hmem⟩
      · obtain ⟨p, hp⟩ := List.length_eq_one_iff.mp (h d List.mem_cons_self hd)
        rw [if_neg hd, hp, hs, List.filter_cons_of_pos (by simpa using hd)]
        refine ⟨p :: segments, rfl, by rw [List.length_cons, List.length_cons, hlen], ?_⟩
        intro s hsm
        rcases List.mem_cons.mp hsm with rfl | hsm
        · exact List.mem_of_mem_filter (hp ▸ List.mem_singleton_self s)
        · exact hmem s hsm

theorem listSegments_error {prp : PRP} :
    ∀ {ds : List Nat}, ¬ prp.ListOk ds → ∃ e, prp.listSegments ds = .error e := by
  intro ds
  induction ds with
  | nil => exact fun h => absurd (fun d hd => absurd hd (by simp)) h
  | cons d ds ih =>
      intro h
      unfold listSegments
      by_cases hd : d = 0
      · rw [if_pos hd]
        refine ih fun hds => h fun e he hne => ?_
        rcases List.mem_cons.mp he with rfl | he
        · exact absurd hd hne
        · exact hds e he hne
      · rw [if_neg hd]
        split
        · rename_i p hp
          obtain ⟨e, he⟩ := ih fun hds => h fun x hx hne => by
            rcases List.mem_cons.mp hx with rfl | hx
            · rw [hp]; rfl
            · exact hds x hx hne
          exact ⟨e, by rw [he]; rfl⟩
        · exact ⟨_, rfl⟩

/-- The entries of a list page that the object itself wrote. -/
theorem listSegments_eq {prp : PRP} {segments : List MemoryLocation} (r : Nat)
    (h : ∀ s ∈ segments, s.iova ≠ 0 ∧ (prp.memList.filter fun p => p.iova = s.iova) = [s]) :
    prp.listSegments (segments.map MemoryLocation.iova ++ List.replicate r 0) = .ok segments := by
  induction segments with
  | nil =>
      induction r with
      | zero => rfl
      | succ r ih =>
          rw [List.replicate_succ, List.map_nil, List.nil_append, listSegments, if_pos rfl]
          exact ih
  | cons s segments ih =>
      obtain ⟨hne, hs⟩ := h s List.mem_cons_self
      rw [List.map_cons, List.cons_append, listSegments, if_neg hne, hs,
        ih fun t ht => h t (List.mem_cons_of_mem s ht)]
      rfl

/-! ## Scatter and gather -/

/-- Read the segments one after the other. -/
def gather (mps : Nat) (mem : Mem) (segments : List MemoryLocation) : List (BitVec 8) :=
  segments.flatMap fun s => mem.load s.vaddr mps

/-- Put the data into the segments one after the other, as far as it goes. -/
def scatter (mps : Nat) : Mem → List MemoryLocation → List (BitVec 8) → Mem
  | mem, [], _ => mem
  | mem, s :: segments, data => scatter mps (mem.store s.vaddr (data.take mps)) segments (data.drop mps)

theorem length_gather (mem : Mem) (segments : List MemoryLocation) :
    (gather mps mem segments).length = segments.length * mps := by
  induction segments with
  | nil => rw [gather, List.flatMap_nil, List.length_nil, List.length_nil, Nat.zero_mul]
  | cons s segments ih =>
      rw [gather, List.flatMap_cons, List.length_append, Mem.length_load, List.length_cons,
        Nat.succ_mul, Nat.add_comm]
      exact congrArg (· + mps) ih

/-- **`get_data_buffer` gathers**, the segments being of the page size. -/
theorem getDataLoop_eq {mem : Mem} :
    ∀ {segments : List MemoryLocation} {i : Nat} {data : List (BitVec 8)},
      (∀ s ∈ segments, s.size = mps) → data.length = i →
      getDataLoop mps mem segments i data = data ++ gather mps mem segments := by
  intro segments
  induction segments with
  | nil =>
      intro i data _ _
      rw [getDataLoop, gather, List.flatMap_nil, List.append_nil]
  | cons s segments ih =>
      intro i data hsize hlen
      have hs := hsize s List.mem_cons_self
      have hb : (mem.load s.vaddr mps).take (i + s.size) = mem.load s.vaddr mps :=
        List.take_of_length_le (by rw [Mem.length_load, hs]; omega)
      rw [getDataLoop, hb, List.take_of_length_le (by omega), List.drop_eq_nil_of_le (by omega),
        List.append_nil, ih (fun t ht => hsize t (List.mem_cons_of_mem s ht))
          (by rw [List.length_append, Mem.length_load, hlen, hs]),
        List.append_assoc]
      rfl

/-- The slices for the segment at offset `a` agree in length: first, whole, or empty. -/
def StepOk (mps n a : Nat) : Prop := a = 0 ∨ a + mps ≤ n ∨ n = a ∨ n + mps ≤ a

theorem bound_step {n a : Nat} (hm : 0 < mps) :
    Slice.bound mps (dataLen n a mps) = Slice.bound n (dataLen n a mps) - Slice.bound n (a : Int)
      ↔ StepOk mps n a := by
  unfold StepOk dataLen Slice.bound
  rw [if_neg (show ¬ (a : Int) < 0 by omega)]
  by_cases h : a + mps > n
  · rw [if_pos h]
    split <;> omega
  · rw [if_neg h, if_neg (by omega), if_neg (by omega)]
    omega

/-- The slice for a segment whose assignment does not raise is its piece of the data. -/
theorem slice_step {data : List (BitVec 8)} {a : Nat} (h : StepOk mps data.length a) :
    Slice.get data (a : Int) (dataLen data.length a mps) = (data.drop a).take mps := by
  by_cases hwhole : a + mps ≤ data.length
  · have hlen : dataLen data.length a mps = ((a + mps : Nat) : Int) := by
      unfold dataLen
      rw [if_neg (by omega), Nat.cast_add]
    rw [hlen, Slice.get_natCast data (Nat.le_add_right a mps) hwhole, Nat.add_sub_cancel_left]
  have hlen : dataLen data.length a mps = (data.length : Int) - a := by
    unfold dataLen
    rw [if_pos (by omega)]
  by_cases h0 : a = 0
  · subst h0
    have hget := Slice.get_natCast data (Nat.zero_le data.length) (Nat.le_refl _)
    rw [hlen, Nat.cast_zero, Int.sub_zero, List.drop_zero, List.take_of_length_le (by omega)]
    rw [Nat.sub_zero, List.drop_zero, List.take_length] at hget
    exact hget
  -- nothing is left for this segment
  · have hnil : (data.drop a).take mps = [] := by
      rw [List.drop_eq_nil_of_le (by unfold StepOk at h; omega), List.take_nil]
    rw [hnil, ← List.length_eq_zero_iff, Slice.length_get, hlen]
    unfold StepOk at h
    unfold Slice.bound
    rw [if_neg (show ¬ (a : Int) < 0 by omega)]
    split <;> omega

/-- Every segment from offset `a` on gets a slice of the right length. -/
def StepsOk (mps n : Nat) : Nat → Nat → Prop
  | 0, _ => True
  | count + 1, a => StepOk mps n a ∧ StepsOk mps n count (a + mps)

/-- **`set_data_buffer` scatters**, or raises. -/
theorem setDataLoop_eq (hm : 0 < mps) {data : List (BitVec 8)} :
    ∀ {segments : List MemoryLocation} {a : Nat} {mem : Mem},
      (∀ s ∈ segments, s.size = mps) →
      (StepsOk mps data.length segments.length a →
          setDataLoop mps data segments a mem = .ok (scatter mps mem segments (data.drop a)))
        ∧ (¬ StepsOk mps data.length segments.length a →
          ∃ e, setDataLoop mps data segments a mem = .error e) := by
  intro segments
  induction segments with
  | nil => exact fun _ => ⟨fun _ => rfl, fun h => absurd trivial h⟩
  | cons s segments ih =>
      intro a mem hsize
      have hs := hsize s List.mem_cons_self
      have hrest := @ih (a + mps) (mem.store s.vaddr ((data.drop a).take mps))
        fun t ht => hsize t (List.mem_cons_of_mem s ht)
      -- the bound on a slice is where the source may raise
      have hbound := bound_step (n := data.length) (a := a) hm
      unfold setDataLoop
      rw [hs]
      dsimp only
      rw [Slice.length_get]
      by_cases hstep : StepOk mps data.length a
      · rw [if_pos (hbound.mpr hstep), slice_step hstep]
        refine ⟨fun h => ?_, fun h => ?_⟩
        · rw [hrest.1 h.2, scatter, List.drop_drop]
        · exact hrest.2 fun h' => h ⟨hstep, h'⟩
      · rw [if_neg fun h => hstep (hbound.mp h)]
        exact ⟨fun h => absurd h.1 hstep, fun _ => ⟨_, rfl⟩⟩

/-- Data that `count` segments take without raising. -/
def Fits (mps n count : Nat) : Prop := mps ∣ n ∨ count ≤ max 1 (n / mps)

instance (mps n count : Nat) : Decidable (Fits mps n count) :=
  inferInstanceAs (Decidable (mps ∣ n ∨ count ≤ max 1 (n / mps)))

theorem stepsOk_of_dvd {n : Nat} (hn : mps ∣ n) :
    ∀ count k, StepsOk mps n count (k * mps) := by
  obtain ⟨m, rfl⟩ := hn
  intro count
  induction count with
  | zero => exact fun _ => trivial
  | succ count ih =>
      intro k
      have hnext := ih (k + 1)
      rw [Nat.succ_mul] at hnext
      refine ⟨?_, hnext⟩
      unfold StepOk
      rcases Nat.lt_trichotomy k m with h | rfl | h
      · have hle := Nat.mul_le_mul_right mps (Nat.succ_le_of_lt h)
        rw [Nat.succ_mul, Nat.mul_comm m] at hle
        exact Or.inr (Or.inl hle)
      · exact Or.inr (Or.inr (Or.inl (Nat.mul_comm mps k)))
      · have hle := Nat.mul_le_mul_right mps (Nat.succ_le_of_lt h)
        rw [Nat.succ_mul, Nat.mul_comm m] at hle
        exact Or.inr (Or.inr (Or.inr hle))

/-- For other lengths every segment after the first must be whole. -/
theorem stepsOk_iff_of_not_dvd (hm : 0 < mps) {n : Nat} (hn : ¬ mps ∣ n) :
    ∀ count k, 0 < k → k ≤ n / mps + 1 →
      (StepsOk mps n count (k * mps) ↔ count = 0 ∨ k + count ≤ n / mps) := by
  intro count
  induction count with
  | zero => exact fun _ _ _ => ⟨fun _ => Or.inl rfl, fun _ => trivial⟩
  | succ count ih =>
      intro k hk hle
      have hpos : 0 < k * mps := Nat.mul_pos hk hm
      have hwhole : k * mps + mps ≤ n ↔ k + 1 ≤ n / mps := by
        rw [Nat.le_div_iff_mul_le hm, Nat.succ_mul]
      -- the slice of page `k` never starts behind the data, as `k` whole pages fit
      have hempty : ¬ (n + mps ≤ k * mps) := by
        have hdiv := Nat.div_add_mod n mps
        have hmod : n % mps ≠ 0 := fun h => hn (Nat.dvd_of_mod_eq_zero h)
        have hbound := Nat.mul_le_mul_right mps hle
        rw [Nat.succ_mul, Nat.mul_comm (n / mps)] at hbound
        omega
      have hdvd : n ≠ k * mps := fun h => hn (h ▸ Nat.dvd_mul_left mps k)
      have hnext := ih (k + 1) (Nat.succ_pos k)
      rw [Nat.succ_mul] at hnext
      constructor
      · rintro ⟨hstep, hrest⟩
        have hk1 : k + 1 ≤ n / mps := by
          unfold StepOk at hstep
          rcases hstep with h | h | h | h
          · omega
          · exact hwhole.mp h
          · exact absurd h hdvd
          · exact absurd h hempty
        rcases (hnext (by omega)).mp hrest with h | h <;> omega
      · intro h
        have hk1 : k + 1 ≤ n / mps := by omega
        exact ⟨Or.inr (Or.inl (hwhole.mpr hk1)), (hnext (by omega)).mpr (by omega)⟩

/-- **Which transfers do not raise.** -/
theorem stepsOk_iff (hm : 0 < mps) (n count : Nat) : StepsOk mps n count 0 ↔ Fits mps n count := by
  unfold Fits
  by_cases hn : mps ∣ n
  · have h := stepsOk_of_dvd hn count 0
    rw [Nat.zero_mul] at h
    exact ⟨fun _ => Or.inl hn, fun _ => h⟩
  · cases count with
    | zero => exact ⟨fun _ => Or.inr (Nat.zero_le _), fun _ => trivial⟩
    | succ count =>
        have hrest := stepsOk_iff_of_not_dvd hm hn count 1 Nat.one_pos (Nat.le_add_left 1 _)
        rw [Nat.one_mul] at hrest
        constructor
        · rintro ⟨_, h⟩
          rw [Nat.zero_add] at h
          have := hrest.mp h
          omega
        · intro h
          refine ⟨Or.inl rfl, ?_⟩
          rw [Nat.zero_add]
          exact hrest.mpr (by omega)

/-- **`set_data_buffer`** on an object all of whose pages have the page size. -/
theorem setDataBuffer_eq {prp : PRP} {mem : Mem} {segments : List MemoryLocation}
    {data : List (BitVec 8)} (hm : 0 < prp.mps) (hs : prp.getDataSegments mem = .ok segments)
    (hsize : ∀ s ∈ segments, s.size = prp.mps) :
    (Fits prp.mps data.length segments.length →
        prp.setDataBuffer mem data = .ok (scatter prp.mps mem segments data))
      ∧ (¬ Fits prp.mps data.length segments.length →
        ∃ e, prp.setDataBuffer mem data = .error e) := by
  have h := @setDataLoop_eq _ hm data segments 0 mem hsize
  rw [stepsOk_iff hm, List.drop_zero] at h
  unfold setDataBuffer
  rw [hs]
  exact h

theorem getDataBuffer_eq {prp : PRP} {mem : Mem} {segments : List MemoryLocation}
    (hs : prp.getDataSegments mem = .ok segments) (hsize : ∀ s ∈ segments, s.size = prp.mps) :
    prp.getDataBuffer mem = .ok (gather prp.mps mem segments) := by
  unfold getDataBuffer
  rw [hs]
  exact congrArg Except.ok (getDataLoop_eq hsize rfl)

/-- Two pages that share no byte. -/
def Apart (mps : Nat) (s t : MemoryLocation) : Prop :=
  s.vaddr + mps ≤ t.vaddr ∨ t.vaddr + mps ≤ s.vaddr

theorem Apart.symm {s t : MemoryLocation} (h : Apart mps s t) : Apart mps t s := Or.symm h

/-- **Frame.** Filling a buffer changes its own segments only. -/
theorem scatter_outside {a n : Nat} :
    ∀ {segments : List MemoryLocation} {mem : Mem} {data : List (BitVec 8)},
      (∀ s ∈ segments, a + n ≤ s.vaddr ∨ s.vaddr + mps ≤ a) →
      ∀ x, a ≤ x → x < a + n → scatter mps mem segments data x = mem x := by
  intro segments
  induction segments with
  | nil => exact fun _ _ _ _ => rfl
  | cons s segments ih =>
      intro mem data h x hx hlt
      have hs := h s List.mem_cons_self
      rw [scatter, ih (fun t ht => h t (List.mem_cons_of_mem s ht)) x hx hlt]
      refine Mem.store_outside mem ?_
      rw [List.length_take]
      omega

/-- **Round trip.** What was scattered over separate pages is gathered back. -/
theorem gather_scatter :
    ∀ {segments : List MemoryLocation} {mem : Mem} {data : List (BitVec 8)},
      segments.Pairwise (Apart mps) → data.length ≤ segments.length * mps →
      (gather mps (scatter mps mem segments data) segments).take data.length = data := by
  intro segments
  induction segments with
  | nil =>
      intro mem data _ hlen
      rw [List.length_nil, Nat.zero_mul] at hlen
      rw [List.length_eq_zero_iff.mp (Nat.le_zero.mp hlen)]
      rfl
  | cons s segments ih =>
      intro mem data hap hlen
      obtain ⟨hs, hrest⟩ := List.pairwise_cons.mp hap
      rw [List.length_cons, Nat.succ_mul] at hlen
      have htail := @ih (mem.store s.vaddr (data.take mps)) (data.drop mps) hrest
        (by rw [List.length_drop]; omega)
      -- the later stores leave the first page alone
      have hfirst : (scatter mps (mem.store s.vaddr (data.take mps)) segments
          (data.drop mps)).load s.vaddr mps = (mem.store s.vaddr (data.take mps)).load s.vaddr mps :=
        Mem.load_congr fun k hk => scatter_outside (a := s.vaddr) (n := mps) hs _
          (Nat.le_add_right _ _) (by omega)
      rw [scatter, gather, List.flatMap_cons, hfirst]
      change (_ ++ gather mps _ segments).take _ = _
      by_cases hle : mps ≤ data.length
      · have hpage : (mem.store s.vaddr (data.take mps)).load s.vaddr mps = data.take mps := by
          have h := Mem.load_store_self mem s.vaddr (data.take mps)
          rw [List.length_take, Nat.min_eq_left hle] at h
          exact h
        rw [hpage, List.take_append, List.length_take, Nat.min_eq_left hle, List.take_take,
          Nat.min_eq_right hle]
        rw [List.length_drop] at htail
        rw [htail, List.take_append_drop]
      · have hpage := @Mem.load_store mem s.vaddr 0 data.length (data.take mps)
          (by rw [List.length_take]; omega)
        rw [List.take_append_of_le_length (by rw [Mem.length_load]; omega)]
        rw [Nat.add_zero, List.drop_zero, List.take_take, Nat.min_eq_left (by omega),
          List.take_length] at hpage
        have hsplit : mps = data.length + (mps - data.length) := by omega
        rw [hsplit, Mem.load_add, List.take_append_of_le_length (by rw [Mem.length_load]),
          ← hsplit, hpage, List.take_length]

/-- Scattering what the segments hold already. -/
theorem scatter_eq_self {mem : Mem} :
    ∀ {segments : List MemoryLocation} {data : List (BitVec 8)},
      (gather mps mem segments).take data.length = data → scatter mps mem segments data = mem := by
  intro segments
  induction segments with
  | nil => exact fun _ => rfl
  | cons s segments ih =>
      intro data h
      rw [gather, List.flatMap_cons] at h
      change (_ ++ gather mps mem segments).take _ = _ at h
      generalize hn : data.length = n at h
      rw [List.take_append, Mem.length_load] at h
      have hlen : ((mem.load s.vaddr mps).take n).length = min n mps := by
        rw [List.length_take, Mem.length_load]
      -- the first page holds the first part of the data already, or all of it
      have hfirst : data.take mps = (mem.load s.vaddr mps).take n := by
        rw [← h, List.take_append, hlen]
        by_cases hle : mps ≤ n
        · rw [Nat.min_eq_right hle, Nat.sub_self, List.take_zero, List.append_nil]
          exact List.take_of_length_le (by rw [hlen]; exact Nat.min_le_right _ _)
        · rw [Nat.sub_eq_zero_of_le (show n ≤ mps by omega), List.take_zero, List.take_nil,
            List.append_nil]
          exact List.take_of_length_le (by rw [hlen]; exact Nat.min_le_right _ _)
      have hrest : data.drop mps = (gather mps mem segments).take (n - mps) := by
        by_cases hle : mps ≤ n
        · rw [← h, List.drop_left' (by rw [hlen, Nat.min_eq_right hle])]
        · rw [List.drop_eq_nil_of_le (by omega), Nat.sub_eq_zero_of_le (by omega), List.take_zero]
      have hstore : mem.store s.vaddr (data.take mps) = mem := by
        refine Mem.store_eq_self ?_
        rw [hfirst, hlen, Mem.take_load]
      rw [scatter, hstore]
      refine ih ?_
      rw [List.length_drop, hn, hrest]

/-! ## The object rebuilt from two addresses -/

/-- The addresses it knows. -/
def addresses (numBytes mps : Nat) (mem : Mem) (a₁ a₂ : Nat) : List Nat :=
  if numBytes ≤ mps then [a₁]
  else if numBytes ≤ 2 * mps then [a₁, a₂]
  else a₁ :: a₂ :: mem.words a₂ (mps / 8)

/-- The page at the second address is read as a list, whatever it holds. -/
def listed (mps : Nat) (mem : Mem) (a₂ : Nat) : List Nat :=
  (mem.words a₂ (mps / 8)).filter fun d => d ≠ 0

/-- The two addresses are there, and every listed one is that of one known page. -/
structure Reaches (numBytes mps : Nat) (mem : Mem) (a₁ a₂ : Nat) : Prop where
  first : a₁ ≠ 0
  second : mps < numBytes → a₂ ≠ 0
  once : mps < numBytes → ∀ d ∈ listed mps mem a₂, (addresses numBytes mps mem a₁ a₂).count d = 1

instance (numBytes mps : Nat) (mem : Mem) (a₁ a₂ : Nat) :
    Decidable (Reaches numBytes mps mem a₁ a₂) :=
  decidable_of_iff (a₁ ≠ 0 ∧ (mps < numBytes → a₂ ≠ 0)
      ∧ (mps < numBytes → ∀ d ∈ listed mps mem a₂, (addresses numBytes mps mem a₁ a₂).count d = 1))
    ⟨fun h => ⟨h.1, h.2.1, h.2.2⟩, fun h => ⟨h.first, h.second, h.once⟩⟩

/-- How many segments `get_data_segments` finds then. -/
def segmentCount (numBytes mps : Nat) (mem : Mem) (a₁ a₂ : Nat) : Nat :=
  if numBytes ≤ mps then 1
  else
    (addresses numBytes mps mem a₁ a₂).count a₁
      + (addresses numBytes mps mem a₁ a₂).count a₂ * (listed mps mem a₂).length

theorem length_filter_pageAt (addrs : List Nat) (d : Nat) :
    ((addrs.map (pageAt mps)).filter fun p => p.iova = d).length = addrs.count d := by
  rw [← List.countP_eq_length_filter, List.countP_map, List.count]
  exact List.countP_congr fun a _ => decide_eq_true_iff.trans beq_iff_eq.symm

theorem segmentsLoop_cons (prp : PRP) (mem : Mem) (page : MemoryLocation)
    (pages : List MemoryLocation) :
    prp.segmentsLoop mem (page :: pages) = (prp.pageSegments mem page).bind fun listed =>
      (prp.segmentsLoop mem pages).map fun rest =>
        (if prp.prp1 = page.iova then [page] else []) ++ listed ++ rest := by
  rw [segmentsLoop]
  cases prp.pageSegments mem page with
  | error e => rfl
  | ok listed => cases prp.segmentsLoop mem pages <;> rfl

/-- The loop over known pages that both sides address alike. -/
theorem segmentsLoop_ok {prp : PRP} {mem : Mem} :
    ∀ {addrs : List Nat}, (∀ a ∈ addrs, pageAt prp.mps a ∈ prp.memList) →
      (prp.prp2 ∈ addrs → prp.ListOk (mem.words prp.prp2 (prp.mps / 8))) →
      ∃ segments, prp.segmentsLoop mem (addrs.map (pageAt prp.mps)) = .ok segments
        ∧ (∀ s ∈ segments, s ∈ prp.memList)
        ∧ segments.length = addrs.count prp.prp1
            + addrs.count prp.prp2 * (listed prp.mps mem prp.prp2).length := by
  intro addrs
  induction addrs with
  | nil =>
      intro _ _
      refine ⟨[], rfl, by simp, ?_⟩
      rw [List.count_nil, List.count_nil, Nat.zero_mul]
      rfl
  | cons a addrs ih =>
      intro hmem hlist
      obtain ⟨rest, hrest, hin, hlen⟩ := ih (fun b hb => hmem b (List.mem_cons_of_mem a hb))
        fun h => hlist (List.mem_cons_of_mem a h)
      -- what the page at the second pointer lists, and nothing from the others
      obtain ⟨own, hown, hownIn, hownLen⟩ : ∃ own, prp.pageSegments mem (pageAt prp.mps a) = .ok own
          ∧ (∀ s ∈ own, s ∈ prp.memList)
          ∧ own.length = if prp.prp2 = a then (listed prp.mps mem prp.prp2).length else 0 := by
        unfold pageSegments
        by_cases h2 : prp.prp2 = a
        · obtain ⟨own, ho, hl, hi⟩ := listSegments_ok (hlist (h2 ▸ List.mem_cons_self))
          rw [if_pos h2, if_pos (show prp.prp2 = (pageAt prp.mps a).iova from h2),
            show (pageAt prp.mps a).vaddr = prp.prp2 from h2.symm]
          exact ⟨own, ho, hi, hl⟩
        · rw [if_neg h2, if_neg (show prp.prp2 ≠ (pageAt prp.mps a).iova from h2)]
          exact ⟨[], rfl, by simp, rfl⟩
      rw [List.map_cons, segmentsLoop_cons, hown, hrest]
      refine ⟨_, rfl, ?_, ?_⟩
      · intro s hs
        rcases List.mem_append.mp hs with hs | hs
        · rcases List.mem_append.mp hs with hs | hs
          · split at hs
            · rw [List.mem_singleton.mp hs]
              exact hmem a List.mem_cons_self
            · exact absurd hs (by simp)
          · exact hownIn s hs
        · exact hin s hs
      · -- the first pointer adds the page itself, the second what it lists
        have hfirst : (if prp.prp1 = (pageAt prp.mps a).iova then [pageAt prp.mps a] else []).length
            = if a = prp.prp1 then 1 else 0 := by
          by_cases h1 : prp.prp1 = a
          · rw [if_pos (show prp.prp1 = (pageAt prp.mps a).iova from h1), if_pos h1.symm]
            rfl
          · rw [if_neg (show prp.prp1 ≠ (pageAt prp.mps a).iova from h1),
              if_neg (fun h => h1 h.symm)]
            rfl
        have hsecond : (if prp.prp2 = a then (listed prp.mps mem prp.prp2).length else 0)
            = (if a = prp.prp2 then 1 else 0) * (listed prp.mps mem prp.prp2).length := by
          by_cases h2 : prp.prp2 = a
          · rw [if_pos h2, if_pos h2.symm, Nat.one_mul]
          · rw [if_neg h2, if_neg (fun h => h2 h.symm), Nat.zero_mul]
        rw [List.length_append, List.length_append, hfirst, hownLen, hlen, List.count_cons,
          List.count_cons, hsecond, Nat.add_mul]
        simp only [beq_iff_eq]
        omega

theorem segmentsLoop_error {prp : PRP} {mem : Mem} :
    ∀ {addrs : List Nat}, prp.prp2 ∈ addrs → ¬ prp.ListOk (mem.words prp.prp2 (prp.mps / 8)) →
      ∃ e, prp.segmentsLoop mem (addrs.map (pageAt prp.mps)) = .error e := by
  intro addrs
  induction addrs with
  | nil => exact fun h => absurd h (by simp)
  | cons a addrs ih =>
      intro hmem hbad
      rw [List.map_cons, segmentsLoop_cons]
      by_cases h2 : prp.prp2 = a
      · obtain ⟨e, he⟩ := listSegments_error hbad
        refine ⟨e, ?_⟩
        rw [pageSegments, if_pos (show prp.prp2 = (pageAt prp.mps a).iova from h2),
          show (pageAt prp.mps a).vaddr = prp.prp2 from h2.symm, he]
        rfl
      · obtain ⟨e, he⟩ := ih ((List.mem_cons.mp hmem).resolve_left h2) hbad
        refine ⟨e, ?_⟩
        rw [pageSegments, if_neg (show prp.prp2 ≠ (pageAt prp.mps a).iova from h2), he]
        rfl

/-- The object `attach` makes of the two addresses. -/
def attached (numBytes mps : Nat) (mem : Mem) (a₁ a₂ : Nat) : PRP where
  numBytes := numBytes
  mps := mps
  prp1 := a₁
  prp2 := if numBytes ≤ mps then 0 else a₂
  memList := (addresses numBytes mps mem a₁ a₂).map (pageAt mps)

theorem attach_eq {numBytes a₁ a₂ : Nat} {mem : Mem} (hm : 0 < mps) (hn : 0 < numBytes) :
    (a₁ ≠ 0 ∧ (mps < numBytes → a₂ ≠ 0) →
        attach numBytes mps mem a₁ a₂ = .ok (attached numBytes mps mem a₁ a₂))
      ∧ (¬ (a₁ ≠ 0 ∧ (mps < numBytes → a₂ ≠ 0)) → ∃ e, attach numBytes mps mem a₁ a₂ = .error e) := by
  unfold attach attached addresses
  rw [new_ok hm hn]
  change (_ → PRP.fromAddress _ _ _ _ = _) ∧ (_ → ∃ e, PRP.fromAddress _ _ _ _ = _)
  unfold fromAddress
  by_cases h1 : a₁ = 0
  · rw [decide_eq_false (not_not.mpr h1)]
    exact ⟨fun h => absurd h1 h.1, fun _ => ⟨_, rfl⟩⟩
  rw [decide_eq_true h1]
  have hpages := @pagesNeeded_cases { numBytes, mps } hm hn
  dsimp only at hpages
  -- one page, two, or a list: the branches of `from_address`
  rcases hpages with ⟨hle, hp⟩ | ⟨hlt, hle, hp⟩ | ⟨hlt, hp⟩
  · rw [if_pos hp, if_pos hle, if_pos hle]
    exact ⟨fun _ => rfl, fun h => absurd ⟨h1, fun hlt => absurd hle (Nat.not_le.mpr hlt)⟩ h⟩
  · have hgt : ¬ numBytes ≤ mps := Nat.not_le.mpr hlt
    rw [if_neg (by rw [hp]; decide), if_pos hp, if_neg hgt, if_neg hgt, if_pos hle]
    by_cases h2 : a₂ = 0
    · rw [decide_eq_false (not_not.mpr h2)]
      exact ⟨fun h => absurd h2 (h.2 hlt), fun _ => ⟨_, rfl⟩⟩
    · rw [decide_eq_true h2]
      exact ⟨fun _ => rfl, fun h => absurd ⟨h1, fun _ => h2⟩ h⟩
  · have hgt : ¬ numBytes ≤ mps := by omega
    rw [if_neg (by omega), if_neg (by omega), if_neg hgt, if_neg hgt, if_neg (by omega)]
    by_cases h2 : a₂ = 0
    · rw [decide_eq_false (not_not.mpr h2)]
      exact ⟨fun h => absurd h2 (h.2 (by omega)), fun _ => ⟨_, rfl⟩⟩
    · rw [decide_eq_true h2]
      exact ⟨fun _ => rfl, fun h => absurd ⟨h1, fun _ => h2⟩ h⟩

/-- **The segments of a rebuilt object**: found exactly if the addresses reach their pages. -/
theorem attach_segments {numBytes a₁ a₂ : Nat} {mem : Mem} (hm : 0 < mps) (hn : 0 < numBytes) :
    (Reaches numBytes mps mem a₁ a₂ → ∃ prp segments, attach numBytes mps mem a₁ a₂ = .ok prp
        ∧ prp.mps = mps ∧ prp.getDataSegments mem = .ok segments
        ∧ (∀ s ∈ segments, s.size = mps) ∧ segments.length = segmentCount numBytes mps mem a₁ a₂)
      ∧ (¬ Reaches numBytes mps mem a₁ a₂ → (∃ e, attach numBytes mps mem a₁ a₂ = .error e)
        ∨ ∃ prp e, attach numBytes mps mem a₁ a₂ = .ok prp ∧ prp.getDataSegments mem = .error e) := by
  obtain ⟨hok, herr⟩ := @attach_eq mps numBytes a₁ a₂ mem hm hn
  have hlist : (attached numBytes mps mem a₁ a₂).ListOk (mem.words a₂ (mps / 8))
      ↔ ∀ d ∈ listed mps mem a₂, (addresses numBytes mps mem a₁ a₂).count d = 1 := by
    unfold ListOk listed
    constructor
    · intro h d hd
      obtain ⟨hd, hne⟩ := List.mem_filter.mp hd
      rw [← @length_filter_pageAt mps]
      exact h d hd (of_decide_eq_true hne)
    · intro h d hd hne
      have hc := h d (List.mem_filter.mpr ⟨hd, decide_eq_true hne⟩)
      rw [← @length_filter_pageAt mps] at hc
      exact hc
  -- each word of the list page counts once, in the words and among the pages
  have hsize : ∀ s ∈ (attached numBytes mps mem a₁ a₂).memList, s.size = mps := by
    intro s hs
    obtain ⟨a, _, rfl⟩ := List.mem_map.mp hs
    rfl
  have hmem : ∀ a ∈ addresses numBytes mps mem a₁ a₂,
      pageAt mps a ∈ (attached numBytes mps mem a₁ a₂).memList :=
    fun a ha => List.mem_map_of_mem ha
  by_cases hle : numBytes ≤ mps
  · -- one page: nothing is read as a list
    have h2 : (attached numBytes mps mem a₁ a₂).prp2 = 0 := if_pos hle
    have haddr : addresses numBytes mps mem a₁ a₂ = [a₁] := if_pos hle
    constructor
    · intro h
      have hnone : (attached numBytes mps mem a₁ a₂).prp2 ∉ addresses numBytes mps mem a₁ a₂ := by
        rw [h2, haddr, List.mem_singleton]
        exact fun h0 => h.first h0.symm
      obtain ⟨segments, hs, hin, hlen⟩ := @segmentsLoop_ok (attached numBytes mps mem a₁ a₂)
        mem _ hmem fun hin => absurd hin hnone
      refine ⟨attached numBytes mps mem a₁ a₂, segments, hok ⟨h.first, h.second⟩, rfl, hs,
        fun s hs' => hsize s (hin s hs'), ?_⟩
      rw [hlen, List.count_eq_zero.mpr hnone, Nat.zero_mul, haddr, segmentCount, if_pos hle]
      exact List.count_singleton_self
    · intro h
      exact Or.inl (herr fun hptr => h ⟨hptr.1, hptr.2, fun hlt => absurd hle (Nat.not_le.mpr hlt)⟩)
  · have hlt : mps < numBytes := Nat.lt_of_not_le hle
    have h2 : (attached numBytes mps mem a₁ a₂).prp2 = a₂ := if_neg hle
    have hin2 : a₂ ∈ addresses numBytes mps mem a₁ a₂ := by
      unfold addresses
      rw [if_neg hle]
      split <;> simp
    constructor
    · intro h
      obtain ⟨segments, hs, hin, hlen⟩ := @segmentsLoop_ok (attached numBytes mps mem a₁ a₂)
        mem _ hmem fun _ => by rw [h2]; exact hlist.mpr (h.once hlt)
      refine ⟨attached numBytes mps mem a₁ a₂, segments, hok ⟨h.first, h.second⟩, rfl, hs,
        fun s hs' => hsize s (hin s hs'), ?_⟩
      rw [hlen, h2, segmentCount, if_neg hle]
      rfl
    · intro h
      by_cases hptr : a₁ ≠ 0 ∧ (mps < numBytes → a₂ ≠ 0)
      · obtain ⟨e, he⟩ := @segmentsLoop_error (attached numBytes mps mem a₁ a₂) mem _
          (by rw [h2]; exact hin2) (by rw [h2]; exact fun hl => h ⟨hptr.1, hptr.2, fun _ => hlist.mp hl⟩)
        exact Or.inr ⟨_, e, hok hptr, he⟩
      · exact Or.inl (herr hptr)

/-- **Copying out** through a rebuilt object: all of it, or an exception. -/
theorem attach_setData {numBytes a₁ a₂ : Nat} {mem : Mem} (hm : 0 < mps) (hn : 0 < numBytes)
    (data : List (BitVec 8)) :
    (Reaches numBytes mps mem a₁ a₂
          ∧ Fits mps data.length (segmentCount numBytes mps mem a₁ a₂) →
        ∃ prp mem', attach numBytes mps mem a₁ a₂ = .ok prp ∧ prp.setDataBuffer mem data = .ok mem')
      ∧ (¬ (Reaches numBytes mps mem a₁ a₂
          ∧ Fits mps data.length (segmentCount numBytes mps mem a₁ a₂)) →
        (∃ e, attach numBytes mps mem a₁ a₂ = .error e)
          ∨ ∃ prp e, attach numBytes mps mem a₁ a₂ = .ok prp
            ∧ prp.setDataBuffer mem data = .error e) := by
  obtain ⟨hok, herr⟩ := @attach_segments mps numBytes a₁ a₂ mem hm hn
  -- either the pages are found, and the length decides, or they are not
  by_cases hr : Reaches numBytes mps mem a₁ a₂
  · obtain ⟨prp, segments, hprp, rfl, hs, hsize, hlen⟩ := hok hr
    obtain ⟨hset, hraise⟩ := @setDataBuffer_eq _ mem _ data hm hs hsize
    rw [hlen] at hset hraise
    refine ⟨fun h => ⟨prp, _, hprp, hset h.2⟩, fun h => ?_⟩
    obtain ⟨e, he⟩ := hraise fun hf => h ⟨hr, hf⟩
    exact Or.inr ⟨prp, e, hprp, he⟩
  · refine ⟨fun h => absurd h.1 hr, fun _ => ?_⟩
    rcases herr hr with h | ⟨prp, e, hprp, he⟩
    · exact Or.inl h
    · refine Or.inr ⟨prp, e, hprp, ?_⟩
      rw [setDataBuffer, he]
      rfl

/-- **Copying in** through a rebuilt object: as much as its segments hold, or an exception. -/
theorem attach_getData {numBytes a₁ a₂ : Nat} {mem : Mem} (hm : 0 < mps) (hn : 0 < numBytes) :
    (Reaches numBytes mps mem a₁ a₂ → ∃ prp data, attach numBytes mps mem a₁ a₂ = .ok prp
        ∧ prp.getDataBuffer mem = .ok data
        ∧ data.length = segmentCount numBytes mps mem a₁ a₂ * mps)
      ∧ (¬ Reaches numBytes mps mem a₁ a₂ → (∃ e, attach numBytes mps mem a₁ a₂ = .error e)
        ∨ ∃ prp e, attach numBytes mps mem a₁ a₂ = .ok prp
          ∧ prp.getDataBuffer mem = .error e) := by
  obtain ⟨hok, herr⟩ := @attach_segments mps numBytes a₁ a₂ mem hm hn
  refine ⟨fun h => ?_, fun h => ?_⟩
  · obtain ⟨prp, segments, hprp, rfl, hs, hsize, hlen⟩ := hok h
    exact ⟨prp, _, hprp, getDataBuffer_eq hs hsize, by rw [length_gather, hlen]⟩
  · rcases herr h with h | ⟨prp, e, hprp, he⟩
    · exact Or.inl h
    · refine Or.inr ⟨prp, e, hprp, ?_⟩
      rw [getDataBuffer, he]
      rfl

end PRP

end LoneNvme
