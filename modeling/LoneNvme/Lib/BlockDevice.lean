import LoneNvme.Lib.Bytes

/-!
# Block devices

What a block device is for: a block reads as it was last written, and as zeros if it
never was. The history of a device is its writes, newest first, each the address of
its first block and the data of one or more whole blocks; `last` looks a block up in
it. `Represents` says that a flat byte memory holds what the history says.
-/

namespace Lib

namespace BlockDevice

/-- Block `k` of a piece of data. -/
def block (bs : Nat) (data : List (BitVec 8)) (k : Nat) : List (BitVec 8) :=
  (data.drop (k * bs)).take bs

/-- Whether the write of `data` at `slba` covers the block `lba`. -/
def Covers (bs slba : Nat) (data : List (BitVec 8)) (lba : Nat) : Prop :=
  slba ≤ lba ∧ (lba - slba + 1) * bs ≤ data.length

instance (bs slba : Nat) (data : List (BitVec 8)) (lba : Nat) :
    Decidable (Covers bs slba data lba) :=
  inferInstanceAs (Decidable (slba ≤ lba ∧ (lba - slba + 1) * bs ≤ data.length))

/-- **The last write that covered the block**, zeros if there was none. -/
def last (bs : Nat) : List (Nat × List (BitVec 8)) → Nat → List (BitVec 8)
  | [], _ => List.replicate bs 0
  | (slba, data) :: history, lba =>
      if Covers bs slba data lba then block bs data (lba - slba) else last bs history lba

/-- The first `numLbas` blocks of the memory are those of the device. -/
def Represents (bs numLbas : Nat) (m : Mem) (history : List (Nat × List (BitVec 8))) : Prop :=
  ∀ lba, lba < numLbas → m.load (lba * bs) bs = last bs history lba

variable {bs numLbas : Nat} {m : Mem} {history : List (Nat × List (BitVec 8))}

theorem length_block {data : List (BitVec 8)} {k : Nat} (h : (k + 1) * bs ≤ data.length) :
    (block bs data k).length = bs := by
  rw [Nat.succ_mul] at h
  rw [block, List.length_take, List.length_drop]
  omega

theorem length_last (lba : Nat) : (last bs history lba).length = bs := by
  induction history with
  | nil => rw [last, List.length_replicate]
  | cons w history ih =>
      obtain ⟨slba, data⟩ := w
      rw [last]
      split
      · rename_i h
        exact length_block h.2
      · exact ih

/-- The blocks of data that was itself cut out of something. -/
theorem block_take {data : List (BitVec 8)} {n k : Nat} (h : (k + 1) * bs ≤ n) :
    block bs (data.take n) k = block bs data k := by
  rw [Nat.succ_mul] at h
  rw [block, block, List.drop_take, List.take_take, Nat.min_eq_left (by omega)]

/-- A zeroed memory is a device nobody wrote to. -/
theorem Represents.zeros (h : ∀ x, x < numLbas * bs → m x = 0) : Represents bs numLbas m [] := by
  intro lba hlba
  have hend : (lba + 1) * bs ≤ numLbas * bs := Nat.mul_le_mul_right bs hlba
  rw [Nat.succ_mul] at hend
  refine List.ext_getElem? fun k => ?_
  by_cases hk : k < bs
  · rw [Mem.getElem?_load m hk, h _ (by omega), last, List.getElem?_replicate, if_pos hk]
  · rw [List.getElem?_eq_none (by rw [Mem.length_load]; omega),
      List.getElem?_eq_none (by rw [length_last]; omega)]

/-- A piece of a range, as a block. -/
theorem block_load (a n k : Nat) (h : (k + 1) * bs ≤ n) :
    block bs (m.load a n) k = m.load (a + k * bs) bs := by
  rw [Nat.succ_mul] at h
  have hsplit : n = k * bs + (bs + (n - k * bs - bs)) := by omega
  rw [block, hsplit, Mem.load_add, List.drop_left' (Mem.length_load m a _), Mem.load_add,
    List.take_left' (Mem.length_load m _ bs)]

/-- **Writing.** -/
theorem Represents.write (h : Represents bs numLbas m history) {slba count : Nat}
    {data : List (BitVec 8)} (hlen : data.length = count * bs) :
    Represents bs numLbas (m.store (slba * bs) data) ((slba, data) :: history) := by
  intro lba hlba
  rw [last]
  by_cases hcov : Covers bs slba data lba
  · obtain ⟨hle, hend⟩ := hcov
    rw [if_pos ⟨hle, hend⟩]
    rw [Nat.succ_mul] at hend
    have haddr : lba * bs = slba * bs + (lba - slba) * bs := by
      rw [← Nat.add_mul, Nat.add_sub_cancel' hle]
    rw [haddr, Mem.load_store m hend, block]
  · rw [if_neg hcov, ← h lba hlba]
    -- an uncovered block lies wholly before or wholly after the data
    refine Mem.load_store_disjoint m ?_
    by_cases hle : slba ≤ lba
    · have hcount : count ≤ lba - slba := by
        refine Nat.le_of_not_lt fun hlt => hcov ⟨hle, ?_⟩
        rw [hlen]
        exact Nat.mul_le_mul_right bs hlt
      refine Or.inr ?_
      rw [hlen, ← Nat.add_mul]
      exact Nat.mul_le_mul_right bs (by omega)
    · refine Or.inl ?_
      rw [← Nat.succ_mul]
      exact Nat.mul_le_mul_right bs (by omega)

/-- **Reading** a range of blocks gives each as it was last written. -/
theorem Represents.read (h : Represents bs numLbas m history) {slba count k : Nat}
    (hk : k < count) (hrange : slba + count ≤ numLbas) :
    block bs (m.load (slba * bs) (count * bs)) k = last bs history (slba + k) := by
  rw [block_load _ _ _ (Nat.mul_le_mul_right bs hk), ← Nat.add_mul]
  exact h (slba + k) (by omega)

/-- Any memory is a device: one write put there what is in it. -/
theorem Represents.whole (bs numLbas : Nat) (m : Mem) :
    Represents bs numLbas m [(0, m.load 0 (numLbas * bs))] := by
  intro lba hlba
  have hend : (lba + 1) * bs ≤ numLbas * bs := Nat.mul_le_mul_right bs hlba
  rw [last, if_pos ⟨Nat.zero_le lba, by rw [Mem.length_load]; exact hend⟩, Nat.sub_zero,
    block_load _ _ _ hend, Nat.zero_add]

theorem block_replicate {n k : Nat} (b : BitVec 8) (h : (k + 1) * bs ≤ n) :
    block bs (List.replicate n b) k = List.replicate bs b := by
  rw [Nat.succ_mul] at h
  rw [block, List.drop_replicate, List.take_replicate, Nat.min_eq_left (by omega)]

/-- **After writes of one byte value**, wherever they went, what they covered holds it. -/
theorem last_fill {n : Nat} (b : BitVec 8) (slbas : List Nat) (lba : Nat) :
    last bs (slbas.map (fun slba => (slba, List.replicate n b)) ++ history) lba
      = if ∃ slba ∈ slbas, slba ≤ lba ∧ (lba - slba + 1) * bs ≤ n then List.replicate bs b
        else last bs history lba := by
  induction slbas with
  | nil => rw [if_neg (by simp)]; rfl
  | cons slba slbas ih =>
      rw [List.map_cons, List.cons_append, last]
      by_cases hcov : slba ≤ lba ∧ (lba - slba + 1) * bs ≤ n
      · rw [if_pos ⟨hcov.1, by rw [List.length_replicate]; exact hcov.2⟩,
          if_pos ⟨slba, List.mem_cons_self, hcov⟩, block_replicate b hcov.2]
      · rw [if_neg fun h => hcov ⟨h.1, by rw [← @List.length_replicate _ n b]; exact h.2⟩, ih]
        refine if_congr ?_ rfl rfl
        rw [List.exists_mem_cons_iff]
        exact (or_iff_right hcov).symm

/-- Data of whole blocks is its blocks. -/
theorem eq_of_blocks {count : Nat} {data data' : List (BitVec 8)} (hlen : data.length = count * bs)
    (hlen' : data'.length = count * bs)
    (h : ∀ k, k < count → block bs data k = block bs data' k) : data = data' := by
  induction count generalizing data data' with
  | zero =>
      rw [Nat.zero_mul] at hlen hlen'
      rw [List.length_eq_zero_iff.mp hlen, List.length_eq_zero_iff.mp hlen']
  | succ count ih =>
      rw [Nat.succ_mul] at hlen hlen'
      have hfirst := h 0 (Nat.succ_pos count)
      rw [block, block, Nat.zero_mul, List.drop_zero, List.drop_zero] at hfirst
      -- the blocks after the first
      have hshift : ∀ d : List (BitVec 8), ∀ k, block bs (d.drop bs) k = block bs d (k + 1) := by
        intro d k
        rw [block, block, List.drop_drop, Nat.succ_mul, Nat.add_comm]
      have hrest : data.drop bs = data'.drop bs := by
        refine ih (by rw [List.length_drop]; omega) (by rw [List.length_drop]; omega) fun k hk => ?_
        rw [hshift, hshift]
        exact h (k + 1) (Nat.succ_lt_succ hk)
      rw [← List.take_append_drop bs data, hfirst, hrest, List.take_append_drop]

end BlockDevice

end Lib
