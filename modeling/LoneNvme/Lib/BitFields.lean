import LoneNvme.Lib.Bytes
import Mathlib.Tactic.Positivity
import Mathlib.Tactic.Zify
import Mathlib.Algebra.Order.Ring.Int

/-!
# Bit-fields in little-endian storage units

Bit `i` of a byte string is bit `i % 8` of byte `i / 8`. A bit-field is a run of bits
inside a storage unit, a little-endian word of a few bytes; reading and assigning it load
and store the whole unit. Seen bit by bit a field is an interval of the byte string, and
the laws of fields are those of intervals.
-/

namespace Lib

/-- Bit `i` of a byte string. -/
def bitAt (bs : List (BitVec 8)) (i : Nat) : Bool := (bs[i / 8]?.getD 0).getLsbD (i % 8)

theorem bitAt_cons (b : BitVec 8) (bs : List (BitVec 8)) (i : Nat) :
    bitAt (b :: bs) i = if i < 8 then b.getLsbD i else bitAt bs (i - 8) := by
  unfold bitAt
  by_cases hi : i < 8
  · rw [if_pos hi, Nat.div_eq_of_lt hi, Nat.mod_eq_of_lt hi]
    rfl
  · rw [if_neg hi]
    obtain ⟨j, rfl⟩ : ∃ j, i = j + 8 := ⟨i - 8, by omega⟩
    rw [Nat.add_div_right j (by decide), Nat.add_mod_right, Nat.add_sub_cancel]
    rfl

theorem bitAt_append (xs ys : List (BitVec 8)) (i : Nat) :
    bitAt (xs ++ ys) i = if i < 8 * xs.length then bitAt xs i else bitAt ys (i - 8 * xs.length) := by
  unfold bitAt
  by_cases hi : i < 8 * xs.length
  · rw [if_pos hi, List.getElem?_append_left (by omega)]
  · rw [if_neg hi, List.getElem?_append_right (by omega),
      show (i - 8 * xs.length) / 8 = i / 8 - xs.length by omega,
      show (i - 8 * xs.length) % 8 = i % 8 by omega]

theorem bitAt_take (bs : List (BitVec 8)) {n i : Nat} (h : i < 8 * n) :
    bitAt (bs.take n) i = bitAt bs i := by
  unfold bitAt
  rw [List.getElem?_take_of_lt (by omega)]

theorem bitAt_drop (bs : List (BitVec 8)) (n i : Nat) :
    bitAt (bs.drop n) i = bitAt bs (8 * n + i) := by
  unfold bitAt
  rw [List.getElem?_drop, show (8 * n + i) / 8 = n + i / 8 by omega,
    show (8 * n + i) % 8 = i % 8 by omega]

@[simp] theorem bitAt_zeros (n i : Nat) : bitAt (List.replicate n 0) i = false := by
  unfold bitAt
  rw [List.getElem?_replicate]
  split
  · exact BitVec.getLsbD_zero
  · exact BitVec.getLsbD_zero

/-- Byte strings of one length with the same bits are equal. -/
theorem eq_of_bitAt {bs bs' : List (BitVec 8)} (hlen : bs.length = bs'.length)
    (h : ∀ i, i < 8 * bs.length → bitAt bs i = bitAt bs' i) : bs = bs' := by
  refine List.ext_getElem hlen fun k hk hk' => BitVec.eq_of_getLsbD_eq fun j hj => ?_
  have hbit := h (8 * k + j) (by omega)
  unfold bitAt at hbit
  rw [show (8 * k + j) / 8 = k by omega, show (8 * k + j) % 8 = j by omega,
    List.getElem?_eq_getElem hk, List.getElem?_eq_getElem hk'] at hbit
  exact hbit

/-- The bits of a byte string are those of its little-endian number. -/
theorem testBit_ofLE (bs : List (BitVec 8)) (i : Nat) : (Mem.ofLE bs).testBit i = bitAt bs i := by
  induction bs generalizing i with
  | nil => rw [Mem.ofLE, Nat.zero_testBit]; unfold bitAt; simp
  | cons b bs ih =>
      rw [Mem.ofLE, Nat.add_comm, Nat.testBit_two_pow_mul_add (i := 8) _ b.isLt, bitAt_cons, ih]
      rfl

theorem bitAt_toLE (w n : Nat) {i : Nat} (h : i < 8 * w) :
    bitAt (Mem.toLE w n) i = n.testBit i := by
  rw [← testBit_ofLE, Mem.ofLE_toLE, show 256 ^ w = 2 ^ (8 * w) by rw [Nat.pow_mul],
    Nat.testBit_mod_two_pow, decide_eq_true h, Bool.true_and]

/-! ## Storage units -/

/-- The word of `size` bytes at `offset`. -/
def loadUnit (bs : List (BitVec 8)) (offset size : Nat) : BitVec (8 * size) :=
  BitVec.ofNat _ (Mem.ofLE ((bs.drop offset).take size))

/-- The byte string with that word replaced. -/
def storeUnit (bs : List (BitVec 8)) (offset size : Nat) (x : BitVec (8 * size)) :
    List (BitVec 8) :=
  bs.take offset ++ Mem.toLE size x.toNat ++ bs.drop (offset + size)

variable {bs : List (BitVec 8)} {offset size : Nat}

theorem getLsbD_loadUnit {i : Nat} (hi : i < 8 * size) :
    (loadUnit bs offset size).getLsbD i = bitAt bs (8 * offset + i) := by
  rw [loadUnit, BitVec.getLsbD_ofNat, decide_eq_true hi, Bool.true_and, testBit_ofLE,
    bitAt_take _ hi, bitAt_drop]

theorem length_storeUnit (h : offset + size ≤ bs.length) (x : BitVec (8 * size)) :
    (storeUnit bs offset size x).length = bs.length := by
  rw [storeUnit, List.length_append, List.length_append, List.length_take, Mem.length_toLE,
    List.length_drop]
  omega

theorem bitAt_storeUnit (h : offset + size ≤ bs.length) (x : BitVec (8 * size)) (i : Nat) :
    bitAt (storeUnit bs offset size x) i =
      if 8 * offset ≤ i ∧ i < 8 * (offset + size) then x.getLsbD (i - 8 * offset)
      else bitAt bs i := by
  have htake : (bs.take offset).length = offset := by rw [List.length_take]; omega
  rw [storeUnit, bitAt_append, List.length_append, htake, Mem.length_toLE, bitAt_append, htake]
  by_cases hlow : i < 8 * offset
  · rw [if_pos (by omega), if_pos hlow, if_neg (by omega), bitAt_take _ hlow]
  · by_cases hin : i < 8 * (offset + size)
    · rw [if_pos hin, if_neg hlow, if_pos ⟨by omega, hin⟩, bitAt_toLE _ _ (by omega),
        BitVec.testBit_toNat]
    · rw [if_neg hin, if_neg (by omega), bitAt_drop]
      congr 1
      omega

/-! ## Bits of a word -/

/-- The lowest `width` bits set. -/
def mask (n width : Nat) : BitVec n := BitVec.ofNat n (2 ^ width - 1)

/-- The bits from `low` on, `width` of them. -/
def extractBits {n : Nat} (x : BitVec n) (low width : Nat) : BitVec n :=
  (x <<< (n - low - width)) >>> (n - width)

/-- Those bits replaced by the lowest ones of `v`. -/
def insertBits {n : Nat} (x v : BitVec n) (low width : Nat) : BitVec n :=
  (x &&& ~~~(mask n width <<< low)) ||| ((v &&& mask n width) <<< low)

variable {n low width : Nat}

theorem getLsbD_mask {i : Nat} : (mask n width).getLsbD i = (decide (i < n) && decide (i < width)) := by
  rw [mask, BitVec.getLsbD_ofNat, Nat.testBit_two_pow_sub_one]

theorem toNat_extractBits_lt (x : BitVec n) (low width : Nat) :
    (extractBits x low width).toNat < 2 ^ width := by
  rw [extractBits, BitVec.toNat_ushiftRight, Nat.shiftRight_eq_div_pow]
  refine Nat.div_lt_of_lt_mul (lt_of_lt_of_le (x <<< (n - low - width)).isLt ?_)
  rw [← Nat.pow_add]
  exact Nat.pow_le_pow_right (by omega) (by omega)

theorem getLsbD_extractBits (h : low + width ≤ n) (x : BitVec n) (i : Nat) :
    (extractBits x low width).getLsbD i = (decide (i < width) && x.getLsbD (low + i)) := by
  rw [extractBits, BitVec.getLsbD_ushiftRight, BitVec.getLsbD_shiftLeft]
  by_cases hi : i < width
  · rw [decide_eq_true hi, decide_eq_true (by omega), decide_eq_false (by omega)]
    simp only [Bool.true_and, Bool.not_false]
    congr 1
    omega
  · rw [decide_eq_false hi, decide_eq_false (by omega)]
    rfl

theorem getLsbD_insertBits (h : low + width ≤ n) (x v : BitVec n) (i : Nat) :
    (insertBits x v low width).getLsbD i =
      if low ≤ i ∧ i < low + width then v.getLsbD (i - low) else x.getLsbD i := by
  rw [insertBits, BitVec.getLsbD_or, BitVec.getLsbD_and, BitVec.getLsbD_not,
    BitVec.getLsbD_shiftLeft, BitVec.getLsbD_shiftLeft, BitVec.getLsbD_and, getLsbD_mask]
  by_cases hin : i < n
  · rw [decide_eq_true hin]
    by_cases hlow : low ≤ i
    · rw [decide_eq_false (by omega : ¬ i < low), decide_eq_true (by omega : i - low < n)]
      by_cases hhigh : i < low + width
      · rw [if_pos ⟨hlow, hhigh⟩, decide_eq_true (by omega : i - low < width)]
        simp
      · rw [if_neg (by omega), decide_eq_false (by omega : ¬ i - low < width)]
        simp
    · rw [if_neg (by omega), decide_eq_true (by omega : i < low)]
      simp
  · have hx : x.getLsbD i = false := BitVec.getLsbD_of_ge _ _ (by omega)
    rw [decide_eq_false hin, hx, if_neg (by omega)]
    simp

/-- The bits an integer leaves in `width` bits. -/
theorem getLsbD_ofInt {v : Int} {i : Nat} (hi : i < width) (h : width ≤ n) :
    (BitVec.ofInt n v).getLsbD i = ((v % 2 ^ width).toNat).testBit i := by
  have hnonneg : 0 ≤ v % 2 ^ n := Int.emod_nonneg _ (by positivity)
  have hmod : (v % 2 ^ n).toNat % 2 ^ width = (v % 2 ^ width).toNat := by
    have hcast : (((v % 2 ^ n).toNat % 2 ^ width : Nat) : Int) = v % 2 ^ width := by
      push_cast
      rw [Int.toNat_of_nonneg hnonneg]
      exact Int.emod_emod_of_dvd v (pow_dvd_pow 2 h)
    rw [← hcast, Int.toNat_natCast]
  rw [← BitVec.testBit_toNat, BitVec.toNat_ofInt, ← hmod, Nat.testBit_mod_two_pow,
    decide_eq_true hi, Bool.true_and]
  push_cast
  rfl

/-! ## Fields -/

/-- A run of bits inside a storage unit. -/
structure BitField where
  /-- The first byte of the unit, and its bytes. -/
  offset : Nat
  size : Nat
  /-- The first bit in the unit, and how many. -/
  low : Nat
  width : Nat
  fits : low + width ≤ 8 * size

namespace BitField

/-- The first bit of the field in the byte string. -/
def start (f : BitField) : Nat := 8 * f.offset + f.low

/-- The first bit after it. -/
def stop (f : BitField) : Nat := f.start + f.width

/-- Read the field. -/
def get (f : BitField) (bs : List (BitVec 8)) : Nat :=
  (extractBits (loadUnit bs f.offset f.size) f.low f.width).toNat

/-- Assign to the field. -/
def set (f : BitField) (bs : List (BitVec 8)) (v : Int) : List (BitVec 8) :=
  storeUnit bs f.offset f.size
    (insertBits (loadUnit bs f.offset f.size) (BitVec.ofInt _ v) f.low f.width)

/-- The unit lies within `n` bytes. -/
def Within (f : BitField) (n : Nat) : Prop := f.offset + f.size ≤ n

/-- No bit belongs to both. -/
def Disjoint (f g : BitField) : Prop := f.stop ≤ g.start ∨ g.stop ≤ f.start

variable {f g : BitField} {bs bs' : List (BitVec 8)}

theorem Disjoint.symm (h : Disjoint f g) : Disjoint g f := h.elim Or.inr Or.inl

@[simp] theorem length_set (h : f.Within bs.length) (v : Int) : (f.set bs v).length = bs.length :=
  length_storeUnit h _

/-- A field reads its interval. -/
theorem testBit_get (f : BitField) (bs : List (BitVec 8)) (i : Nat) :
    (f.get bs).testBit i = (decide (i < f.width) && bitAt bs (f.start + i)) := by
  have hfits := f.fits
  rw [get, BitVec.testBit_toNat, getLsbD_extractBits hfits]
  by_cases hi : i < f.width
  · rw [decide_eq_true hi, getLsbD_loadUnit (by omega), ← Nat.add_assoc]
    rfl
  · rw [decide_eq_false hi]
    rfl

/-- **Assigning replaces the interval** and leaves every other bit. -/
theorem bitAt_set (h : f.Within bs.length) (v : Int) (i : Nat) :
    bitAt (f.set bs v) i =
      if f.start ≤ i ∧ i < f.stop then ((v % 2 ^ f.width).toNat).testBit (i - f.start)
      else bitAt bs i := by
  have hfits := f.fits
  rw [set, bitAt_storeUnit h]
  unfold stop start
  by_cases hunit : 8 * f.offset ≤ i ∧ i < 8 * (f.offset + f.size)
  · rw [if_pos hunit, getLsbD_insertBits hfits]
    by_cases hin : f.low ≤ i - 8 * f.offset ∧ i - 8 * f.offset < f.low + f.width
    · rw [if_pos hin, if_pos (by omega), @getLsbD_ofInt _ f.width v _ (by omega) (by omega)]
      congr 1
      omega
    · rw [if_neg hin, if_neg (by omega), getLsbD_loadUnit (by omega)]
      congr 1
      omega
  · rw [if_neg hunit, if_neg (by omega)]

/-- What was assigned is read back, as far as the field is wide. -/
theorem get_set_self (h : f.Within bs.length) (v : Int) :
    f.get (f.set bs v) = (v % 2 ^ f.width).toNat := by
  refine Nat.eq_of_testBit_eq fun i => ?_
  have hnonneg : 0 ≤ v % 2 ^ f.width := Int.emod_nonneg _ (by positivity)
  have hlt : (v % 2 ^ f.width).toNat < 2 ^ f.width := by
    have hpos := Int.emod_lt_of_pos v (show (0 : Int) < 2 ^ f.width by positivity)
    zify
    rw [Int.toNat_of_nonneg hnonneg]
    exact hpos
  rw [testBit_get, bitAt_set h]
  by_cases hi : i < f.width
  · rw [decide_eq_true hi, if_pos (by unfold stop; omega), Nat.add_sub_cancel_left, Bool.true_and]
  · rw [decide_eq_false hi, Bool.false_and]
    exact (Nat.testBit_lt_two_pow (Nat.lt_of_lt_of_le hlt
      (Nat.pow_le_pow_right (by decide) (by omega)))).symm

/-- A field sees only its interval. -/
theorem get_congr (h : ∀ i, f.start ≤ i → i < f.stop → bitAt bs i = bitAt bs' i) :
    f.get bs = f.get bs' := by
  refine Nat.eq_of_testBit_eq fun i => ?_
  rw [testBit_get, testBit_get]
  by_cases hi : i < f.width
  · rw [h (f.start + i) (by omega) (by unfold stop; omega)]
  · rw [decide_eq_false hi]
    rfl

/-- **Frame.** Assigning to a field leaves the disjoint ones. -/
theorem get_set_of_disjoint (h : f.Within bs.length) (hd : Disjoint f g) (v : Int) :
    g.get (f.set bs v) = g.get bs := by
  refine get_congr fun i hlo hhi => ?_
  rw [bitAt_set h, if_neg]
  rintro ⟨hlo', hhi'⟩
  rcases hd with hd | hd <;> omega

/-! ## Fields in a memory -/

theorem bitAt_load (m : Mem) {a n i : Nat} (h : i < 8 * n) :
    bitAt (m.load a n) i = (m (a + i / 8)).getLsbD (i % 8) := by
  unfold bitAt
  rw [Mem.getElem?_load m (by omega)]
  rfl

/-- An assignment at `a` shows in the lowest bit of the field. -/
theorem lowest_bit_self {m : Mem} {a n : Nat} (hw : 0 < f.width) (hn : f.Within n) (v : Int) :
    (m.store a (f.set (m.load a n) v) (a + f.start / 8)).getLsbD (f.start % 8)
      = ((v % 2 ^ f.width).toNat).testBit 0 := by
  have hfits := f.fits
  have hlen : (m.load a n).length = n := Mem.length_load ..
  have hset : (f.set (m.load a n) v).length = n := by
    rw [length_set (by rw [hlen]; exact hn), hlen]
  have hin : f.start < 8 * n := by unfold Within at hn; unfold start; omega
  have hself := Mem.load_store_self m a (f.set (m.load a n) v)
  rw [hset] at hself
  rw [← bitAt_load _ hin, hself, bitAt_set (by rw [hlen]; exact hn),
    if_pos ⟨Nat.le_refl _, by unfold stop; omega⟩, Nat.sub_self]

/-- An assignment further up does not. -/
theorem lowest_bit_of_lt {m : Mem} {a b n : Nat} (hn : f.Within n) (hab : a < b) (v : Int) :
    (m.store b (f.set (m.load b n) v) (a + f.start / 8)).getLsbD (f.start % 8)
      = (m (a + f.start / 8)).getLsbD (f.start % 8) := by
  have hfits := f.fits
  have hlen : (m.load b n).length = n := Mem.length_load ..
  have hset : (f.set (m.load b n) v).length = n := by
    rw [length_set (by rw [hlen]; exact hn), hlen]
  by_cases hbelow : a + f.start / 8 < b
  · rw [Mem.store_outside m (Or.inl hbelow)]
  · -- the byte is one of the unit at `b`, but the bit comes before the field
    obtain ⟨i, hi⟩ : ∃ i, f.start = i + 8 * (b - a) := ⟨f.start - 8 * (b - a), by omega⟩
    have hin : i < 8 * n := by unfold Within at hn; unfold start at hi; omega
    have hself := Mem.load_store_self m b (f.set (m.load b n) v)
    rw [hset] at hself
    have hbyte : a + f.start / 8 = b + i / 8 := by omega
    have hbit : f.start % 8 = i % 8 := by omega
    rw [hbyte, hbit, ← bitAt_load _ hin, hself, bitAt_set (by rw [hlen]; exact hn),
      if_neg (by omega), bitAt_load _ hin]

/-- **A field betrays its place**: if assigning at `a` and at `b` does the same, `a` is `b`. -/
theorem eq_of_store_eq {m : Mem} {a b n : Nat} (hw : 0 < f.width) (hn : f.Within n)
    (h : ∀ v : Int, m.store a (f.set (m.load a n) v) = m.store b (f.set (m.load b n) v)) :
    a = b := by
  have hone : ((1 : Int) % 2 ^ f.width).toNat = 1 := by
    have hlt : (1 : Int) < 2 ^ f.width := one_lt_pow₀ (by decide) (by omega)
    rw [Int.emod_eq_of_lt (by decide) hlt]
    rfl
  have hle : ∀ {a b : Nat}, (∀ v : Int, m.store a (f.set (m.load a n) v)
      = m.store b (f.set (m.load b n) v)) → ¬ a < b := by
    intro a b h hab
    have hzero := @lowest_bit_self f m a n hw hn 0
    have hset := @lowest_bit_self f m a n hw hn 1
    rw [h, lowest_bit_of_lt hn hab, Int.zero_emod] at hzero
    rw [h, lowest_bit_of_lt hn hab, hzero, hone] at hset
    exact absurd hset (by decide)
  have hlt := hle h
  have hgt := hle fun v => (h v).symm
  omega

end BitField

/-! ## The bits of a memory -/

/-- Bit `i` of a memory, eight to a byte. -/
def Mem.bit (m : Mem) (i : Nat) : Bool := (m (i / 8)).getLsbD (i % 8)

theorem Mem.bit_add (m : Mem) (a i : Nat) : m.bit (8 * a + i) = (m (a + i / 8)).getLsbD (i % 8) := by
  rw [Mem.bit, Nat.mul_add_div (by decide), Nat.mul_add_mod]

theorem Mem.bit_store (m : Mem) (a i : Nat) (bs : List (BitVec 8)) :
    (m.store a bs).bit i
      = if 8 * a ≤ i ∧ i < 8 * (a + bs.length) then bitAt bs (i - 8 * a) else m.bit i := by
  by_cases hin : 8 * a ≤ i ∧ i < 8 * (a + bs.length)
  · obtain ⟨j, rfl⟩ := Nat.exists_eq_add_of_le hin.1
    have hj : j / 8 < bs.length := by omega
    rw [if_pos hin, Mem.bit_add, Mem.store_inside m hj, Nat.add_sub_cancel_left, bitAt,
      List.getElem?_eq_getElem hj]
    rfl
  · rw [if_neg hin, Mem.bit, Mem.bit, Mem.store_outside m (by omega)]

namespace BitField

variable {f : BitField} {m : Mem} {a n : Nat}

/-- A field in a memory reads its interval. -/
theorem testBit_get_load (hn : f.Within n) (i : Nat) :
    (f.get (m.load a n)).testBit i = (decide (i < f.width) && m.bit (8 * a + (f.start + i))) := by
  have hfits := f.fits
  rw [testBit_get]
  by_cases hi : i < f.width
  · have hin : f.start + i < 8 * n := by unfold Within at hn; unfold start; omega
    rw [bitAt_load m hin, Mem.bit_add]
  · rw [decide_eq_false hi]
    rfl

/-- **Assigning to a field in a memory replaces its interval**, and nothing else. -/
theorem bit_store_set (hn : f.Within n) (v : Int) (i : Nat) :
    (m.store a (f.set (m.load a n) v)).bit i =
      if 8 * a + f.start ≤ i ∧ i < 8 * a + f.stop then
        ((v % 2 ^ f.width).toNat).testBit (i - (8 * a + f.start))
      else m.bit i := by
  have hfits := f.fits
  have hlen : (m.load a n).length = n := Mem.length_load ..
  have hwithin : f.Within (m.load a n).length := by rw [hlen]; exact hn
  have hstop : f.stop ≤ 8 * n := by unfold Within at hn; unfold stop start; omega
  rw [Mem.bit_store, length_set hwithin, hlen]
  by_cases hin : 8 * a ≤ i ∧ i < 8 * (a + n)
  · obtain ⟨j, rfl⟩ := Nat.exists_eq_add_of_le hin.1
    rw [if_pos hin, Nat.add_sub_cancel_left, bitAt_set hwithin]
    by_cases hfield : f.start ≤ j ∧ j < f.stop
    · rw [if_pos hfield, if_pos (by omega), Nat.add_sub_add_left]
    · rw [if_neg hfield, if_neg (by omega), bitAt_load m (by omega), Mem.bit_add]
  · rw [if_neg hin, if_neg (by omega)]

end BitField

end Lib
