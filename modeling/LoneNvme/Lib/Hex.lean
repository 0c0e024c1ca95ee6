import Mathlib.Data.List.Basic
import Mathlib.Tactic.Ring

/-!
# Hexadecimal text

Numbers and byte strings as digits, and what they read back as. A digit is `Nat.digitChar`
of a number below sixteen; no digit is a space, so spaces between digits can be dropped.

What is proved of a text is what a reader makes of it, not its characters one by one: `number`
undoes `digits` with any padding by zeros, and `unhexlify` undoes `ofByte`.
-/

namespace Lib

namespace Hex

def digits : List Char := "0123456789abcdef".toList

/-- What a digit stands for. -/
def value (c : Char) : Option Nat :=
  if digits.idxOf c < 16 then some (digits.idxOf c) else none

@[simp] theorem value_digitChar : ∀ {d : Nat}, d < 16 → value d.digitChar = some d := by decide

theorem digitChar_ne_space : ∀ {d : Nat}, d < 16 → d.digitChar ≠ ' ' := by decide

/-! ## Numbers -/

/-- Read a number, most significant digit first. -/
def number (cs : List Char) : Option Nat := cs.foldlM (fun n c => (value c).map (16 * n + ·)) 0

theorem number_snoc {cs : List Char} {n d : Nat} (h : number cs = some n) (hd : d < 16) :
    number (cs ++ [d.digitChar]) = some (16 * n + d) := by
  unfold number at h ⊢
  rw [List.foldlM_append, h]
  simp [value_digitChar hd]

theorem number_toDigits (n : Nat) : number (Nat.toDigits 16 n) = some n := by
  induction n using Nat.strongRecOn with
  | ind n ih =>
      by_cases h : n < 16
      · rw [Nat.toDigits_of_lt_base h]
        exact (@number_snoc [] 0 n rfl h).trans (by rw [Nat.mul_zero, Nat.zero_add])
      · rw [Nat.toDigits_of_base_le (by decide) (Nat.le_of_not_lt h),
          number_snoc (ih (n / 16) (by omega)) (Nat.mod_lt n (by decide)), Nat.div_add_mod]

theorem space_notMem_toDigits (n : Nat) : ' ' ∉ Nat.toDigits 16 n := by
  induction n using Nat.strongRecOn with
  | ind n ih =>
      by_cases h : n < 16
      · rw [Nat.toDigits_of_lt_base h, List.mem_singleton]
        exact (digitChar_ne_space h).symm
      · rw [Nat.toDigits_of_base_le (by decide) (Nat.le_of_not_lt h), List.mem_append,
          List.mem_singleton, not_or]
        exact ⟨ih (n / 16) (by omega), (digitChar_ne_space (Nat.mod_lt n (by decide))).symm⟩

/-- At least `width` digits, zeros in front. -/
def padded (width n : Nat) : List Char :=
  List.replicate (width - (Nat.toDigits 16 n).length) '0' ++ Nat.toDigits 16 n

/-- **A padded number reads back.** -/
theorem number_padded (width n : Nat) : number (padded width n) = some n := by
  have hzeros : ∀ k, number (List.replicate k '0') = some 0 := by
    intro k
    induction k with
    | zero => rfl
    | succ k ih =>
        rw [List.replicate_succ']
        exact @number_snoc _ 0 0 ih (by decide)
  have happend : ∀ cs cs', number cs = some 0 → number (cs ++ cs') = number cs' := by
    intro cs cs' h
    unfold number at h ⊢
    rw [List.foldlM_append, h]
    rfl
  rw [padded, happend _ _ (hzeros _), number_toDigits]

theorem space_notMem_padded (width n : Nat) : ' ' ∉ padded width n := by
  rw [padded, List.mem_append, not_or]
  refine ⟨fun h => ?_, space_notMem_toDigits n⟩
  exact absurd (List.eq_of_mem_replicate h) (by decide)

/-! ## Bytes -/

/-- The two digits of a byte. -/
def ofByte (b : BitVec 8) : List Char := [(b.toNat / 16).digitChar, (b.toNat % 16).digitChar]

/-- Read two digits at a time. -/
def unhexlify : List Char → Option (List (BitVec 8))
  | [] => some []
  | [_] => none
  | c :: c' :: cs => do
      let high ← value c
      let low ← value c'
      let bs ← unhexlify cs
      return BitVec.ofNat 8 (16 * high + low) :: bs

/-- **Bytes read back.** -/
theorem unhexlify_flatMap (bs : List (BitVec 8)) : unhexlify (bs.flatMap ofByte) = some bs := by
  induction bs with
  | nil => rfl
  | cons b bs ih =>
      have hlt : b.toNat < 256 := b.isLt
      have hhigh : value (b.toNat / 16).digitChar = some (b.toNat / 16) := value_digitChar (by omega)
      have hlow : value (b.toNat % 16).digitChar = some (b.toNat % 16) := value_digitChar (by omega)
      show unhexlify (_ :: _ :: bs.flatMap ofByte) = _
      rw [unhexlify, hhigh, hlow, ih]
      show some (BitVec.ofNat 8 (16 * (b.toNat / 16) + b.toNat % 16) :: bs) = _
      rw [Nat.div_add_mod, BitVec.ofNat_toNat, BitVec.setWidth_eq]

theorem space_notMem_ofByte (b : BitVec 8) : ' ' ∉ ofByte b := by
  have hlt : b.toNat < 256 := b.isLt
  intro h
  rcases List.mem_cons.mp h with h | h
  · exact digitChar_ne_space (show b.toNat / 16 < 16 by omega) h.symm
  · exact digitChar_ne_space (show b.toNat % 16 < 16 by omega) (List.mem_singleton.mp h).symm

/-- The bytes with a separator between them. -/
def separated (sep : List Char) (bs : List (BitVec 8)) : List Char :=
  List.intercalate sep (bs.map ofByte)

theorem separated_cons_cons (sep : List Char) (b b' : BitVec 8) (bs : List (BitVec 8)) :
    separated sep (b :: b' :: bs) = ofByte b ++ sep ++ separated sep (b' :: bs) := by
  simp [separated, List.intercalate]

theorem length_separated (sep : List Char) (bs : List (BitVec 8)) :
    (separated sep bs).length = 2 * bs.length + (bs.length - 1) * sep.length := by
  induction bs with
  | nil => simp [separated]
  | cons b bs ih =>
      cases bs with
      | nil => simp [separated, ofByte]
      | cons b' bs =>
          rw [separated_cons_cons, List.length_append, List.length_append, ih]
          show 2 + sep.length + _ = _
          simp only [List.length_cons, Nat.add_sub_cancel]
          ring

/-- Without the spaces, separated bytes are the bytes. -/
theorem filter_separated {sep : List Char} (hsep : ∀ c ∈ sep, c = ' ') (bs : List (BitVec 8)) :
    ((separated sep bs).filter fun c => c ≠ ' ') = bs.flatMap ofByte := by
  have hbyte : ∀ b, ((ofByte b).filter fun c => c ≠ ' ') = ofByte b := by
    intro b
    refine List.filter_eq_self.mpr fun c hc => ?_
    have hne : c ≠ ' ' := fun he => space_notMem_ofByte b (he ▸ hc)
    simpa using hne
  have hnone : (sep.filter fun c => c ≠ ' ') = [] := by
    refine List.filter_eq_nil_iff.mpr fun c hc => ?_
    simpa using hsep c hc
  induction bs with
  | nil => simp [separated]
  | cons b bs ih =>
      cases bs with
      | nil =>
          show ((ofByte b).filter fun c => c ≠ ' ') = ofByte b ++ []
          rw [hbyte, List.append_nil]
      | cons b' bs =>
          rw [separated_cons_cons, List.filter_append, List.filter_append, hbyte, hnone, ih,
            List.append_nil]
          rfl

end Hex

end Lib
