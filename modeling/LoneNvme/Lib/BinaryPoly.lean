import Mathlib.Data.Nat.Bitwise
import Mathlib.Tactic.Ring

/-!
# Polynomials over two elements, acting on words

A number stands for the polynomial whose coefficients are its bits. Given a map on words
that respects exclusive or, such a polynomial acts on a word: `X` applies the map once.
Powers of `X` modulo a polynomial that annihilates the word are computed by squaring, and
tell the word after very many steps of the map.
-/

namespace Lib

/-- The map respects exclusive or. -/
def XorLinear (T : Nat → Nat) : Prop := ∀ a b, T (a ^^^ b) = T a ^^^ T b

namespace XorLinear

variable {T : Nat → Nat}

theorem zero (hT : XorLinear T) : T 0 = 0 := by
  have h := hT 0 0
  rw [Nat.xor_self] at h
  rw [h, Nat.xor_self]

end XorLinear

namespace BinaryPoly

/-- The polynomial of the lowest `n` bits of `a`, applied to `s`. -/
def act (T : Nat → Nat) : Nat → Nat → Nat → Nat
  | 0, _, _ => 0
  | n + 1, a, s => a % 2 * s ^^^ T (act T n (a / 2) s)

/-
The next two are written with the primitive operations, which the kernel computes at once;
`mulX_eq` and `mul_succ` say the same in the usual ones.
-/

/-- `X * a` modulo `p`, a polynomial of degree `deg`. -/
def mulX (deg p a : Nat) : Nat :=
  Nat.xor (Nat.mul 2 a) (Nat.mul p (Nat.div (Nat.mul 2 a) (Nat.pow 2 deg)))

/-- `a * b` modulo `p`, for `n` bits of `b`. -/
def mul (deg p : Nat) : Nat → Nat → Nat → Nat
  | 0, _, _ => 0
  | n + 1, a, b => Nat.xor (mulX deg p (mul deg p n a (Nat.div b 2))) (Nat.mul (Nat.mod b 2) a)

/-- `X ^ k` modulo `p`, for `n` bits of `k`. -/
def powX (deg p : Nat) : Nat → Nat → Nat
  | 0, _ => 1
  | n + 1, k =>
      let half := powX deg p n (k / 2)
      let square := mul deg p deg half half
      if k % 2 = 0 then square else mulX deg p square

theorem mulX_eq (deg p a : Nat) : mulX deg p a = 2 * a ^^^ p * (2 * a / 2 ^ deg) := rfl

theorem mul_succ (deg p n a b : Nat) :
    mul deg p (n + 1) a b = mulX deg p (mul deg p n a (b / 2)) ^^^ b % 2 * a := rfl

/-! ## The action -/

section

variable {T : Nat → Nat} {n a b : Nat}

theorem xor_mod_two_mul (a b s : Nat) : (a ^^^ b) % 2 * s = a % 2 * s ^^^ b % 2 * s := by
  have hmod : (a ^^^ b) % 2 = a % 2 ^^^ b % 2 := @Nat.xor_mod_two_pow a b 1
  rw [hmod]
  rcases Nat.mod_two_eq_zero_or_one a with ha | ha
  · rw [ha, Nat.zero_xor, Nat.zero_mul, Nat.zero_xor]
  · rcases Nat.mod_two_eq_zero_or_one b with hb | hb
    · rw [ha, hb, Nat.xor_zero, Nat.zero_mul, Nat.xor_zero]
    · rw [ha, hb, Nat.xor_self, Nat.zero_mul, Nat.xor_self]

/-- The action adds. -/
theorem act_xor (hT : XorLinear T) (n a b s : Nat) :
    act T n (a ^^^ b) s = act T n a s ^^^ act T n b s := by
  induction n generalizing a b with
  | zero => exact (Nat.xor_self 0).symm
  | succ n ih =>
      rw [act, act, act, Nat.xor_div_two, ih, hT, xor_mod_two_mul]
      ac_rfl

theorem act_zero (hT : XorLinear T) (n s : Nat) : act T n 0 s = 0 := by
  have h := act_xor hT n 0 0 s
  rw [Nat.xor_self] at h
  rw [h, Nat.xor_self]

theorem act_one (hT : XorLinear T) (n s : Nat) : act T (n + 1) 1 s = s := by
  rw [act, act_zero hT, hT.zero, Nat.xor_zero]
  exact Nat.one_mul s

/-- Coefficients a polynomial does not have do not count. -/
theorem act_succ (hT : XorLinear T) (ha : a < 2 ^ n) (s : Nat) :
    act T (n + 1) a s = act T n a s := by
  induction n generalizing a with
  | zero =>
      obtain rfl : a = 0 := by omega
      rw [act_zero hT, act_zero hT]
  | succ n ih => rw [act, ih (by rw [Nat.pow_succ] at ha; omega), ← act]

/-- Multiplying by `X` applies the map. -/
theorem act_double (T : Nat → Nat) (n a s : Nat) :
    act T (n + 1) (2 * a) s = T (act T n a s) := by
  rw [act, Nat.mul_mod_right, Nat.zero_mul, Nat.zero_xor, Nat.mul_div_cancel_left a (by decide)]

/-- The coefficient of the bit `n` apart. -/
theorem act_lead (hT : XorLinear T) (c a s : Nat) :
    act T n (a ^^^ c % 2 * b) s = act T n a s ^^^ c % 2 * act T n b s := by
  rw [act_xor hT]
  rcases Nat.mod_two_eq_zero_or_one c with hc | hc
  · rw [hc, Nat.zero_mul, Nat.zero_mul, act_zero hT]
  · rw [hc, Nat.one_mul, Nat.one_mul]

end

/-! ## Arithmetic modulo a polynomial -/

/-- `p` has degree `deg`, and its action on `e` is null. -/
structure Annihilates (T : Nat → Nat) (deg p e : Nat) : Prop where
  linear : XorLinear T
  lead : p / 2 ^ deg = 1
  null : act T (deg + 1) p e = 0

namespace Annihilates

variable {T : Nat → Nat} {deg p e a b : Nat}

/-- Doubling carries at most one bit out. -/
theorem carry (ha : a < 2 ^ deg) : 2 * a / 2 ^ deg = 0 ∨ 2 * a / 2 ^ deg = 1 := by
  have hlt : 2 * a / 2 ^ deg < 2 := Nat.div_lt_of_lt_mul (by omega)
  exact Nat.le_one_iff_eq_zero_or_eq_one.mp (Nat.lt_succ_iff.mp hlt)

theorem mulX_lt (h : Annihilates T deg p e) (ha : a < 2 ^ deg) : mulX deg p a < 2 ^ deg := by
  have hpos : 0 < 2 ^ deg := Nat.two_pow_pos deg
  rw [mulX_eq, ← Nat.div_eq_zero_iff_lt hpos, Nat.xor_div_two_pow]
  rcases carry ha with hq | hq
  · rw [hq, Nat.mul_zero, Nat.zero_div, Nat.xor_self]
  · rw [hq, Nat.mul_one, h.lead, Nat.xor_self]

theorem act_mulX (h : Annihilates T deg p e) (ha : a < 2 ^ deg) :
    act T deg (mulX deg p a) e = T (act T deg a e) := by
  rw [← act_succ h.linear (h.mulX_lt ha), ← act_double T, mulX_eq, act_xor h.linear]
  rcases carry ha with hq | hq
  · rw [hq, Nat.mul_zero, act_zero h.linear, Nat.xor_zero]
  · rw [hq, Nat.mul_one, h.null, Nat.xor_zero]

theorem mul_lt (h : Annihilates T deg p e) (ha : a < 2 ^ deg) (n b : Nat) :
    mul deg p n a b < 2 ^ deg := by
  induction n generalizing b with
  | zero => exact Nat.two_pow_pos deg
  | succ n ih =>
      rw [mul_succ]
      refine Nat.xor_lt_two_pow (h.mulX_lt (ih _)) ?_
      rcases Nat.mod_two_eq_zero_or_one b with hb | hb
      · rw [hb, Nat.zero_mul]
        exact Nat.two_pow_pos deg
      · rw [hb, Nat.one_mul]
        exact ha

/-- **Multiplying** applies one polynomial after the other. -/
theorem act_mul (h : Annihilates T deg p e) (ha : a < 2 ^ deg) (n b : Nat) :
    act T deg (mul deg p n a b) e = act T n b (act T deg a e) := by
  induction n generalizing b with
  | zero => exact act_zero h.linear deg e
  | succ n ih =>
      rw [mul_succ, act_lead h.linear, h.act_mulX (h.mul_lt ha n _), ih, act]
      ac_rfl

/-- Polynomials in the map commute with it. -/
theorem act_iterate (hT : XorLinear T) (n a k s : Nat) :
    act T n a (T^[k] s) = T^[k] (act T n a s) := by
  have hstep : ∀ s, act T n a (T s) = T (act T n a s) := by
    intro s
    induction n generalizing a with
    | zero => exact hT.zero.symm
    | succ n ih =>
        rw [act, act, ih, hT]
        rcases Nat.mod_two_eq_zero_or_one a with ha | ha
        · rw [ha, Nat.zero_mul, Nat.zero_mul, hT.zero]
        · rw [ha, Nat.one_mul, Nat.one_mul]
  induction k generalizing s with
  | zero => rfl
  | succ k ih => rw [Function.iterate_succ_apply, ih, hstep, Function.iterate_succ_apply]

/-- **Powers of `X`** tell where the map leads from `e`. -/
theorem act_powX (h : Annihilates T deg p e) (hdeg : 0 < deg) {n k : Nat} (hk : k < 2 ^ n) :
    powX deg p n k < 2 ^ deg ∧ act T deg (powX deg p n k) e = T^[k] e := by
  induction n generalizing k with
  | zero =>
      obtain rfl : k = 0 := by omega
      obtain ⟨d, rfl⟩ := Nat.exists_eq_succ_of_ne_zero (Nat.ne_of_gt hdeg)
      exact ⟨Nat.one_lt_two_pow (Nat.succ_ne_zero d), act_one h.linear d e⟩
  | succ n ih =>
      obtain ⟨hlt, hact⟩ := ih (show k / 2 < 2 ^ n by rw [Nat.pow_succ] at hk; omega)
      -- the square of half the power, and one factor more if it is odd
      have hsquare : act T deg (mul deg p deg (powX deg p n (k / 2)) (powX deg p n (k / 2))) e
          = T^[2 * (k / 2)] e := by
        rw [h.act_mul hlt, hact, act_iterate h.linear, hact, ← Function.iterate_add_apply,
          ← Nat.two_mul]
      have hsquare_lt := h.mul_lt hlt deg (powX deg p n (k / 2))
      show (if k % 2 = 0 then _ else _) < _ ∧ act T deg (if k % 2 = 0 then _ else _) e = _
      split
      · rename_i heven
        refine ⟨hsquare_lt, ?_⟩
        rw [hsquare]
        congr 2
        omega
      · rename_i hodd
        refine ⟨h.mulX_lt hsquare_lt, ?_⟩
        rw [h.act_mulX hsquare_lt, hsquare, ← Function.iterate_succ_apply' T]
        congr 2
        omega

end Annihilates

end BinaryPoly

end Lib
