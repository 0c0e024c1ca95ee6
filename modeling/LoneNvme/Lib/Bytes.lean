import Mathlib.Data.List.Basic
import Mathlib.Tactic.Ring

/-!
# Byte memory

A memory is a function from addresses to bytes. `load` and `store` move ranges;
a word is eight bytes, least significant first, and `words` reads an array of them.

A `load` depends on its range only (`load_congr`), and a `store` changes nothing outside its own
(`store_outside`). Whatever is said of memory later, of buffers, queues and registers, rests on
these two and on what a range reads as after it was stored to.
-/

namespace Lib

/-- A byte-addressed memory. -/
def Mem := Nat → BitVec 8

namespace Mem

/-- The `n` bytes from `a` on. -/
def load (m : Mem) (a n : Nat) : List (BitVec 8) := (List.range n).map fun k => m (a + k)

/-- The memory with `bs` put at `a`. -/
def store (m : Mem) (a : Nat) (bs : List (BitVec 8)) : Mem :=
  fun x => if a ≤ x then (bs[x - a]?).getD (m x) else m x

/-- The memory with `n` bytes from `a` on set to `v`. -/
def fill (m : Mem) (a n : Nat) (v : BitVec 8) : Mem := fun x => if a ≤ x ∧ x < a + n then v else m x

theorem fill_inside (m : Mem) {a n x : Nat} (v : BitVec 8) (h : a ≤ x) (hx : x < a + n) :
    m.fill a n v x = v := if_pos ⟨h, hx⟩

@[simp] theorem length_load (m : Mem) (a n : Nat) : (m.load a n).length = n := by
  rw [load, List.length_map, List.length_range]

theorem load_congr {m m' : Mem} {a n : Nat} (h : ∀ k, k < n → m (a + k) = m' (a + k)) :
    m.load a n = m'.load a n :=
  List.map_congr_left fun k hk => h k (List.mem_range.mp hk)

/-- A range is read piece by piece. -/
theorem load_add (m : Mem) (a j k : Nat) : m.load a (j + k) = m.load a j ++ m.load (a + j) k := by
  unfold load
  rw [List.range_add, List.map_append, List.map_map]
  refine congrArg _ (List.map_congr_left fun i _ => ?_)
  exact congrArg m (Nat.add_assoc a j i).symm

theorem take_load (m : Mem) (a n k : Nat) : (m.load a n).take k = m.load a (min k n) := by
  rw [load, ← List.map_take, List.take_range]
  rfl

theorem getElem?_load (m : Mem) {a n k : Nat} (hk : k < n) : (m.load a n)[k]? = some (m (a + k)) := by
  rw [load, List.getElem?_map, List.getElem?_range hk]
  rfl

theorem store_inside (m : Mem) {a k : Nat} {bs : List (BitVec 8)} (hk : k < bs.length) :
    m.store a bs (a + k) = bs[k] := by
  unfold store
  rw [if_pos (Nat.le_add_right a k), Nat.add_sub_cancel_left, List.getElem?_eq_getElem hk]
  rfl

/-- **Frame.** A store changes nothing outside its range. -/
theorem store_outside (m : Mem) {a x : Nat} {bs : List (BitVec 8)}
    (h : x < a ∨ a + bs.length ≤ x) : m.store a bs x = m x := by
  unfold store
  by_cases hx : a ≤ x
  · rw [if_pos hx, List.getElem?_eq_none (by omega)]
    rfl
  · rw [if_neg hx]

@[simp] theorem store_nil (m : Mem) (a : Nat) : m.store a [] = m := by
  funext x
  exact store_outside m (by rw [List.length_nil]; omega)

/-- One byte changed. -/
def set (m : Mem) (a : Nat) (b : BitVec 8) : Mem := fun x => if x = a then b else m x

/-- A range is stored byte by byte. -/
theorem store_cons (m : Mem) (a : Nat) (b : BitVec 8) (bs : List (BitVec 8)) :
    m.store a (b :: bs) = (m.set a b).store (a + 1) bs := by
  funext x
  by_cases hx : a ≤ x ∧ x < a + (b :: bs).length
  · obtain ⟨k, rfl⟩ : ∃ k, x = a + k := ⟨x - a, by omega⟩
    have hk : k < (b :: bs).length := by omega
    rw [store_inside m hk]
    cases k with
    | zero =>
        have houtside := @store_outside (m.set a b) (a + 1) (a + 0) bs (Or.inl (by omega))
        rw [houtside, set, if_pos (Nat.add_zero a)]
        rfl
    | succ k =>
        have hk' : k < bs.length := by simpa using hk
        rw [show a + (k + 1) = a + 1 + k by omega, store_inside _ hk']
        rfl
  · rw [List.length_cons] at hx
    rw [store_outside m (by rw [List.length_cons]; omega), store_outside _ (by omega), set,
      if_neg (by omega)]

theorem load_succ (m : Mem) (a n : Nat) : m.load a (n + 1) = m a :: m.load (a + 1) n := by
  rw [Nat.add_comm n 1, load_add]
  rfl

/-- What was stored is what is read, any part of it. -/
theorem load_store (m : Mem) {a k n : Nat} {bs : List (BitVec 8)} (h : k + n ≤ bs.length) :
    (m.store a bs).load (a + k) n = (bs.drop k).take n := by
  refine List.ext_getElem? fun i => ?_
  by_cases hi : i < n
  · rw [getElem?_load _ hi, List.getElem?_take_of_lt hi, List.getElem?_drop,
      List.getElem?_eq_getElem (by omega), Nat.add_assoc, store_inside m (by omega)]
  · rw [List.getElem?_eq_none (by rw [length_load]; omega),
      List.getElem?_eq_none (by rw [List.length_take]; omega)]

theorem load_store_self (m : Mem) (a : Nat) (bs : List (BitVec 8)) :
    (m.store a bs).load a bs.length = bs := by
  have h := @load_store m a 0 bs.length bs (by omega)
  rw [Nat.add_zero, List.drop_zero, List.take_length] at h
  exact h

/-- Storing what is there already. -/
theorem store_eq_self {m : Mem} {a : Nat} {bs : List (BitVec 8)} (h : m.load a bs.length = bs) :
    m.store a bs = m := by
  refine funext fun x => ?_
  by_cases hx : x < a ∨ a + bs.length ≤ x
  · exact store_outside m hx
  · obtain ⟨k, rfl⟩ : ∃ k, x = a + k := ⟨x - a, by omega⟩
    have hk : k < bs.length := by omega
    rw [store_inside m hk]
    have hload := getElem?_load m (a := a) hk
    rw [h, List.getElem?_eq_getElem hk] at hload
    exact Option.some.inj hload

/-- **Frame**, for a whole range. -/
theorem load_store_disjoint (m : Mem) {a b n : Nat} {bs : List (BitVec 8)}
    (h : b + n ≤ a ∨ a + bs.length ≤ b) : (m.store a bs).load b n = m.load b n :=
  load_congr fun k hk => store_outside m (by omega)

/-! ## Little-endian words -/

/-- The number whose little-endian bytes are given. -/
def ofLE : List (BitVec 8) → Nat
  | [] => 0
  | b :: bs => b.toNat + 256 * ofLE bs

/-- The lowest `w` bytes of `n`. -/
def toLE : Nat → Nat → List (BitVec 8)
  | 0, _ => []
  | w + 1, n => BitVec.ofNat 8 n :: toLE w (n / 256)

@[simp] theorem length_toLE (w n : Nat) : (toLE w n).length = w := by
  induction w generalizing n with
  | zero => rfl
  | succ w ih => rw [toLE, List.length_cons, ih]

theorem ofLE_toLE (w n : Nat) : ofLE (toLE w n) = n % 256 ^ w := by
  induction w generalizing n with
  | zero => rw [toLE, ofLE, Nat.pow_zero, Nat.mod_one]
  | succ w ih =>
      have hsplit : n % 256 ^ (w + 1) = n % 256 + 256 * (n / 256 % 256 ^ w) := by
        rw [Nat.pow_succ', Nat.mod_mul]
      rw [toLE, ofLE, ih, BitVec.toNat_ofNat, hsplit]

theorem ofLE_lt (bs : List (BitVec 8)) : ofLE bs < 256 ^ bs.length := by
  induction bs with
  | nil => exact Nat.one_pos
  | cons b bs ih =>
      have hb := b.isLt
      rw [ofLE, List.length_cons, Nat.pow_succ']
      omega

theorem toLE_ofLE (bs : List (BitVec 8)) : toLE bs.length (ofLE bs) = bs := by
  induction bs with
  | nil => rfl
  | cons b bs ih =>
      have hb := b.isLt
      have hlow : BitVec.ofNat 8 (b.toNat + 256 * ofLE bs) = b :=
        BitVec.eq_of_toNat_eq (by rw [BitVec.toNat_ofNat]; omega)
      have hhigh : (b.toNat + 256 * ofLE bs) / 256 = ofLE bs := by omega
      rw [List.length_cons, ofLE, toLE, hlow, hhigh, ih]

theorem ofLE_zeros (w : Nat) : ofLE (List.replicate w 0) = 0 := by
  induction w with
  | zero => rfl
  | succ w ih => rw [List.replicate_succ, ofLE, ih]; rfl

/-- The word at `a`. -/
def word (m : Mem) (a : Nat) : Nat := ofLE (m.load a 8)

/-- An array of `k` words at `a`. -/
def words (m : Mem) (a k : Nat) : List Nat := (List.range k).map fun j => m.word (a + 8 * j)

/-- Assign to a word. -/
def storeWord (m : Mem) (a v : Nat) : Mem := m.store a (toLE 8 v)

@[simp] theorem length_words (m : Mem) (a k : Nat) : (m.words a k).length = k := by
  rw [words, List.length_map, List.length_range]

theorem getElem?_words (m : Mem) {a k j : Nat} (hj : j < k) :
    (m.words a k)[j]? = some (m.word (a + 8 * j)) := by
  rw [words, List.getElem?_map, List.getElem?_range hj]
  rfl

theorem word_storeWord (m : Mem) {a v : Nat} (hv : v < 2 ^ 64) : (m.storeWord a v).word a = v := by
  have h := load_store_self m a (toLE 8 v)
  rw [length_toLE] at h
  rw [word, storeWord, h, ofLE_toLE]
  exact Nat.mod_eq_of_lt hv

/-- Words that agree byte by byte. -/
theorem words_congr {m m' : Mem} {a k : Nat} (h : ∀ x, x < 8 * k → m (a + x) = m' (a + x)) :
    m.words a k = m'.words a k := by
  refine List.map_congr_left fun j hj => ?_
  have hjk := List.mem_range.mp hj
  refine congrArg ofLE (load_congr fun x hx => ?_)
  have hbyte := h (8 * j + x) (by omega)
  rw [← Nat.add_assoc] at hbyte
  exact hbyte

theorem words_store_disjoint (m : Mem) {a b k : Nat} {bs : List (BitVec 8)}
    (h : b + 8 * k ≤ a ∨ a + bs.length ≤ b) : (m.store a bs).words b k = m.words b k :=
  words_congr fun x hx => store_outside m (by omega)

/-- Assigning one word of an array. -/
theorem words_storeWord (m : Mem) {a k j v : Nat} (hv : v < 2 ^ 64) :
    (m.storeWord (a + 8 * j) v).words a k = (m.words a k).set j v := by
  refine List.ext_getElem? fun i => ?_
  by_cases hi : i < k
  · rw [getElem?_words _ hi, List.getElem?_set]
    by_cases hij : j = i
    · subst hij
      rw [if_pos rfl, if_pos (by rw [length_words]; exact hi), word_storeWord m hv]
    · rw [if_neg hij, getElem?_words _ hi, word, word, storeWord,
        load_store_disjoint m (by rw [length_toLE]; omega)]
  · rw [List.getElem?_eq_none (by rw [length_words]; omega),
      List.getElem?_eq_none (by rw [List.length_set, length_words]; omega)]

/-- Zeroed memory holds zero words. -/
theorem words_zeros (m : Mem) {a k n : Nat} (h : 8 * k ≤ n) :
    (m.store a (List.replicate n 0)).words a k = List.replicate k 0 := by
  refine List.ext_getElem? fun i => ?_
  by_cases hi : i < k
  · have hlen : 8 * i + 8 ≤ (List.replicate n (0 : BitVec 8)).length := by
      rw [List.length_replicate]; omega
    rw [getElem?_words _ hi, word, load_store m hlen, List.drop_replicate, List.take_replicate,
      Nat.min_eq_left (by omega), ofLE_zeros, List.getElem?_replicate, if_pos hi]
  · rw [List.getElem?_eq_none (by rw [length_words]; omega),
      List.getElem?_eq_none (by rw [List.length_replicate]; omega)]

/-- Filling the next free word of an array that is zero from there on. -/
theorem set_zeros (done : List Nat) (r v : Nat) :
    (done ++ List.replicate (r + 1) 0).set done.length v
      = (done ++ [v]) ++ List.replicate r 0 := by
  rw [List.set_append_right _ _ (Nat.le_refl _), Nat.sub_self, List.replicate_succ, List.set_cons_zero,
    List.append_assoc]
  rfl

end Mem

/-! ## Scalars in a byte string -/

/-- One byte; zero behind the end. -/
def byteAt (bytes : List (BitVec 8)) (i : Nat) : Nat := (bytes[i]?.getD 0).toNat

/-- A scalar of `size` bytes at `offset`. -/
def scalar (bytes : List (BitVec 8)) (offset size : Nat) : Nat :=
  Mem.ofLE ((bytes.drop offset).take size)

theorem scalar_drop (bytes : List (BitVec 8)) (i offset size : Nat) :
    scalar (bytes.drop i) offset size = scalar bytes (i + offset) size := by
  rw [scalar, scalar, List.drop_drop]

theorem scalar_succ (bytes : List (BitVec 8)) (offset size : Nat) :
    scalar bytes offset (size + 1)
      = byteAt bytes offset + 256 * scalar bytes (offset + 1) size := by
  unfold scalar byteAt
  rcases Nat.lt_or_ge offset bytes.length with h | h
  · rw [List.drop_eq_getElem_cons h, List.take_succ_cons, Mem.ofLE, List.getElem?_eq_getElem h]
    rfl
  · rw [List.drop_eq_nil_of_le h, List.drop_eq_nil_of_le (Nat.le_succ_of_le h),
      List.getElem?_eq_none h, List.take_nil, List.take_nil]
    rfl

/-- An array of `n` scalars of `size` bytes. -/
def scalars (bytes : List (BitVec 8)) (size n : Nat) : List Nat :=
  (List.range n).map fun i => scalar bytes (size * i) size

theorem scalars_toLE {bytes : List (BitVec 8)} {size n v : Nat} (hv : v < 256 ^ size) :
    scalars (Mem.toLE size v ++ bytes) size (n + 1) = v :: scalars bytes size n := by
  have hlen := Mem.length_toLE size v
  have hhead : scalar (Mem.toLE size v ++ bytes) (size * 0) size = v := by
    rw [Nat.mul_zero, scalar, List.drop_zero, List.take_left' hlen, Mem.ofLE_toLE,
      Nat.mod_eq_of_lt hv]
  rw [scalars, List.range_succ_eq_map, List.map_cons, hhead, List.map_map]
  refine congrArg (v :: ·) (List.map_congr_left fun i _ => ?_)
  show scalar (Mem.toLE size v ++ bytes) (size * (i + 1)) size = _
  rw [scalar, Nat.mul_succ, Nat.add_comm, ← List.drop_drop, List.drop_left' hlen]
  rfl

theorem scalars_zeros (m size n : Nat) :
    scalars (List.replicate m 0) size n = List.replicate n 0 := by
  refine List.eq_replicate_of_mem ?_ |>.trans (by rw [scalars, List.length_map, List.length_range])
  intro v hv
  obtain ⟨i, _, rfl⟩ := List.mem_map.mp hv
  rw [scalar, List.drop_replicate, List.take_replicate, Mem.ofLE_zeros]

/-- An array that is filled from the start. -/
theorem scalars_flatMap {size : Nat} {vs : List Nat} (hvs : ∀ v ∈ vs, v < 256 ^ size) (m n : Nat) :
    scalars (vs.flatMap (Mem.toLE size) ++ List.replicate m 0) size (vs.length + n)
      = vs ++ List.replicate n 0 := by
  induction vs with
  | nil => rw [List.length_nil, Nat.zero_add]; exact scalars_zeros m size n
  | cons v vs ih =>
      rw [List.flatMap_cons, List.append_assoc, List.length_cons, Nat.add_right_comm,
        scalars_toLE (hvs v List.mem_cons_self), ih fun w hw => hvs w (List.mem_cons_of_mem v hw)]
      rfl

end Lib
