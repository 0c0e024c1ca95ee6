import LoneNvme.Lib.Bytes
import Mathlib.Logic.Function.Basic

/-!
# Values in memory

A codec writes the values of a type as byte strings of one length, each string of that
length one value. A memory divided into cells that do not overlap is a table of byte
strings: replacing a cell replaces an entry of the table.

`Cells` names the places of such a table and says that no two of them overlap. `Holds` connects
it with a memory, and `Holds.put` is the only way in which a program changes it.
-/

namespace Lib

/-- A bijection between a type and the byte strings of one length. -/
structure Codec (α : Type*) where
  size : Nat
  encode : α → List (BitVec 8)
  decode : List (BitVec 8) → α
  length_encode : ∀ x, (encode x).length = size
  decode_encode : ∀ x, decode (encode x) = x
  encode_decode : ∀ bs, bs.length = size → encode (decode bs) = bs

namespace Codec

variable {α : Type*} (c : Codec α)

/-- A word of `w` bytes, least significant first. -/
def word (w : Nat) : Codec (BitVec (8 * w)) where
  size := w
  encode x := Mem.toLE w x.toNat
  decode bs := BitVec.ofNat _ (Mem.ofLE bs)
  length_encode x := Mem.length_toLE w x.toNat
  decode_encode x := by
    refine BitVec.eq_of_toNat_eq ?_
    rw [BitVec.toNat_ofNat, Mem.ofLE_toLE, ← Nat.pow_mul 2 8 w, Nat.mod_mod, Nat.mod_eq_of_lt x.isLt]
  encode_decode bs h := by
    have hlt := Mem.ofLE_lt bs
    rw [h, ← Nat.pow_mul 2 8 w] at hlt
    rw [BitVec.toNat_ofNat, Nat.mod_eq_of_lt hlt, ← h, Mem.toLE_ofLE]

/-- The value at `a`. -/
def read (m : Mem) (a : Nat) : α := c.decode (m.load a c.size)

/-- Store a value at `a`. -/
def write (m : Mem) (a : Nat) (x : α) : Mem := m.store a (c.encode x)

theorem load_write_self (m : Mem) (a : Nat) (x : α) :
    (c.write m a x).load a c.size = c.encode x := by
  have h := Mem.load_store_self m a (c.encode x)
  rw [c.length_encode] at h
  exact h

theorem read_write_self (m : Mem) (a : Nat) (x : α) : c.read (c.write m a x) a = x := by
  rw [read, c.load_write_self, c.decode_encode]

theorem load_store_self (m : Mem) (a : Nat) (x : α) :
    (m.store a (c.encode x)).load a c.size = c.encode x := c.load_write_self m a x

/-- The bytes of the value that is read are those that were there. -/
theorem encode_read (m : Mem) (a : Nat) : c.encode (c.read m a) = m.load a c.size :=
  c.encode_decode _ (Mem.length_load m a c.size)

/-- Bytes that encode a value read as it. -/
theorem read_eq {m : Mem} {a : Nat} {x : α} (h : m.load a c.size = c.encode x) : c.read m a = x := by
  rw [read, h, c.decode_encode]

end Codec

/-! ## Memory in cells -/

/-- Ranges of a memory, under names. Those in use have no byte in common. -/
structure Cells (κ : Type*) where
  addr : κ → Nat
  size : κ → Nat
  used : κ → Prop
  apart : ∀ k l, used k → used l → k ≠ l → addr k + size k ≤ addr l ∨ addr l + size l ≤ addr k

namespace Cells

variable {κ : Type*} (cells : Cells κ) {k : κ} {bs : List (BitVec 8)}

/-- The bytes in a cell. -/
def get (m : Mem) (k : κ) : List (BitVec 8) := m.load (cells.addr k) (cells.size k)

/-- The memory with a cell replaced. -/
def put (m : Mem) (k : κ) (bs : List (BitVec 8)) : Mem := m.store (cells.addr k) bs

/-- The cells in use hold what `contents` says. -/
def Holds (m : Mem) (contents : κ → List (BitVec 8)) : Prop :=
  ∀ k, cells.used k → cells.get m k = contents k

variable {cells}

/-- **Replacing a cell** replaces it in what the memory holds. -/
theorem Holds.put [DecidableEq κ] {m : Mem} {contents : κ → List (BitVec 8)}
    (h : cells.Holds m contents) (hk : cells.used k) (hlen : bs.length = cells.size k) :
    cells.Holds (cells.put m k bs) (Function.update contents k bs) := by
  intro l hl
  by_cases hlk : l = k
  · subst hlk
    have hself := Mem.load_store_self m (cells.addr l) bs
    rw [hlen] at hself
    rw [Function.update_self]
    exact hself
  · have hapart := cells.apart k l hk hl (Ne.symm hlk)
    rw [Function.update_of_ne hlk, ← h l hl]
    exact Mem.load_store_disjoint m (by rw [hlen]; exact hapart.symm)

/-- Contents may be restated where cells are in use. -/
theorem Holds.congr {m : Mem} {contents contents' : κ → List (BitVec 8)}
    (h : cells.Holds m contents) (he : ∀ k, cells.used k → contents k = contents' k) :
    cells.Holds m contents' :=
  fun k hk => (h k hk).trans (he k hk)

end Cells

end Lib
