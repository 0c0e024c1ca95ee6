import LoneNvme.Lib.Python
import Mathlib.Data.Int.Bitwise

/-!
# Random addresses

`LBARandGenLFSR` runs a shift register over the numbers of a power of two and leaves out
those that are too large. Zero, which a register never shows, comes last.

Only the code is here. That the table's registers go through all numbers but zero is checked in
`LbaCycle`, how deep `f` calls itself in `LbaRetry`, and what comes out in `LbaPermutation`.
-/

namespace LoneNvme

open Lib

/-- The generator. `shifts` is what `next`, made by `get_lfsr_func`, holds of its polynomial. -/
structure LBARandGenLFSR where
  maxLba : Int
  numBlocksPerIo : Int
  initialState : Int
  maxValue : Int
  state : Int
  numBits : Nat
  shifts : Nat × Nat × Nat
  period : Nat
  complete : Bool
  deriving DecidableEq, Repr

namespace LBARandGenLFSR

/-- The taps of each register, by the number of its bits. -/
def taps : List (Nat × Nat × Nat × Nat × Nat) :=
  [(5, 5, 4, 3, 2), (6, 6, 5, 3, 2), (7, 7, 6, 5, 4), (8, 8, 6, 5, 4), (9, 9, 8, 6, 5),
    (10, 10, 9, 7, 6), (11, 11, 10, 9, 7), (12, 12, 11, 8, 6), (13, 13, 12, 10, 9),
    (14, 14, 13, 11, 9), (15, 15, 14, 13, 11), (16, 16, 14, 13, 11), (17, 17, 16, 15, 14),
    (18, 18, 17, 16, 13), (19, 19, 18, 17, 14), (20, 20, 19, 16, 14), (21, 21, 20, 19, 16),
    (22, 22, 19, 18, 17), (23, 23, 22, 20, 18), (24, 24, 23, 21, 20), (25, 25, 24, 23, 22),
    (26, 26, 25, 24, 20), (27, 27, 26, 25, 22), (28, 28, 27, 24, 22), (29, 29, 28, 27, 25),
    (30, 30, 29, 26, 24), (31, 31, 30, 29, 28), (32, 32, 30, 26, 25), (33, 33, 32, 29, 27),
    (34, 34, 31, 30, 26), (35, 35, 34, 28, 27), (36, 36, 35, 29, 28), (37, 37, 36, 33, 31),
    (38, 38, 37, 33, 32), (39, 39, 38, 35, 32), (40, 40, 37, 36, 35)]

/-- `polys`: how far right each tap is. -/
def polys : List (Nat × Nat × Nat × Nat × Nat) :=
  taps.map fun (n, t0, t1, t2, t3) => (n, n - t0, n - t1, n - t2, n - t3)

/-- `get_lfsr_func`. -/
def getLfsrFunc (numBits : Nat) : Except Exc (Nat × Nat × Nat) := do
  assertThat (5 ≤ numBits) "max lba has to be at least > 5 bits for the LFSR implementation"
  match polys.lookup numBits with
  | none =>
      .error (.assertionError ("Missing polynomial coefficients for num_bits " ++ toString numBits))
  | some (_, p1, p2, p3) => .ok (p1, p2, p3)

/-- `__init__`. -/
def init (maxLba numBlocksPerIo initialState : Int) : Except Exc LBARandGenLFSR := do
  let maxLba := maxLba - numBlocksPerIo
  if numBlocksPerIo = 0 then
    .error (.zeroDivisionError "integer division or modulo by zero")
  else
    let maxValue := Int.fdiv maxLba numBlocksPerIo
    assertThat (initialState < maxValue) ("Invalid initial state value: " ++ toString initialState
      ++ ". Must be less than " ++ toString maxValue)
    assertThat (initialState ≠ 0) ("Invalid initial state value: " ++ toString initialState
      ++ ". Cannot be 0!!")
    let numBits := ((bin maxValue).drop 2).length
    let shifts ← getLfsrFunc numBits
    return {
      maxLba, numBlocksPerIo, initialState, maxValue, state := initialState, numBits, shifts,
      period := 0, complete := false }

/-- `reset`. -/
def reset (g : LBARandGenLFSR) : LBARandGenLFSR :=
  { g with state := g.initialState, period := 0, complete := false }

/-- One shift. -/
def shift (g : LBARandGenLFSR) : Int :=
  let (p1, p2, p3) := g.shifts
  let bit := Int.land
    (Int.xor (Int.xor (Int.xor g.state (g.state >>> p1)) (g.state >>> p2)) (g.state >>> p3)) 1
  Int.lor (g.state >>> 1) (bit <<< (g.numBits - 1))

/-- The function `get_lfsr_func` makes, in an interpreter with `depth` frames left. -/
def f : Nat → LBARandGenLFSR → Except Exc (Int × LBARandGenLFSR)
  | 0, _ => .error (.custom "RecursionError" "maximum recursion depth exceeded")
  | depth + 1, g =>
      let g := { g with state := g.shift, period := g.period + 1 }
      if g.state > g.maxValue then f depth g else .ok (g.state * g.numBlocksPerIo, g)

/-- `__next__`. -/
def next (depth : Nat) (g : LBARandGenLFSR) : Except Exc (Int × LBARandGenLFSR) :=
  if g.complete then
    .error (.custom "StopIteration" "")
  else if g.state = g.initialState ∧ g.period > 0 then
    .ok (0, { g with complete := true })
  else
    f depth g

/-- The next `k` values. -/
def nextN (depth : Nat) : Nat → LBARandGenLFSR → Except Exc (List Int × LBARandGenLFSR)
  | 0, g => .ok ([], g)
  | k + 1, g => do
      let (value, g) ← next depth g
      let (values, g) ← nextN depth k g
      return (value :: values, g)

/-- What a generator can become while it is used. -/
inductive Used (g : LBARandGenLFSR) : LBARandGenLFSR → Prop
  | new : Used g g
  | next {depth : Nat} {value : Int} {g₁ g₂ : LBARandGenLFSR} :
      Used g g₁ → g₁.next depth = .ok (value, g₂) → Used g g₂
  | reset {g₁ : LBARandGenLFSR} : Used g g₁ → Used g g₁.reset

end LBARandGenLFSR

end LoneNvme
