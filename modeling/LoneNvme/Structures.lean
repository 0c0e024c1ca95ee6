import LoneNvme.Lib.Python

/-!
# Queue entries

The two structures that cross the queues: the 64-byte submission entry (`Generic`,
the type `get_command` overlays on a slot) and the 16-byte completion entry
(`CQE`). Bit-fields are bit vectors of their declared width, so an assignment
truncates exactly where the packed structure does. `DPTR` keeps its PRP view.

A command class overlays its own names on the same 64 bytes; its fields are the
functions of `Generic` in the namespaces below, one namespace for each class that
a modelled function casts a command to.
-/

namespace LoneNvme

/-- The 64 bytes of a submission queue entry. -/
structure Generic where
  OPC : BitVec 8 := 0
  FUSE : BitVec 2 := 0
  RSVD_0 : BitVec 4 := 0
  PSDT : BitVec 2 := 0
  CID : BitVec 16 := 0
  NSID : BitVec 32 := 0
  DW2 : BitVec 32 := 0
  DW3 : BitVec 32 := 0
  MPTR : BitVec 64 := 0
  PRP1 : BitVec 64 := 0
  PRP2 : BitVec 64 := 0
  DW10 : BitVec 32 := 0
  DW11 : BitVec 32 := 0
  DW12 : BitVec 32 := 0
  DW13 : BitVec 32 := 0
  DW14 : BitVec 32 := 0
  DW15 : BitVec 32 := 0
  deriving DecidableEq, Repr, Inhabited

/-- The status half-word of a completion, phase bit included. -/
structure Sf where
  P : BitVec 1 := 0
  SC : BitVec 8 := 0
  SCT : BitVec 3 := 0
  CRD : BitVec 2 := 0
  M : BitVec 1 := 0
  DNR : BitVec 1 := 0
  deriving DecidableEq, Repr, Inhabited

/-- The 16 bytes of a completion queue entry. -/
structure CQE where
  CMD_SPEC : BitVec 32 := 0
  RSVD_0 : BitVec 32 := 0
  SQHD : BitVec 16 := 0
  SQID : BitVec 16 := 0
  CID : BitVec 16 := 0
  SF : Sf := {}
  deriving DecidableEq, Repr, Inhabited

namespace CQE

/-- `cqe.SF.P = p`. -/
def setP (cqe : CQE) (p : BitVec 1) : CQE := { cqe with SF := { cqe.SF with P := p } }

@[simp] theorem setP_P (cqe : CQE) (p : BitVec 1) : (cqe.setP p).SF.P = p := rfl
@[simp] theorem setP_SQHD (cqe : CQE) (p : BitVec 1) : (cqe.setP p).SQHD = cqe.SQHD := rfl
@[simp] theorem setP_SQID (cqe : CQE) (p : BitVec 1) : (cqe.setP p).SQID = cqe.SQID := rfl
@[simp] theorem setP_CID (cqe : CQE) (p : BitVec 1) : (cqe.setP p).CID = cqe.CID := rfl
@[simp] theorem setP_SC (cqe : CQE) (p : BitVec 1) : (cqe.setP p).SF.SC = cqe.SF.SC := rfl
@[simp] theorem setP_setP (cqe : CQE) (p q : BitVec 1) : (cqe.setP p).setP q = cqe.setP q := rfl

end CQE

/-- What a `c_uint32` cell keeps of the integer stored in it. -/
def u32 (v : Nat) : Nat := v % 2 ^ 32

theorem u32_of_lt {v : Nat} (h : v < 2 ^ 32) : u32 v = v := Nat.mod_eq_of_lt h

end LoneNvme
