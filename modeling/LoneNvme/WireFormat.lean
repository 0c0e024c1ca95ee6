import LoneNvme.PackedStructs
import LoneNvme.LogPages
import LoneNvme.Commands
import LoneNvme.Lib.Codec

/-!
# Queue entries as bytes

The 64 bytes of a submission entry and the 16 of a completion, laid out field by field.
Both structures fill their bytes, so an entry and its bytes are the same thing.

The entries of the queues are records here and bytes in the source, where a handler casts the
64 bytes to the class of its command. `views_agree` is why the two may be used for each other:
every field that a modelled function reads through a class has, in the bytes of any entry, the
value that the definition reads from the record.
-/

namespace LoneNvme

open Lib

namespace Generic

/-- The fields of every command, the data pointer through its PRP view, then the dwords. -/
def cls : RegisterClass where
  name := "Generic"
  fields := sqeCommon.dropLast ++ [⟨"PRP1", 8, none⟩, ⟨"PRP2", 8, none⟩, ⟨"DW10", 4, none⟩,
    ⟨"DW11", 4, none⟩, ⟨"DW12", 4, none⟩, ⟨"DW13", 4, none⟩, ⟨"DW14", 4, none⟩, ⟨"DW15", 4, none⟩]
  valid := by decide

theorem ownUnits : cls.OwnUnits := by decide

/-- The values of the fields, in the order of `_fields_`. -/
def values (g : Generic) : List Nat :=
  [g.OPC.toNat, g.FUSE.toNat, g.RSVD_0.toNat, g.PSDT.toNat, g.CID.toNat, g.NSID.toNat,
    g.DW2.toNat, g.DW3.toNat, g.MPTR.toNat, g.PRP1.toNat, g.PRP2.toNat, g.DW10.toNat,
    g.DW11.toNat, g.DW12.toNat, g.DW13.toNat, g.DW14.toNat, g.DW15.toNat]

def ofValues : List Nat → Generic
  | [opc, fuse, rsvd0, psdt, cid, nsid, dw2, dw3, mptr, prp1, prp2, dw10, dw11, dw12, dw13, dw14,
      dw15] =>
      { OPC := BitVec.ofNat 8 opc, FUSE := BitVec.ofNat 2 fuse, RSVD_0 := BitVec.ofNat 4 rsvd0
        PSDT := BitVec.ofNat 2 psdt, CID := BitVec.ofNat 16 cid, NSID := BitVec.ofNat 32 nsid
        DW2 := BitVec.ofNat 32 dw2, DW3 := BitVec.ofNat 32 dw3, MPTR := BitVec.ofNat 64 mptr
        PRP1 := BitVec.ofNat 64 prp1, PRP2 := BitVec.ofNat 64 prp2, DW10 := BitVec.ofNat 32 dw10
        DW11 := BitVec.ofNat 32 dw11, DW12 := BitVec.ofNat 32 dw12, DW13 := BitVec.ofNat 32 dw13
        DW14 := BitVec.ofNat 32 dw14, DW15 := BitVec.ofNat 32 dw15 }
  | _ => {}

theorem holds_values (g : Generic) : cls.Holds g.values := by
  unfold RegisterClass.Holds values
  repeat' first | exact List.Forall₂.nil | refine List.Forall₂.cons (BitVec.isLt _) ?_

theorem ofValues_values (g : Generic) : ofValues g.values = g := by
  unfold ofValues values
  simp only [BitVec.ofNat_toNat, BitVec.setWidth_eq]

theorem values_ofValues : ∀ {vs : List Nat}, vs.length = 17 → (ofValues vs).values = cls.stored vs
  | [_, _, _, _, _, _, _, _, _, _, _, _, _, _, _, _, _], _ => rfl

/-- **A submission entry and its 64 bytes.** -/
def codec : Codec Generic where
  size := 64
  encode g := cls.build g.values
  decode bs := ofValues (cls.fieldValues bs)
  length_encode g := RegisterClass.length_build ownUnits g.values
  decode_encode g := by
    rw [RegisterClass.fieldValues_build ownUnits g.holds_values, ofValues_values]
  encode_decode bs h := by
    have hholds := cls.holds_fieldValues bs
    rw [values_ofValues hholds.length_eq.symm, RegisterClass.stored_eq hholds,
      RegisterClass.build_fieldValues ownUnits (by decide) h]

/-- What a field of the entry reads in its bytes. -/
theorem get_encode (g : Generic) {k v : Nat} {p : Placed} (hp : cls.placed[k]? = some p)
    (hv : g.values[k]? = some v) : p.get (codec.encode g) = v := by
  have hvalues :=
    congrArg (fun vs => vs[k]?) (RegisterClass.fieldValues_build ownUnits g.holds_values)
  dsimp only [RegisterClass.fieldValues] at hvalues
  rw [List.getElem?_map, hp, hv] at hvalues
  exact Option.some.inj hvalues

end Generic

namespace CQE

/-- The fields of a completion, those of `SF` in its place. -/
def cls : RegisterClass where
  name := "CQE"
  fields := [⟨"CMD_SPEC", 4, none⟩, ⟨"RSVD_0", 4, none⟩, ⟨"SQHD", 4, some 16⟩, ⟨"SQID", 4, some 16⟩,
    ⟨"CID", 2, none⟩, ⟨"P", 2, some 1⟩, ⟨"SC", 2, some 8⟩, ⟨"SCT", 2, some 3⟩, ⟨"CRD", 2, some 2⟩,
    ⟨"M", 2, some 1⟩, ⟨"DNR", 2, some 1⟩]
  valid := by decide

theorem ownUnits : cls.OwnUnits := by decide

/-- The values of the fields, in the order of `_fields_`. -/
def values (cqe : CQE) : List Nat :=
  [cqe.CMD_SPEC.toNat, cqe.RSVD_0.toNat, cqe.SQHD.toNat, cqe.SQID.toNat, cqe.CID.toNat,
    cqe.SF.P.toNat, cqe.SF.SC.toNat, cqe.SF.SCT.toNat, cqe.SF.CRD.toNat, cqe.SF.M.toNat,
    cqe.SF.DNR.toNat]

def ofValues : List Nat → CQE
  | [cmdSpec, rsvd0, sqhd, sqid, cid, p, sc, sct, crd, m, dnr] =>
      { CMD_SPEC := BitVec.ofNat 32 cmdSpec, RSVD_0 := BitVec.ofNat 32 rsvd0
        SQHD := BitVec.ofNat 16 sqhd, SQID := BitVec.ofNat 16 sqid, CID := BitVec.ofNat 16 cid
        SF := { P := BitVec.ofNat 1 p, SC := BitVec.ofNat 8 sc, SCT := BitVec.ofNat 3 sct,
                CRD := BitVec.ofNat 2 crd, M := BitVec.ofNat 1 m, DNR := BitVec.ofNat 1 dnr } }
  | _ => {}

theorem holds_values (cqe : CQE) : cls.Holds cqe.values := by
  unfold RegisterClass.Holds values
  repeat' first | exact List.Forall₂.nil | refine List.Forall₂.cons (BitVec.isLt _) ?_

theorem ofValues_values (cqe : CQE) : ofValues cqe.values = cqe := by
  unfold ofValues values
  simp only [BitVec.ofNat_toNat, BitVec.setWidth_eq]

theorem values_ofValues : ∀ {vs : List Nat}, vs.length = 11 → (ofValues vs).values = cls.stored vs
  | [_, _, _, _, _, _, _, _, _, _, _], _ => rfl

/-- **A completion and its 16 bytes.** -/
def codec : Codec CQE where
  size := 16
  encode cqe := cls.build cqe.values
  decode bs := ofValues (cls.fieldValues bs)
  length_encode cqe := RegisterClass.length_build ownUnits cqe.values
  decode_encode cqe := by
    rw [RegisterClass.fieldValues_build ownUnits cqe.holds_values, ofValues_values]
  encode_decode bs h := by
    have hholds := cls.holds_fieldValues bs
    rw [values_ofValues hholds.length_eq.symm, RegisterClass.stored_eq hholds,
      RegisterClass.build_fieldValues ownUnits (by decide) h]

end CQE

/-! ## One entry under the names of many classes -/

namespace Placed

variable {p q r : Placed} {bs : List (BitVec 8)}

/-- A field inside another one reads part of its value. -/
theorem get_inside (hp : p.Fits) (hq : q.Fits) {low : Nat} (hlow : p.start = q.start + low)
    (hwidth : low + p.decl.width ≤ q.decl.width) :
    p.get bs = (q.get bs >>> low) % 2 ^ p.decl.width := by
  refine Nat.eq_of_testBit_eq fun i => ?_
  rw [testBit_get hp, Nat.testBit_mod_two_pow, Nat.testBit_shiftRight, testBit_get hq, hlow,
    Nat.add_assoc]
  by_cases hi : i < p.decl.width
  · rw [decide_eq_true hi, decide_eq_true (show low + i < q.decl.width by omega), Bool.true_and,
      Bool.true_and]
  · rw [decide_eq_false hi, Bool.false_and, Bool.false_and]

/-- A field over two others reads both. -/
theorem get_over (hp : p.Fits) (hq : q.Fits) (hr : r.Fits) (hlow : p.start = q.start)
    (hhigh : r.start = q.start + q.decl.width) (hwidth : p.decl.width = q.decl.width + r.decl.width) :
    p.get bs = r.get bs <<< q.decl.width ||| q.get bs := by
  refine Nat.eq_of_testBit_eq fun i => ?_
  rw [testBit_get hp, Nat.testBit_or, Nat.testBit_shiftLeft, testBit_get hq, testBit_get hr, hlow,
    hhigh, hwidth]
  by_cases hi : i < q.decl.width
  · rw [decide_eq_true hi, decide_eq_true (show i < q.decl.width + r.decl.width by omega),
      decide_eq_false (show ¬ q.decl.width ≤ i by omega), Bool.false_and, Bool.false_or]
  · rw [decide_eq_false hi, decide_eq_true (show q.decl.width ≤ i by omega), Bool.true_and,
      Bool.false_and, Bool.or_false, Nat.add_assoc,
      show q.decl.width + (i - q.decl.width) = i by omega]
    by_cases hin : i - q.decl.width < r.decl.width
    · rw [decide_eq_true hin, decide_eq_true (by omega)]
    · rw [decide_eq_false hin, decide_eq_false (by omega)]

end Placed

/-- `Identify`. -/
def Identify.cls : RegisterClass where
  name := "Identify"
  fields := sqeCommon ++ [⟨"CNS", 4, some 8⟩, ⟨"RSVD_0", 4, some 8⟩, ⟨"CNTID", 4, some 16⟩,
    ⟨"CNSSPEC", 4, some 16⟩, ⟨"RSVD_1", 4, some 8⟩, ⟨"CSI", 4, some 8⟩, ⟨"DW12", 4, none⟩,
    ⟨"DW13", 4, none⟩, ⟨"UUID", 4, some 7⟩, ⟨"RSVD_2", 4, some 25⟩, ⟨"DW15", 4, none⟩]
  valid := by decide

/-- `CreateIOCompletionQueue`. -/
def CreateIOCompletionQueue.cls : RegisterClass where
  name := "CreateIOCompletionQueue"
  fields := sqeCommon ++ [⟨"QID", 4, some 16⟩, ⟨"QSIZE", 4, some 16⟩, ⟨"PC", 4, some 1⟩,
    ⟨"IEN", 4, some 1⟩, ⟨"RSVD_0", 4, some 14⟩, ⟨"IV", 4, some 16⟩, ⟨"DW12", 4, none⟩,
    ⟨"DW13", 4, none⟩, ⟨"DW14", 4, none⟩, ⟨"DW15", 4, none⟩]
  valid := by decide

/-- `CreateIOSubmissionQueue`. -/
def CreateIOSubmissionQueue.cls : RegisterClass where
  name := "CreateIOSubmissionQueue"
  fields := sqeCommon ++ [⟨"QID", 4, some 16⟩, ⟨"QSIZE", 4, some 16⟩, ⟨"PC", 4, some 1⟩,
    ⟨"QPRIO", 4, some 2⟩, ⟨"RSVD_0", 4, some 13⟩, ⟨"CQID", 4, some 16⟩, ⟨"NVMSETID", 4, some 16⟩,
    ⟨"RSVD_2", 4, some 16⟩, ⟨"DW13", 4, none⟩, ⟨"DW14", 4, none⟩, ⟨"DW15", 4, none⟩]
  valid := by decide

/-- `DeleteIOCompletionQueue` and `DeleteIOSubmissionQueue`, which differ in their opcode. -/
def deleteIOQueueFields : List FieldDecl :=
  sqeCommon ++ [⟨"QID", 4, some 16⟩, ⟨"RSVD_0", 4, some 16⟩, ⟨"DW11", 4, none⟩, ⟨"DW12", 4, none⟩,
    ⟨"DW13", 4, none⟩, ⟨"DW14", 4, none⟩, ⟨"DW15", 4, none⟩]

def DeleteIOCompletionQueue.cls : RegisterClass where
  name := "DeleteIOCompletionQueue"
  fields := deleteIOQueueFields
  valid := by decide

def DeleteIOSubmissionQueue.cls : RegisterClass where
  name := "DeleteIOSubmissionQueue"
  fields := deleteIOQueueFields
  valid := by decide

/-- `Write`; the bits of `DSM` in its place. -/
def Write.cls : RegisterClass where
  name := "Write"
  fields := sqeCommon ++ [⟨"SLBA", 8, none⟩, ⟨"NLB", 4, some 16⟩, ⟨"RSVD_0", 4, some 4⟩,
    ⟨"DTYPE", 4, some 4⟩, ⟨"STC", 4, some 1⟩, ⟨"RSVD_1", 4, some 1⟩, ⟨"PRINFO", 4, some 4⟩,
    ⟨"FUA", 4, some 1⟩, ⟨"LR", 4, some 1⟩, ⟨"AF", 1, some 4⟩, ⟨"AL", 1, some 2⟩, ⟨"SR", 1, some 1⟩,
    ⟨"I", 1, some 1⟩, ⟨"RSVD_2", 1, none⟩, ⟨"DSPEC", 2, none⟩, ⟨"ELBST_EILBRT", 4, none⟩,
    ⟨"LBAT", 4, some 16⟩, ⟨"LBATM", 4, some 16⟩]
  valid := by decide

/-- `Read`; of the two fields called `RSVD_1` the attribute is the later. -/
def Read.cls : RegisterClass where
  name := "Read"
  fields := sqeCommon ++ [⟨"SLBA", 8, none⟩, ⟨"NLB", 4, some 16⟩, ⟨"RSVD_0", 4, some 8⟩,
    ⟨"STC", 4, some 1⟩, ⟨"RSVD_1", 4, some 1⟩, ⟨"PRINFO", 4, some 4⟩, ⟨"FUA", 4, some 1⟩,
    ⟨"LR", 4, some 1⟩, ⟨"AF", 1, some 4⟩, ⟨"AL", 1, some 2⟩, ⟨"SR", 1, some 1⟩, ⟨"I", 1, some 1⟩,
    ⟨"RSVD_1", 1, none⟩, ⟨"RSVD_2", 2, none⟩, ⟨"ELBST_EILBRT", 4, none⟩, ⟨"ELBAT", 4, some 16⟩,
    ⟨"ELBATM", 4, some 16⟩]
  valid := by decide

/-- A field of a class that a command is cast to, and what of the entry it stands for. -/
structure View where
  cls : RegisterClass
  name : String
  value : Generic → Nat

/-- The field reads just that, in the bytes of any entry. -/
def View.Agrees (v : View) : Prop :=
  ∃ p, v.cls.attr v.name = some p ∧ ∀ g, p.get (Generic.codec.encode g) = v.value g

/-- A field that is `w` bits of one field of the entry. -/
theorem View.agrees_inside {v : View} {p q : Placed} {k low n w : Nat} {f : Generic → BitVec n}
    (hunits : v.cls.OwnUnits) (hp : v.cls.attr v.name = some p)
    (hq : Generic.cls.placed[k]? = some q)
    (hf : ∀ g, (Generic.values g)[k]? = some (f g).toNat)
    (hv : ∀ g, v.value g = ((f g).extractLsb' low w).toNat) (hlow : p.start = q.start + low)
    (hw : p.decl.width = w) (hwidth : low + w ≤ q.decl.width) : v.Agrees := by
  have hpmem := (RegsStructAccess.mem_placed_of_attr hp).1
  have hqmem := List.mem_of_getElem? hq
  refine ⟨p, hp, fun g => ?_⟩
  rw [Placed.get_inside (RegisterClass.between_placed hunits hpmem).fits
    (RegisterClass.between_placed Generic.ownUnits hqmem).fits hlow (by rw [hw]; exact hwidth),
    Generic.get_encode g hq (hf g), hv g, BitVec.extractLsb'_toNat, hw]

/-- A field of 64 bits over `DW10` and `DW11`. -/
theorem View.agrees_over {v : View} {p : Placed} (hunits : v.cls.OwnUnits)
    (hp : v.cls.attr v.name = some p) (hv : ∀ g, v.value g = (g.DW11 ++ g.DW10).toNat)
    (hlow : p.start = 320) (hw : p.decl.width = 64) : v.Agrees := by
  have hpmem := (RegsStructAccess.mem_placed_of_attr hp).1
  obtain ⟨q, hq⟩ : ∃ q, Generic.cls.placed[11]? = some q := ⟨_, rfl⟩
  obtain ⟨r, hr⟩ : ∃ r, Generic.cls.placed[12]? = some r := ⟨_, rfl⟩
  have hqmem := List.mem_of_getElem? hq
  have hrmem := List.mem_of_getElem? hr
  have hq' := hq
  have hr' := hr
  cases hq'
  cases hr'
  refine ⟨p, hp, fun g => ?_⟩
  rw [Placed.get_over (RegisterClass.between_placed hunits hpmem).fits
    (RegisterClass.between_placed Generic.ownUnits hqmem).fits
    (RegisterClass.between_placed Generic.ownUnits hrmem).fits hlow rfl hw,
    Generic.get_encode g hq rfl, Generic.get_encode g hr rfl, hv g, BitVec.toNat_append]
  rfl

/-- Every field that a handler of the simulator reads through a cast. -/
def views : List View :=
  [⟨Identify.cls, "CNS", fun c => (Identify.CNS c).toNat⟩,
    ⟨CreateIOCompletionQueue.cls, "QID", fun c => (CreateIOCompletionQueue.QID c).toNat⟩,
    ⟨CreateIOCompletionQueue.cls, "QSIZE", fun c => (CreateIOCompletionQueue.QSIZE c).toNat⟩,
    ⟨CreateIOCompletionQueue.cls, "PC", fun c => (CreateIOCompletionQueue.PC c).toNat⟩,
    ⟨CreateIOCompletionQueue.cls, "IEN", fun c => (CreateIOCompletionQueue.IEN c).toNat⟩,
    ⟨CreateIOCompletionQueue.cls, "IV", fun c => (CreateIOCompletionQueue.IV c).toNat⟩,
    ⟨CreateIOSubmissionQueue.cls, "QID", fun c => (CreateIOSubmissionQueue.QID c).toNat⟩,
    ⟨CreateIOSubmissionQueue.cls, "QSIZE", fun c => (CreateIOSubmissionQueue.QSIZE c).toNat⟩,
    ⟨CreateIOSubmissionQueue.cls, "CQID", fun c => (CreateIOSubmissionQueue.CQID c).toNat⟩,
    ⟨DeleteIOCompletionQueue.cls, "QID", fun c => (DeleteIOCompletionQueue.QID c).toNat⟩,
    ⟨DeleteIOSubmissionQueue.cls, "QID", fun c => (DeleteIOSubmissionQueue.QID c).toNat⟩,
    ⟨GetLogPage.cls, "LID", fun c => (GetLogPage.LID c).toNat⟩,
    ⟨GetLogPage.cls, "OT", fun c => (GetLogPage.OT c).toNat⟩,
    ⟨Write.cls, "SLBA", fun c => (Write.SLBA c).toNat⟩,
    ⟨Write.cls, "NLB", fun c => (Write.NLB c).toNat⟩,
    ⟨Read.cls, "SLBA", fun c => (Read.SLBA c).toNat⟩,
    ⟨Read.cls, "NLB", fun c => (Read.NLB c).toNat⟩]

/-- **A cast reads the bits of the entry** that the functions of its class name. -/
theorem views_agree : ∀ v ∈ views, v.Agrees := by
  have hdw10 : ∀ g : Generic, g.values[11]? = some g.DW10.toNat := fun _ => rfl
  have hdw11 : ∀ g : Generic, g.values[12]? = some g.DW11.toNat := fun _ => rfl
  have hdw12 : ∀ g : Generic, g.values[13]? = some g.DW12.toNat := fun _ => rfl
  have hdw14 : ∀ g : Generic, g.values[15]? = some g.DW14.toNat := fun _ => rfl
  simp only [views, List.forall_mem_cons]
  refine ⟨?_, ?_, ?_, ?_, ?_, ?_, ?_, ?_, ?_, ?_, ?_, ?_, ?_, ?_, ?_, ?_, ?_, by simp⟩
  · exact View.agrees_inside (by decide) rfl rfl hdw10 (fun _ => rfl) rfl rfl (by decide)
  · exact View.agrees_inside (by decide) rfl rfl hdw10 (fun _ => rfl) rfl rfl (by decide)
  · exact View.agrees_inside (by decide) rfl rfl hdw10 (fun _ => rfl) rfl rfl (by decide)
  · exact View.agrees_inside (by decide) rfl rfl hdw11 (fun _ => rfl) rfl rfl (by decide)
  · exact View.agrees_inside (by decide) rfl rfl hdw11 (fun _ => rfl) rfl rfl (by decide)
  · exact View.agrees_inside (by decide) rfl rfl hdw11 (fun _ => rfl) rfl rfl (by decide)
  · exact View.agrees_inside (by decide) rfl rfl hdw10 (fun _ => rfl) rfl rfl (by decide)
  · exact View.agrees_inside (by decide) rfl rfl hdw10 (fun _ => rfl) rfl rfl (by decide)
  · exact View.agrees_inside (by decide) rfl rfl hdw11 (fun _ => rfl) rfl rfl (by decide)
  · exact View.agrees_inside (by decide) rfl rfl hdw10 (fun _ => rfl) rfl rfl (by decide)
  · exact View.agrees_inside (by decide) rfl rfl hdw10 (fun _ => rfl) rfl rfl (by decide)
  · exact View.agrees_inside (by decide) rfl rfl hdw10 (fun _ => rfl) rfl rfl (by decide)
  · exact View.agrees_inside (by decide) rfl rfl hdw14 (fun _ => rfl) rfl rfl (by decide)
  · exact View.agrees_over (by decide) rfl (fun _ => rfl) rfl rfl
  · exact View.agrees_inside (by decide) rfl rfl hdw12 (fun _ => rfl) rfl rfl (by decide)
  · exact View.agrees_over (by decide) rfl (fun _ => rfl) rfl rfl
  · exact View.agrees_inside (by decide) rfl rfl hdw12 (fun _ => rfl) rfl rfl (by decide)

end LoneNvme
