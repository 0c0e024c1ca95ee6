import LoneNvme.Registers

/-!
# Asking for a log page

`GetLogPageFactory` makes a command class for a page, whose defaults ask for the whole of it:
the number of dwords, less one, in a lower and an upper half. The default for the upper half
is called `NUMDH`, but the field is `NUMDU`, so it becomes an attribute that is no field.

`requestsWholePage_iff` says for which pages that matters: those whose number of dwords, less
one, fits the lower half. They are requested whole; of a larger one only the lower half of the
number arrives at the controller.
-/

namespace LoneNvme

open Lib

/-- `SQECommon._fields_`; the data pointer as the bytes it has. -/
def sqeCommon : List FieldDecl :=
  [⟨"OPC", 4, some 8⟩, ⟨"FUSE", 4, some 2⟩, ⟨"RSVD_0", 4, some 4⟩, ⟨"PSDT", 4, some 2⟩,
    ⟨"CID", 4, some 16⟩, ⟨"NSID", 4, none⟩, ⟨"DW2", 4, none⟩, ⟨"DW3", 4, none⟩, ⟨"MPTR", 8, none⟩,
    ⟨"DPTR", 16, none⟩]

namespace GetLogPage

/-- `GetLogPage`: the fields of every command, then its own. -/
def cls : RegisterClass where
  name := "GetLogPage"
  fields := sqeCommon ++ [⟨"LID", 4, some 8⟩, ⟨"LSP", 4, some 7⟩, ⟨"RAE", 4, some 1⟩,
    ⟨"NUMDL", 4, some 16⟩, ⟨"NUMDU", 4, some 16⟩, ⟨"LID_SPEC", 4, some 16⟩, ⟨"LPOL", 4, none⟩,
    ⟨"LPOU", 4, none⟩, ⟨"UUID_IDX", 4, some 7⟩, ⟨"RSVD_0", 4, some 16⟩, ⟨"OT", 4, some 1⟩,
    ⟨"CSI", 4, some 8⟩, ⟨"DW15", 4, none⟩]
  valid := by decide

theorem ownUnits : cls.OwnUnits := by decide

/-- `_defaults_`. -/
def defaults : Dict String Int := Dict.empty.set "OPC" 0x02

end GetLogPage

/-- A class that `GetLogPageFactory` makes: its `_defaults_`, and `sizeof(data_in_type)`. -/
structure GetLogPageClass where
  defaults : Dict String Int
  dataInSize : Nat

/-- An object of it: the structure, and `data_in`. -/
structure LogPageCommand where
  obj : RegObject
  dataIn : List (BitVec 8)

namespace GetLogPageClass

open RegsStructAccess

/-- `GetLogPageFactory`. `& 0xFFFF` and `>> 16` are remainder and quotient. -/
def getLogPageFactory (lid : Int) (dataInSize : Nat) : GetLogPageClass :=
  let numDw : Int := (dataInSize / 4 : Nat) - 1
  { defaults := ((GetLogPage.defaults.set "LID" lid).set "NUMDL" (numDw % 0x10000)).set "NUMDH"
      (numDw / 0x10000)
    dataInSize }

/-- What `ctypes` does with keyword arguments: it sets each as an attribute. -/
def assign (obj : RegObject) (values : List (String × Int)) : RegObject :=
  values.foldl (fun obj e => objectSetattr GetLogPage.cls obj e.1 e.2) obj

/-- `SQECommon.__init__`: the defaults, then what the caller passes. -/
def new (cls : GetLogPageClass) (kwargs : List (String × Int)) : LogPageCommand where
  obj := assign (assign { buffer := List.replicate GetLogPage.cls.size 0 } cls.defaults.entries) kwargs
  dataIn := List.replicate cls.dataInSize 0

/-- The size that `alloc` reserves: `len(command.data_in)`. -/
def allocSize (command : LogPageCommand) : Nat := command.dataIn.length

/-- How many bytes the simulator transfers, from the bytes of the command. -/
def numBytes (buffer : List (BitVec 8)) : Except Exc Nat := do
  let numdu ← objectGetattribute GetLogPage.cls { buffer } "NUMDU"
  let numdl ← objectGetattribute GetLogPage.cls { buffer } "NUMDL"
  return ((numdu.toNat <<< 16 ||| numdl.toNat) + 1) * 4

/-- The command asks for the size of the page, and memory of that size is reserved for it. -/
structure RequestsWholePage (command : LogPageCommand) (size : Nat) : Prop where
  numBytes : numBytes command.obj.buffer = .ok size
  alloc : allocSize command = size

/-! ## The fields of a new command -/

/-- The lower half of the dword count, in the unit of `LID`. -/
def numdl : Placed := ⟨⟨"NUMDL", 4, some 16⟩, 40, 16⟩

/-- The upper half, in the next unit. -/
def numdu : Placed := ⟨⟨"NUMDU", 4, some 16⟩, 44, 0⟩

theorem attr_numdl : GetLogPage.cls.attr "NUMDL" = some numdl := rfl

theorem attr_numdu : GetLogPage.cls.attr "NUMDU" = some numdu := rfl

/-- The name of the default for the upper half is no field. -/
theorem attr_numdh : GetLogPage.cls.attr "NUMDH" = none := rfl

section

variable {obj : RegObject} {values : List (String × Int)} {name : String} {p : Placed}

theorem length_assign (hlen : obj.buffer.length = GetLogPage.cls.size)
    (values : List (String × Int)) : (assign obj values).buffer.length = GetLogPage.cls.size := by
  induction values generalizing obj with
  | nil => exact hlen
  | cons e rest ih => exact ih (length_buffer_objectSetattr GetLogPage.ownUnits hlen e.1 e.2)

/-- A field that no value names stays as it was. -/
theorem get_assign_other (hlen : obj.buffer.length = GetLogPage.cls.size)
    (hp : GetLogPage.cls.attr name = some p) (hvalues : ∀ e ∈ values, name ≠ e.1) :
    p.get (assign obj values).buffer = p.get obj.buffer := by
  induction values generalizing obj with
  | nil => rfl
  | cons e rest ih =>
      have hrest : ∀ e' ∈ rest, name ≠ e'.1 := fun e' he' => hvalues e' (List.mem_cons_of_mem e he')
      calc p.get (assign obj (e :: rest)).buffer
          = p.get (objectSetattr GetLogPage.cls obj e.1 e.2).buffer :=
            ih (length_buffer_objectSetattr GetLogPage.ownUnits hlen e.1 e.2) hrest
        _ = p.get obj.buffer :=
            get_objectSetattr_other GetLogPage.ownUnits hlen hp (hvalues e List.mem_cons_self) e.2

end

section

variable (lid : Int) (dataInSize : Nat)

/-- The count that the factory splits: the dwords of the page, less one. -/
def numDw (dataInSize : Nat) : Int := (dataInSize / 4 : Nat) - 1

theorem entries_defaults : (getLogPageFactory lid dataInSize).defaults.entries
    = [("OPC", 0x02), ("LID", lid), ("NUMDL", numDw dataInSize % 0x10000),
      ("NUMDH", numDw dataInSize / 0x10000)] := rfl

variable {lid dataInSize} {kwargs : List (String × Int)}

/-- **What the defaults leave in the command**: the lower half of the count, and zero above it. -/
theorem get_new (hl : ∀ e ∈ kwargs, "NUMDL" ≠ e.1) (hu : ∀ e ∈ kwargs, "NUMDU" ≠ e.1) :
    numdl.get (new (getLogPageFactory lid dataInSize) kwargs).obj.buffer
        = (numDw dataInSize % 0x10000).toNat
      ∧ numdu.get (new (getLogPageFactory lid dataInSize) kwargs).obj.buffer = 0 := by
  have hzero : ({ buffer := List.replicate GetLogPage.cls.size 0 } : RegObject).buffer.length
      = GetLogPage.cls.size := List.length_replicate
  have hlen := length_assign hzero (getLogPageFactory lid dataInSize).defaults.entries
  unfold new
  constructor
  · rw [get_assign_other hlen attr_numdl hl, entries_defaults]
    -- the two values before it go to other fields, the one after it to no field
    have hbefore := length_assign hzero [("OPC", 0x02), ("LID", lid)]
    calc numdl.get (assign _ [("OPC", 0x02), ("LID", lid), ("NUMDL", numDw dataInSize % 0x10000),
            ("NUMDH", numDw dataInSize / 0x10000)]).buffer
        = numdl.get (objectSetattr GetLogPage.cls
            (objectSetattr GetLogPage.cls (assign _ [("OPC", 0x02), ("LID", lid)]) "NUMDL"
              (numDw dataInSize % 0x10000)) "NUMDH" (numDw dataInSize / 0x10000)).buffer := rfl
      _ = numdl.get (numdl.set (assign _ [("OPC", 0x02), ("LID", lid)]).buffer
            (numDw dataInSize % 0x10000)) := by
          rw [buffer_objectSetattr_none attr_numdh, buffer_objectSetattr attr_numdl]
      _ = (numDw dataInSize % 0x10000 % 2 ^ 16).toNat :=
          get_set_self GetLogPage.ownUnits attr_numdl hbefore _
      _ = (numDw dataInSize % 0x10000).toNat := by omega
  · rw [get_assign_other hlen attr_numdu hu, entries_defaults,
      get_assign_other hzero attr_numdu (by simp)]
    rfl

/-- The size that a device decodes: of the count, only the lower half arrived. -/
theorem numBytes_new (hl : ∀ e ∈ kwargs, "NUMDL" ≠ e.1) (hu : ∀ e ∈ kwargs, "NUMDU" ≠ e.1) :
    numBytes (new (getLogPageFactory lid dataInSize) kwargs).obj.buffer
      = .ok (((numDw dataInSize % 0x10000).toNat + 1) * 4) := by
  obtain ⟨hnumdl, hnumdu⟩ := @get_new lid dataInSize kwargs hl hu
  unfold numBytes objectGetattribute
  rw [attr_numdu, attr_numdl]
  dsimp only
  rw [hnumdl, hnumdu]
  show Except.ok (((((0 : Nat) : Int).toNat <<< 16
    ||| ((numDw dataInSize % 0x10000).toNat : Int).toNat) + 1) * 4) = _
  rw [Int.toNat_natCast, Int.toNat_natCast, Nat.zero_shiftLeft, Nat.zero_or]

end

/--
**A command asks for the whole page exactly if the count fits the lower half**, whatever its
caller sets besides the count.

The upper half is stored under a name that is no field of the command. Python takes it as an
attribute of the object, and the field stays 0.
-/
theorem requestsWholePage_iff (lid : Int) {size : Nat} (hdvd : 4 ∣ size) (hpos : 0 < size)
    {kwargs : List (String × Int)} (hl : ∀ e ∈ kwargs, "NUMDL" ≠ e.1)
    (hu : ∀ e ∈ kwargs, "NUMDU" ≠ e.1) :
    RequestsWholePage (new (getLogPageFactory lid size) kwargs) size ↔ size ≤ 0x40000 := by
  have hbytes := @numBytes_new lid size kwargs hl hu
  have hcount : ((numDw size % 0x10000).toNat + 1) * 4 = size ↔ size ≤ 0x40000 := by
    unfold numDw
    omega
  constructor
  · rintro ⟨hwhole, -⟩
    rw [hbytes] at hwhole
    exact hcount.mp (Except.ok.inj hwhole)
  · intro hle
    refine ⟨?_, List.length_replicate⟩
    rw [hbytes, hcount.mpr hle]

theorem requestsWholePage_errorInformation :
    RequestsWholePage (new (getLogPageFactory 0x01 16384) [("LSP", 1)]) 16384 :=
  (requestsWholePage_iff 0x01 (by decide) (by decide) (by simp) (by simp)).mpr (by decide)

/-- The telemetry page has 513 blocks of 512 bytes; the command asks for one of them. -/
theorem not_requestsWholePage_telemetry :
    (4 ∣ 262656 ∧ 262656 ≤ 2 ^ 34)
      ∧ numBytes (new (getLogPageFactory 0x07 262656) []).obj.buffer = .ok 512
      ∧ ¬ RequestsWholePage (new (getLogPageFactory 0x07 262656) []) 262656 := by
  have hbytes : numBytes (new (getLogPageFactory 0x07 262656) []).obj.buffer = .ok 512 :=
    numBytes_new (by simp) (by simp)
  refine ⟨by decide, hbytes, fun h => ?_⟩
  have hwhole := h.numBytes
  rw [hbytes] at hwhole
  exact absurd (Except.ok.inj hwhole) (by decide)

end GetLogPageClass

end LoneNvme
