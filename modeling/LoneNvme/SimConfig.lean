import LoneNvme.Features
import LoneNvme.IdentifyNamespaces
import LoneNvme.Session

/-!
# The simulator's configuration

`GenericNVMeNVSimConfig` prepares what the controller answers to identify commands. The
data of a namespace has its size and one of two formats, and the list of namespaces counts
them from 1. A host finds in the bytes what the simulator has put there.

`new` of each structure assigns to its fields by name, as the source does, and `init_spec`
collects what the host will read. `Configured` is what stays of it while commands are handled:
no handler changes the identify data.
-/

namespace LoneNvme

open Lib

/-! ## Structures in structures -/

/-- A scalar as a field of its own. -/
def Placed.whole (offset size : Nat) : Placed := ⟨⟨"", size, none⟩, offset, 0⟩

theorem Placed.fits_whole (offset size : Nat) : (Placed.whole offset size).Fits :=
  ⟨Nat.le_of_eq (Nat.zero_add (8 * size)), fun _ => rfl⟩

theorem Placed.between_whole {offset size n : Nat} (h : offset + size ≤ n) :
    (Placed.whole offset size).Between 0 n :=
  ⟨fits_whole offset size, Nat.zero_le _, h⟩

/-- What is read as a scalar is the field. -/
theorem Placed.get_whole (offset size : Nat) (bs : List (BitVec 8)) :
    (Placed.whole offset size).get bs = scalar bs offset size := by
  have hlt := Mem.ofLE_lt ((bs.drop offset).take size)
  have hle : 256 ^ ((bs.drop offset).take size).length ≤ 2 ^ (8 * size) := by
    rw [Nat.pow_mul]
    exact Nat.pow_le_pow_right (by decide) (by rw [List.length_take]; exact Nat.min_le_left _ _)
  show (loadUnit bs offset size).toNat = _
  rw [loadUnit, BitVec.toNat_ofNat, Nat.mod_eq_of_lt (Nat.lt_of_lt_of_le hlt hle)]
  rfl

/-- Bits of a scalar. -/
theorem Placed.get_scalar {p : Placed} (hp : p.Fits) {offset size low : Nat}
    (hstart : p.start = 8 * offset + low) (hwidth : low + p.decl.width ≤ 8 * size)
    (bs : List (BitVec 8)) :
    p.get bs = scalar bs offset size / 2 ^ low % 2 ^ p.decl.width := by
  rw [@Placed.get_inside p (Placed.whole offset size) bs hp (fits_whole offset size) low hstart
    hwidth, Placed.get_whole, Nat.shiftRight_eq_div_pow]

/-- Assign to fields that may lie in different structures of one buffer. -/
def setFields (values : List (Placed × Int)) (bs : List (BitVec 8)) : List (BitVec 8) :=
  values.foldl (fun bs e => e.1.set bs e.2) bs

section

variable {n : Nat} {values : List (Placed × Int)} {bs : List (BitVec 8)} {p : Placed}

theorem length_setFields (hvalues : ∀ e ∈ values, e.1.Between 0 n) (hlen : bs.length = n) :
    (setFields values bs).length = n := by
  induction values generalizing bs with
  | nil => exact hlen
  | cons e values ih =>
      exact ih (fun e' he' => hvalues e' (List.mem_cons_of_mem _ he'))
        (Placed.length_set (hvalues e List.mem_cons_self) hlen e.2)

theorem get_setFields_apart (hvalues : ∀ e ∈ values, e.1.Between 0 n) (hp : p.Between 0 n)
    (hapart : ∀ e ∈ values, Placed.Apart e.1 p) (hlen : bs.length = n) :
    p.get (setFields values bs) = p.get bs := by
  induction values generalizing bs with
  | nil => rfl
  | cons e values ih =>
      have he := hvalues e List.mem_cons_self
      have hrest := @ih (e.1.set bs e.2) (fun e' he' => hvalues e' (List.mem_cons_of_mem _ he'))
        (fun e' he' => hapart e' (List.mem_cons_of_mem _ he')) (Placed.length_set he hlen e.2)
      rw [setFields, List.foldl_cons]
      rw [setFields] at hrest
      rw [hrest, Placed.get_set_apart he hp (hapart e List.mem_cons_self) hlen]

/-- **Each of several fields holds what was assigned to it**, cut to its width. -/
theorem get_setFields (hvalues : ∀ e ∈ values, e.1.Between 0 n)
    (hpair : values.Pairwise fun e e' => Placed.Apart e.1 e'.1) (hlen : bs.length = n) {v : Int}
    (hmem : (p, v) ∈ values) : p.get (setFields values bs) = (v % 2 ^ p.decl.width).toNat := by
  induction values generalizing bs with
  | nil => exact absurd hmem (by simp)
  | cons e values ih =>
      obtain ⟨hapart, hpair'⟩ := List.pairwise_cons.mp hpair
      have he := hvalues e List.mem_cons_self
      have hvalues' : ∀ e' ∈ values, e'.1.Between 0 n := fun e' he' =>
        hvalues e' (List.mem_cons_of_mem _ he')
      have hset := Placed.length_set he hlen e.2
      rcases List.mem_cons.mp hmem with heq | hrest
      · subst heq
        have hlater := @get_setFields_apart n values (p.set bs v) p hvalues' he
          (fun e' he' => Std.Symm.symm _ _ (hapart e' he')) hset
        rw [setFields, List.foldl_cons]
        rw [setFields] at hlater
        rw [hlater, p.set_eq he.fits, p.get_eq he.fits]
        exact BitField.get_set_self (by rw [hlen]; exact he.upper) v
      · exact ih hvalues' hpair' hset hrest

end

/-- Field `name` of element `i` of an array of structures. -/
def RegisterClass.elemAttr (cls elem : RegisterClass) (array : String) (i : Nat) (name : String) :
    Option Placed :=
  match cls.attr array, elem.attr name with
  | some a, some p => some (p.shift (a.offset + elem.size * i))
  | _, _ => none

/-! ## The data of a namespace -/

/-- `IdentifyNamespaceData.LBAFormat`. -/
def LBAFormat.cls : RegisterClass where
  name := "LBAFormat"
  fields := [⟨"MS", 4, some 16⟩, ⟨"LBADS", 4, some 8⟩, ⟨"RP", 4, some 2⟩, ⟨"RSVD", 4, some 6⟩]
  valid := by decide

namespace IdentifyNamespaceData

def cls : RegisterClass where
  name := "IdentifyNamespaceData"
  fields := [⟨"NSZE", 8, none⟩, ⟨"NCAP", 8, none⟩, ⟨"NUSE", 8, none⟩, ⟨"NSFEAT", 1, none⟩,
    ⟨"NLBAF", 1, none⟩, ⟨"FLBAS", 1, none⟩, ⟨"MC", 1, none⟩, ⟨"DPC", 1, none⟩, ⟨"DPS", 1, none⟩,
    ⟨"NMIC", 1, none⟩, ⟨"RESCAP", 1, none⟩, ⟨"FPI", 1, none⟩, ⟨"DLFEAT", 1, none⟩,
    ⟨"NAWUN", 2, none⟩, ⟨"RSVD_0", 92, none⟩, ⟨"LBAF_TBL", 64, none⟩, ⟨"RSVD_1", 3904, none⟩]
  valid := by decide

/-- What `init_namespaces` assigns to the formats: number 0 for 512 bytes, 1 for 4096. -/
def formats : List (Placed × Int) :=
  [(0, "MS", 0), (0, "LBADS", 9), (0, "RP", 0), (1, "MS", 0), (1, "LBADS", 12), (1, "RP", 0)].filterMap
    fun e => (cls.elemAttr LBAFormat.cls "LBAF_TBL" e.1 e.2.1).map fun p => (p, e.2.2)

/-- What `init_namespaces` assigns to the other fields. -/
def values (numLbas blockSize : Nat) : List (String × Int) :=
  [("NSZE", numLbas), ("NCAP", numLbas), ("NUSE", 0), ("NSFEAT", 0), ("NLBAF", 2),
    ("FLBAS", if blockSize = 512 then 0 else 1), ("MC", 0), ("DPC", 0), ("DPS", 0), ("NMIC", 0),
    ("RESCAP", 0), ("FPI", 0), ("DLFEAT", 0), ("NAWUN", 0)]

/-- The data of a namespace. -/
def new (numLbas blockSize : Nat) : List (BitVec 8) :=
  setFields formats
    (cls.assign { buffer := List.replicate cls.size 0 } (values numLbas blockSize)).buffer

theorem size_cls : cls.size = 4096 := by decide

theorem ownUnits : cls.OwnUnits := by decide

theorem formats_between : ∀ e ∈ formats, e.1.Between 0 cls.size := by
  have hall : ∀ e ∈ formats, e.1.Fits ∧ e.1.offset + e.1.decl.size ≤ cls.size := by decide
  exact fun e he => ⟨(hall e he).1, Nat.zero_le _, (hall e he).2⟩

theorem formats_apart : formats.Pairwise fun e e' => Placed.Apart e.1 e'.1 := by decide

section

variable (numLbas blockSize : Nat)

theorem length_assigned :
    (cls.assign { buffer := List.replicate cls.size 0 } (values numLbas blockSize)).buffer.length
      = cls.size :=
  RegisterClass.length_assign ownUnits List.length_replicate _

@[simp] theorem length_new : (new numLbas blockSize).length = 4096 :=
  (length_setFields formats_between (length_assigned numLbas blockSize)).trans size_cls

/-- A field that is none of the formats. -/
theorem get_new {name : String} {p : Placed} (hp : cls.attr name = some p)
    (hapart : ∀ e ∈ formats, Placed.Apart e.1 p) : p.get (new numLbas blockSize)
      = (lastValue name (values numLbas blockSize)).elim 0 fun v => (v % 2 ^ p.decl.width).toNat := by
  have hbetween := RegisterClass.between_placed ownUnits (RegsStructAccess.mem_placed_of_attr hp).1
  have hassign := @RegisterClass.get_assign cls { buffer := List.replicate cls.size 0 } name p
    ownUnits List.length_replicate hp (values numLbas blockSize)
  rw [Placed.get_zeros hbetween.fits] at hassign
  rw [new, get_setFields_apart formats_between hbetween hapart (length_assigned numLbas blockSize),
    hassign]

/-- A field of a format. -/
theorem get_new_format {p : Placed} {v : Int} (h : (p, v) ∈ formats) :
    p.get (new numLbas blockSize) = (v % 2 ^ p.decl.width).toNat :=
  get_setFields formats_between formats_apart (length_assigned numLbas blockSize) h

/-! ### What a host finds in it -/

theorem NSZE_new : IdentifyNamespace.NSZE (new numLbas blockSize) = numLbas % 2 ^ 64 := by
  obtain ⟨p, hp⟩ : ∃ p, cls.attr "NSZE" = some p := ⟨_, rfl⟩
  have hget := get_new numLbas blockSize hp
  cases hp
  have hscalar := Placed.get_whole 0 8 (new numLbas blockSize)
  rw [IdentifyNamespace.NSZE, ← hscalar]
  refine (hget (by decide)).trans ?_
  show ((numLbas : Int) % 2 ^ 64).toNat = _
  omega

theorem NUSE_new : IdentifyNamespace.NUSE (new numLbas blockSize) = 0 := by
  obtain ⟨p, hp⟩ : ∃ p, cls.attr "NUSE" = some p := ⟨_, rfl⟩
  have hget := get_new numLbas blockSize hp
  cases hp
  rw [IdentifyNamespace.NUSE, ← Placed.get_whole 16 8]
  exact hget (by decide)

theorem FLBAS_new : IdentifyNamespace.FLBAS (new numLbas blockSize) = if blockSize = 512 then 0 else 1 := by
  obtain ⟨p, hp⟩ : ∃ p, cls.attr "FLBAS" = some p := ⟨_, rfl⟩
  have hget := get_new numLbas blockSize hp
  cases hp
  rw [IdentifyNamespace.FLBAS, ← Placed.get_whole 26 1]
  refine (hget (by decide)).trans ?_
  show ((if blockSize = 512 then (0 : Int) else 1) % 2 ^ 8).toNat = _
  split <;> rfl

/-- Bits of the entry of a format. -/
theorem scalar_new_format {k i low : Nat} {p : Placed} {v : Int} (h : formats[k]? = some (p, v))
    (hstart : p.start = 8 * (128 + 4 * i) + low) (hwidth : low + p.decl.width ≤ 32) :
    scalar (new numLbas blockSize) (128 + 4 * i) 4 / 2 ^ low % 2 ^ p.decl.width
      = (v % 2 ^ p.decl.width).toNat := by
  have hmem := List.mem_of_getElem? h
  rw [← Placed.get_scalar (formats_between _ hmem).fits hstart hwidth]
  exact get_new_format numLbas blockSize hmem

theorem lbaFormat_new : IdentifyNamespace.lbaFormat (new numLbas blockSize) 0 = ⟨0, 9⟩
    ∧ IdentifyNamespace.lbaFormat (new numLbas blockSize) 1 = ⟨0, 12⟩ := by
  have hms : scalar (new numLbas blockSize) 128 4 / 2 ^ 0 % 2 ^ 16 = 0 :=
    @scalar_new_format numLbas blockSize 0 0 0 _ _ rfl rfl (by decide)
  have hlbads : scalar (new numLbas blockSize) 128 4 / 2 ^ 16 % 2 ^ 8 = 9 :=
    @scalar_new_format numLbas blockSize 1 0 16 _ _ rfl rfl (by decide)
  have hms' : scalar (new numLbas blockSize) 132 4 / 2 ^ 0 % 2 ^ 16 = 0 :=
    @scalar_new_format numLbas blockSize 3 1 0 _ _ rfl rfl (by decide)
  have hlbads' : scalar (new numLbas blockSize) 132 4 / 2 ^ 16 % 2 ^ 8 = 12 :=
    @scalar_new_format numLbas blockSize 4 1 16 _ _ rfl rfl (by decide)
  rw [Nat.pow_zero, Nat.div_one] at hms hms'
  exact ⟨congrArg₂ LBAFormat.mk hms hlbads, congrArg₂ LBAFormat.mk hms' hlbads'⟩

/-- **The format a host finds** has the block size of the namespace. -/
theorem currentFormat_new (h : blockSize = 512 ∨ blockSize = 4096) :
    (IdentifyNamespace.currentFormat (new numLbas blockSize)).MS = 0
      ∧ 2 ^ (IdentifyNamespace.currentFormat (new numLbas blockSize)).LBADS = blockSize := by
  obtain ⟨hzero, hone⟩ := lbaFormat_new numLbas blockSize
  unfold IdentifyNamespace.currentFormat
  rw [FLBAS_new]
  rcases h with rfl | rfl
  · rw [if_pos rfl, Nat.zero_mod, hzero]
    exact ⟨rfl, rfl⟩
  · rw [if_neg (by decide), Nat.mod_eq_of_lt (by decide), hone]
    exact ⟨rfl, rfl⟩

end

end IdentifyNamespaceData

/-! ## The list of namespaces -/

namespace IdentifyNamespaceList

/-- `Identifiers[i]`. -/
def identifier (i : Nat) : Placed := Placed.whole (4 * i) 4

/-- The loop of `init_namespaces` that numbers the namespaces, from the one at index `i` on. -/
def listNamespaces (i : Nat) : List NVSimNamespace → List (BitVec 8) → Except Exc (List (BitVec 8))
  | [], data => .ok data
  | _ :: rest, data =>
      if i < 1024 then listNamespaces (i + 1) rest ((identifier i).set data ((i : Int) + 1))
      else .error (.indexError "invalid index")

theorem identifiers_set {data : List (BitVec 8)} (hlen : data.length = 4096) {i : Nat} (hi : i < 1024) :
    identifiers ((identifier i).set data ((i : Int) + 1)) = (identifiers data).set i (i + 1) := by
  have hbetween : ∀ k, k < 1024 → (identifier k).Between 0 4096 := fun k hk =>
    Placed.between_whole (by omega)
  refine List.ext_getElem? fun k => ?_
  by_cases hk : k < 1024
  · have hget : ∀ bs, (identifiers bs)[k]? = some ((identifier k).get bs) := fun bs => by
      rw [identifiers, scalars, List.getElem?_map, List.getElem?_range hk, identifier, Placed.get_whole]
      rfl
    rw [hget, List.getElem?_set]
    by_cases hik : i = k
    · subst hik
      rw [if_pos rfl, if_pos (by rw [identifiers, scalars, List.length_map, List.length_range]; exact hi)]
      exact congrArg some (Placed.get_set_self (hbetween i hi) hlen (v := i + 1)
        (by show i + 1 < 2 ^ 32; omega))
    · rw [if_neg hik, hget, Placed.get_set_apart (hbetween i hi) (hbetween k hk) ?_ hlen]
      show 8 * (4 * i) + 0 + 32 ≤ 8 * (4 * k) + 0 ∨ 8 * (4 * k) + 0 + 32 ≤ 8 * (4 * i) + 0
      omega
  · rw [List.getElem?_eq_none (by rw [identifiers, scalars, List.length_map, List.length_range]; omega),
      List.getElem?_eq_none
        (by rw [List.length_set, identifiers, scalars, List.length_map, List.length_range]; omega)]

/-- The ids of `n` namespaces, and zeros. -/
def numbered (n : Nat) : List Nat := (List.range n).map (· + 1) ++ List.replicate (1024 - n) 0

/-- **The loop** numbers all namespaces, if there is room for them. -/
theorem listNamespaces_spec {namespaces : List NVSimNamespace} {i : Nat} {data : List (BitVec 8)}
    (hlen : data.length = 4096) (hdata : identifiers data = numbered i)
    (hroom : i + namespaces.length ≤ 1024) :
    ∃ data', listNamespaces i namespaces data = .ok data' ∧ data'.length = 4096
      ∧ identifiers data' = numbered (i + namespaces.length) := by
  induction namespaces generalizing i data with
  | nil => exact ⟨data, rfl, hlen, hdata⟩
  | cons ns rest ih =>
      rw [List.length_cons] at hroom
      have hi : i < 1024 := by omega
      have hset : identifiers ((identifier i).set data ((i : Int) + 1)) = numbered (i + 1) := by
        have hnext := Mem.set_zeros ((List.range i).map (· + 1)) (1024 - (i + 1)) (i + 1)
        rw [List.length_map, List.length_range, show 1024 - (i + 1) + 1 = 1024 - i by omega] at hnext
        rw [identifiers_set hlen hi, hdata, numbered, hnext, numbered, List.range_succ, List.map_append]
        rfl
      obtain ⟨data', hok, hlen', hnumbered⟩ := ih
        (Placed.length_set (Placed.between_whole (by omega)) hlen _) hset (by omega)
      refine ⟨data', ?_, hlen', ?_⟩
      · rw [listNamespaces, if_pos hi]
        exact hok
      · rw [hnumbered, List.length_cons, Nat.add_assoc, Nat.add_comm 1]

end IdentifyNamespaceList

/-! ## Controller and UUIDs -/

/-- `IdentifyControllerData.PowerStateDesc`. -/
def PowerStateDesc.cls : RegisterClass where
  name := "PowerStateDesc"
  fields := [⟨"MP", 2, none⟩, ⟨"RSVD_0", 1, none⟩, ⟨"MXPS", 1, some 1⟩, ⟨"NOPS", 1, some 1⟩,
    ⟨"RSVD_1", 1, some 6⟩, ⟨"ENLAT", 4, none⟩, ⟨"EXLAT", 4, none⟩, ⟨"RRT", 4, some 5⟩,
    ⟨"RSVD_2", 4, some 3⟩, ⟨"RRL", 4, some 5⟩, ⟨"RSVD_3", 4, some 3⟩, ⟨"RWT", 4, some 5⟩,
    ⟨"RSVD_4", 4, some 3⟩, ⟨"RWL", 4, some 5⟩, ⟨"RSVD_5", 4, some 3⟩, ⟨"IDLP", 4, some 16⟩,
    ⟨"RSVD_6", 4, some 6⟩, ⟨"IPS", 4, some 2⟩, ⟨"RSVD_7", 4, some 8⟩, ⟨"ACTP", 4, some 16⟩,
    ⟨"APW", 4, some 3⟩, ⟨"RSVD_8", 4, some 3⟩, ⟨"APS", 4, some 2⟩, ⟨"RSVD_9", 4, some 8⟩,
    ⟨"RSVD_10", 8, none⟩]
  valid := by decide

namespace IdentifyControllerData

def cls : RegisterClass where
  name := "IdentifyControllerData"
  fields := [⟨"VID", 2, none⟩, ⟨"SSVID", 2, none⟩, ⟨"SN", 20, none⟩, ⟨"MN", 40, none⟩,
    ⟨"FR", 8, none⟩, ⟨"RAB", 1, none⟩, ⟨"IEEE", 3, none⟩, ⟨"CMIC", 1, none⟩, ⟨"MDTS", 1, none⟩,
    ⟨"CNTLID", 2, none⟩, ⟨"VER", 4, none⟩, ⟨"RTD3R", 4, none⟩, ⟨"RTD3E", 4, none⟩,
    ⟨"OAES", 4, none⟩, ⟨"CTRATT", 4, none⟩, ⟨"RRLS", 2, none⟩, ⟨"RSVD_0", 9, none⟩,
    ⟨"CNTRLTYPE", 1, none⟩, ⟨"FGUID", 16, none⟩, ⟨"CRDT1", 2, none⟩, ⟨"CRDT2", 2, none⟩,
    ⟨"CRDT3", 2, none⟩, ⟨"RSVD_1", 119, none⟩, ⟨"NVMSR", 1, none⟩, ⟨"VWCI", 1, none⟩,
    ⟨"MEC", 1, none⟩, ⟨"OACS", 2, none⟩, ⟨"ACL", 1, none⟩, ⟨"AERL", 1, none⟩, ⟨"FRMW", 1, none⟩,
    ⟨"LPA", 1, none⟩, ⟨"ELPE", 1, none⟩, ⟨"NPSS", 1, none⟩, ⟨"AVSCC", 1, none⟩, ⟨"APSTA", 1, none⟩,
    ⟨"WCTEMP", 2, none⟩, ⟨"CCTEMP", 2, none⟩, ⟨"MTFA", 2, none⟩, ⟨"HMPRE", 4, none⟩,
    ⟨"HMMIN", 4, none⟩, ⟨"TNVMCAP_LO", 8, none⟩, ⟨"TNVMCAP_HI", 8, none⟩, ⟨"UNVMCAP_LO", 8, none⟩,
    ⟨"UNVMCAP_HI", 8, none⟩, ⟨"RPMBS", 4, none⟩, ⟨"EDSTT", 2, none⟩, ⟨"DSTO", 1, none⟩,
    ⟨"FWUG", 1, none⟩, ⟨"KAS", 2, none⟩, ⟨"HCTMA", 2, none⟩, ⟨"MNTMT", 2, none⟩, ⟨"MXTMT", 2, none⟩,
    ⟨"SANICAP", 4, none⟩, ⟨"HMMINDS", 4, none⟩, ⟨"HMMAXD", 2, none⟩, ⟨"NSETIDMAX", 2, none⟩,
    ⟨"ENDGIDMAX", 2, none⟩, ⟨"ANATT", 1, none⟩, ⟨"ANACAP", 1, none⟩, ⟨"ANAGRPMAX", 4, none⟩,
    ⟨"NANAGRPID", 4, none⟩, ⟨"PELS", 4, none⟩, ⟨"DOMID", 2, none⟩, ⟨"RSVD_2", 10, none⟩,
    ⟨"MEGCAP_LO", 8, none⟩, ⟨"MEGCAP_HI", 8, none⟩, ⟨"RSVD_3", 128, none⟩, ⟨"SQES", 1, none⟩,
    ⟨"CQES", 1, none⟩, ⟨"MAXCMD", 2, none⟩, ⟨"NN", 4, none⟩, ⟨"ONCS", 2, none⟩, ⟨"FUSES", 2, none⟩,
    ⟨"FNA", 1, none⟩, ⟨"VWC", 1, none⟩, ⟨"AWUN", 2, none⟩, ⟨"AWUPF", 2, none⟩, ⟨"ICSVSCC", 1, none⟩,
    ⟨"NWPC", 1, none⟩, ⟨"ACWU", 2, none⟩, ⟨"CPFMTSUP", 2, none⟩, ⟨"SGLS", 4, none⟩,
    ⟨"MNAN", 4, none⟩, ⟨"MAXDNA_LO", 8, none⟩, ⟨"MAXDNA_HI", 8, none⟩, ⟨"MAXCNA", 4, none⟩,
    ⟨"RSVD_4", 204, none⟩, ⟨"SUBNQN", 256, none⟩, ⟨"RSVD_5", 768, none⟩, ⟨"IOCCSZ", 4, none⟩,
    ⟨"IORCSZ", 4, none⟩, ⟨"ICDOFF", 2, none⟩, ⟨"FCATT", 1, none⟩, ⟨"MSDBD", 1, none⟩,
    ⟨"OFCS", 2, none⟩, ⟨"RSVD_6", 242, none⟩, ⟨"PSDS", 1024, none⟩, ⟨"VS", 1024, none⟩]
  valid := by decide

/-- A byte string over zeros is the number of its bytes. -/
def chars (s : String) : Int := Mem.ofLE (s.toList.map fun c => BitVec.ofNat 8 c.toNat)

/-- What `init_identify_controller` assigns to the power states: their numbers and `MP`. -/
def powerStates : List (Placed × Int) :=
  [(0, 2500), (1, 2200), (2, 2000), (3, 1500), (4, 1000)].flatMap fun e =>
    [("MXPS", 0), ("MP", e.2)].filterMap fun field =>
      (cls.elemAttr PowerStateDesc.cls "PSDS" e.1 field.1).map fun p => (p, field.2)

/-- The data of the controller. -/
def new : List (BitVec 8) :=
  setFields powerStates (cls.assign { buffer := List.replicate cls.size 0 }
    [("MN", chars "nvsim_0.1"), ("SN", chars "EDDAE771"), ("FR", chars "0.001"), ("NPSS", 5)]).buffer

theorem size_cls : cls.size = 4096 := by decide +kernel

theorem ownUnits : cls.OwnUnits := by decide +kernel

-- the offsets that the source asserts
example : ["VS", "MAXCNA", "ONCS", "CCTEMP", "IEEE"].map (fun name => (cls.attr name).map Placed.offset)
    = [some 3072, some 560, some 520, some 268, some 73] := by decide +kernel

@[simp] theorem length_new : new.length = 4096 := by
  have hall : ∀ e ∈ powerStates, e.1.Fits ∧ e.1.offset + e.1.decl.size ≤ cls.size := by decide +kernel
  exact (length_setFields (fun e he => ⟨(hall e he).1, Nat.zero_le _, (hall e he).2⟩)
    (RegisterClass.length_assign ownUnits List.length_replicate _)).trans size_cls

end IdentifyControllerData

namespace IdentifyUUIDListData

/-- `UUIDS[i].UUID[0]`: an entry has 32 bytes, its UUID the last sixteen. -/
def firstByte (i : Nat) : Placed := Placed.whole (32 * i + 16) 1

/-- The sixteen UUIDs of `init_namespaces`. -/
def new : List (BitVec 8) :=
  setFields ((List.range 16).map fun i => (firstByte i, (i : Int) + 1)) (List.replicate 4096 0)

@[simp] theorem length_new : new.length = 4096 := by
  refine length_setFields (fun e he => ?_) List.length_replicate
  obtain ⟨i, hi, rfl⟩ := List.mem_map.mp he
  have hlt := List.mem_range.mp hi
  exact Placed.between_whole (by omega)

end IdentifyUUIDListData

/-! ## The whole configuration -/

/-- A namespace with the data that describes it. -/
def NVSimNamespace.identified (ns : NVSimNamespace) : NVSimNamespace :=
  { ns with idNsData := IdentifyNamespaceData.new ns.numLbas ns.blockSize }

namespace GenericNVMeNVSimConfig

/-- The namespaces of `init_namespaces`: two, of 512 and of 960 GB. -/
def namespaces : Except Exc (List NVSimNamespace) := do
  return [← NVSimNamespace.new 512 4096, ← NVSimNamespace.new 960 4096]

/--
A new configuration. Queue memory and host memory are not part of it, nor are the numbers
of the queue objects to come.
-/
def new (nvsim : NVSim) (namespaces : List NVSimNamespace) (idNsListData : List (BitVec 8)) : NVSim where
  rings := nvsim.rings
  mem := nvsim.mem
  namespaces := namespaces.map NVSimNamespace.identified
  idCtrlData := IdentifyControllerData.new
  idNsListData := idNsListData
  idUuidListData := IdentifyUUIDListData.new
  nextSq := nvsim.nextSq
  nextCq := nvsim.nextCq

/-- `GenericNVMeNVSimConfig(...)` with the given namespaces. -/
def init (nvsim : NVSim) (namespaces : List NVSimNamespace) : Except Exc NVSim := do
  let idNsListData ← IdentifyNamespaceList.listNamespaces 0 namespaces (List.replicate 4096 0)
  return new nvsim namespaces idNsListData

/-- The answers to identify commands are those of a configuration with these namespaces. -/
structure Configured (namespaces : List NVSimNamespace) (nvsim : NVSim) : Prop where
  controller : nvsim.idCtrlData = IdentifyControllerData.new
  length_list : nvsim.idNsListData.length = 4096
  list : IdentifyNamespaceList.identifiers nvsim.idNsListData
    = IdentifyNamespaceList.numbered namespaces.length
  uuids : nvsim.idUuidListData = IdentifyUUIDListData.new
  namespaces : nvsim.namespaces.map NVSimNamespace.description
    = namespaces.map fun ns => ns.identified.description

section

open NVSim

variable {namespaces : List NVSimNamespace} {nvsim nvsim' : NVSim}

/-- What is stored, and the power state, do not matter. -/
theorem Configured.congr (h : Configured namespaces nvsim) {stored : List NVSimNamespace}
    {powerState : BitVec 4}
    (hcore : nvsim'.core = { nvsim.core with namespaces := stored, powerState })
    (hstored : stored.map NVSimNamespace.description
      = nvsim.namespaces.map NVSimNamespace.description) : Configured namespaces nvsim' := by
  have hlist : nvsim'.idNsListData = nvsim.idNsListData := congrArg Core.idNsListData hcore
  refine ⟨?_, ?_, ?_, ?_, ?_⟩
  · exact (congrArg Core.idCtrlData hcore).trans h.controller
  · rw [hlist, h.length_list]
  · rw [hlist, h.list]
  · exact (congrArg Core.idUuidListData hcore).trans h.uuids
  · rw [show nvsim'.namespaces = stored from congrArg Core.namespaces hcore, hstored, h.namespaces]

/-- **No operation of a session** changes the configuration. -/
theorem Configured.step {cfg : RingsConfig} (hcfg : cfg.Operable) (hidle : Idle cfg nvsim)
    (h : Configured namespaces nvsim) {op : SessionOp} (hs : sessionStep cfg nvsim op = some nvsim') :
    Configured namespaces nvsim' ∧ nvsim'.idNsListData = nvsim.idNsListData := by
  cases op with
  | admin command =>
      obtain ⟨_, hsynced⟩ := hidle.admin_synced hcfg hs
      obtain ⟨rings, after, hafter, hcore⟩ := hsynced.core_eq
      have hhandled := hcore.trans (adminCmdHandler_core hafter)
      split at hhandled
      · exact ⟨h.congr hhandled rfl, congrArg Core.idNsListData hhandled⟩
      · exact ⟨h.congr hhandled rfl, congrArg Core.idNsListData hhandled⟩
  | io i command =>
      obtain ⟨_, hsynced⟩ := hidle.io_synced hcfg hs
      obtain ⟨rings, after, hafter, hcore⟩ := hsynced.core_eq
      obtain ⟨stored, hstored, hsame⟩ := nvmCmdHandler_core hafter
      have hhandled := hcore.trans hstored
      exact ⟨h.congr hhandled hsame, congrArg Core.idNsListData hhandled⟩
  | memory mem =>
      rw [← Option.some.inj hs]
      exact ⟨h.congr rfl rfl, rfl⟩

theorem Configured.run {cfg : RingsConfig} (hcfg : cfg.Operable) (hidle : Idle cfg nvsim)
    (h : Configured namespaces nvsim) (ops : List SessionOp)
    (hrun : (session cfg).run nvsim ops = some nvsim') :
    Idle cfg nvsim' ∧ Configured namespaces nvsim' ∧ nvsim'.idNsListData = nvsim.idNsListData := by
  induction ops generalizing nvsim with
  | nil =>
      rw [← Option.some.inj hrun]
      exact ⟨hidle, h, rfl⟩
  | cons op ops ih =>
      obtain ⟨w, hstep, hrest⟩ := Option.bind_eq_some_iff.mp hrun
      obtain ⟨hw, hlist⟩ := h.step hcfg hidle hstep
      obtain ⟨hidle', h', hlist'⟩ := ih (hidle.step hcfg hstep) hw hrest
      exact ⟨hidle', h', hlist'.trans hlist⟩

end

/-- **A new configuration** of at most 1024 namespaces describes them. -/
theorem init_spec {nvsim : NVSim} {namespaces : List NVSimNamespace} (h : namespaces.length ≤ 1024) :
    ∃ idNsListData, init nvsim namespaces = .ok (new nvsim namespaces idNsListData)
      ∧ Configured namespaces (new nvsim namespaces idNsListData) := by
  have hzeros : IdentifyNamespaceList.identifiers (List.replicate 4096 0)
      = IdentifyNamespaceList.numbered 0 := scalars_zeros 4096 4 1024
  obtain ⟨data, hok, hlen, hdata⟩ := @IdentifyNamespaceList.listNamespaces_spec namespaces 0 _
    List.length_replicate hzeros (by omega)
  rw [Nat.zero_add] at hdata
  refine ⟨data, by rw [init, hok]; rfl, rfl, hlen, hdata, rfl, ?_⟩
  show (namespaces.map NVSimNamespace.identified).map _ = _
  rw [List.map_map]
  rfl

end GenericNVMeNVSimConfig

end LoneNvme
