import LoneNvme.PcieRegs

/-!
# The capability lists

`init_capabilities` walks the two lists of the configuration space. A direct object finds a
capability at its address, an indirect one reads it through functions; the fields of a
nested register are then found through the offset of its class, which one call of
`set_offsets` leaves to the next.

The two kinds of object differ in how they find a nested register: a direct one has it where
`ctypes` put it, an indirect one adds its class's `_base_offset_`, which the last capability
of that class has written. `agreeOnCapabilities_iff_rightOffsets` reduces their agreement to
these offsets being right.
-/

namespace LoneNvme

open Lib

/-- `_base_offset_` of the nested classes, which all capabilities of a type share. -/
def ClassOffsets := CapabilityType → String → Option Nat

/-- Every class as its body leaves it. -/
def ClassOffsets.fresh : ClassOffsets := fun _ _ => none

/-- `set_offsets`. -/
def ClassOffsets.setOffsets (offs : ClassOffsets) (t : CapabilityType) (baseOffset : Nat) :
    ClassOffsets :=
  fun t' name =>
    if t' = t then
      match t.cls.setOffsets.lookup name with
      | some delta => some (baseOffset + delta)
      | none => offs t' name
    else offs t' name

/-- An entry of `capabilities`: its type, and where it lies. -/
structure Capability where
  type : CapabilityType
  offset : Nat
  deriving DecidableEq, Repr

/-- A field of a capability, or a field of one of its nested registers. -/
inductive FieldPath where
  | own (name : String)
  | nested (reg field : String)

namespace CapabilityType

/-- Every field there is. -/
def paths (t : CapabilityType) : List FieldPath :=
  t.flat.names.map FieldPath.own
    ++ t.registers.flatMap fun r => r.2.names.map (FieldPath.nested r.1)

end CapabilityType

namespace Capability

open RegsStructAccess

/-- The object of `size` bytes at `offset` in memory. -/
def objectAt (m : Mem) (offset size : Nat) : RegObject := { buffer := m.load offset size }

/-- An indirect object. Its own memory is never used. -/
def indirectAt (baseOffset : Option Nat) : RegObject := { buffer := [], baseOffset }

def noAttribute (t : CapabilityType) (name : String) : Exc :=
  .attributeError (toString t.cls.name ++ " has no attribute " ++ name)

/-- Read a field of a capability of a direct object. -/
def getDirect (m : Mem) (c : Capability) : FieldPath → Except Exc Int
  | .own name =>
      getattribute c.type.flat AccessData.direct (objectAt m c.offset c.type.flat.size) m name
  | .nested reg name =>
      match c.type.register? reg with
      | none => .error (noAttribute c.type reg)
      | some (p, cls) =>
          getattribute cls AccessData.direct (objectAt m (c.offset + p.offset) cls.size) m name

/-- Read a field of a capability of an indirect object. -/
def getIndirect (offs : ClassOffsets) (m : Mem) (c : Capability) : FieldPath → Except Exc Int
  | .own name => getattribute c.type.flat AccessData.plain (indirectAt (some c.offset)) m name
  | .nested reg name =>
      match c.type.register? reg with
      | none => .error (noAttribute c.type reg)
      | some (_, cls) => do
          -- the register itself comes out of a copy of the capability
          let _ ← getattribute c.type.flat AccessData.plain (indirectAt (some c.offset)) m reg
          getattribute cls AccessData.plain (indirectAt (offs c.type cls.name)) m name

/-- Assign to a field of a capability of a direct object. -/
def setDirect (m : Mem) (c : Capability) (value : Int) : FieldPath → Except Exc Mem
  | .own name => do
      let (obj, _) ← setattr c.type.flat AccessData.direct
        (objectAt m c.offset c.type.flat.size) () name value
      return m.store c.offset obj.buffer
  | .nested reg name =>
      match c.type.register? reg with
      | none => .error (noAttribute c.type reg)
      | some (p, cls) => do
          let (obj, _) ← setattr cls AccessData.direct
            (objectAt m (c.offset + p.offset) cls.size) () name value
          return m.store (c.offset + p.offset) obj.buffer

/-- Assign to a field of a capability of an indirect object. -/
def setIndirect (offs : ClassOffsets) (m : Mem) (c : Capability) (value : Int) :
    FieldPath → Except Exc Mem
  | .own name => do
      let (_, m) ← setattr c.type.flat AccessData.plain (indirectAt (some c.offset)) m name value
      return m
  | .nested reg name =>
      match c.type.register? reg with
      | none => .error (noAttribute c.type reg)
      | some (_, cls) => do
          let _ ← getattribute c.type.flat AccessData.plain (indirectAt (some c.offset)) m reg
          let (_, m) ← setattr cls AccessData.plain (indirectAt (offs c.type cls.name)) m name value
          return m

/-- Both ways of access agree on every field. -/
structure Agree (offs : ClassOffsets) (m : Mem) (c : Capability) : Prop where
  reads : ∀ path ∈ c.type.paths, getIndirect offs m c path = getDirect m c path
  assigns : ∀ path ∈ c.type.paths, ∀ v, setIndirect offs m c v path = setDirect m c v path

end Capability

/-! ## `init_capabilities` -/

namespace PCIeRegisters

open RegsStructAccess Capability

def pcieCapabilityIdTable : List CapabilityType :=
  [.gen, .powerManagementInterface] ++ List.replicate 3 .gen ++ [.msi] ++ List.replicate 10 .gen
    ++ [.express, .msix] ++ List.replicate 238 .gen

def pcieCapabilityExtIdTable : List CapabilityType :=
  [.gen, .extendedAer] ++ List.replicate 1 .gen ++ [.extendeDeviceSerialNumber]
    ++ List.replicate 251 .genExtended

/-- What the walk leaves: `capabilities`, and the offsets of the nested classes. -/
structure Walk where
  capabilities : List Capability
  offsets : ClassOffsets

/-- A field of the capability at `ptr`, read the way of the object. -/
def readField (direct : Bool) (m : Mem) (t : CapabilityType) (ptr : Nat) (name : String) :
    Except Exc Int :=
  if direct then getDirect m ⟨t, ptr⟩ (.own name)
  else getIndirect ClassOffsets.fresh m ⟨t, ptr⟩ (.own name)

/-- `table[cap_id]`. -/
def lookupId (table : List CapabilityType) (capId : Int) : Except Exc CapabilityType :=
  match table[capId.toNat]? with
  | some t => .ok t
  | none => .error (.indexError "list index out of range")

/-- One turn of the loop: the next pointer, and the lists so far. -/
def visit (direct : Bool) (m : Mem) (nextCapPtr : Nat) (w : Walk) : Except Exc (Nat × Walk) := do
  let capObj ←
    if nextCapPtr < 0x100 then do
      let capId ← readField direct m .gen nextCapPtr "CAP_ID"
      lookupId pcieCapabilityIdTable capId
    else do
      let capId ← readField direct m .genExtended nextCapPtr "CAP_ID"
      lookupId pcieCapabilityExtIdTable capId
  let offsets := if direct then w.offsets else w.offsets.setOffsets capObj nextCapPtr
  let capabilities :=
    if capObj = .gen ∨ capObj = .genExtended then w.capabilities
    else w.capabilities ++ [⟨capObj, nextCapPtr⟩]
  let next ← readField direct m capObj nextCapPtr "NEXT_PTR"
  return (next.toNat, ⟨capabilities, offsets⟩)

/-- `while next_cap_ptr`, for at most `fuel` turns. -/
def walk (direct : Bool) (m : Mem) : Nat → Nat → Walk → Option (Except Exc Walk)
  | _, 0, w => some (.ok w)
  | 0, _ + 1, _ => none
  | fuel + 1, ptr + 1, w =>
      match visit direct m (ptr + 1) w with
      | .error e => some (.error e)
      | .ok (next, w) => walk direct m fuel next w

/-- `self.CAP.CP`. -/
def capPointer (direct : Bool) (m : Mem) : Except Exc Int :=
  match nvmePCIeRegisters.attr "CAP" with
  | none => .error (.attributeError "CAP")
  | some p =>
      if direct then getattribute cap AccessData.direct (objectAt m p.offset cap.size) m "CP"
      else getattribute cap AccessData.plain (indirectAt cap.baseOffset) m "CP"

/-- `init_capabilities`, of an object of fresh classes. -/
def initCapabilities (fuel : Nat) (direct : Bool) (m : Mem) : Option (Except Exc Walk) :=
  match capPointer direct m with
  | .error e => some (.error e)
  | .ok cp =>
      match walk direct m fuel cp.toNat ⟨[], ClassOffsets.fresh⟩ with
      | none => none
      | some (.error e) => some (.error e)
      | some (.ok w) => walk direct m fuel 0x100 w

end PCIeRegisters

/-! ## One capability -/

namespace CapabilityType

/-- Every nested register has a field, and no field is empty. -/
theorem fields_of_mem (t : CapabilityType) {r : String × RegisterClass} (hr : r ∈ t.registers) :
    r.2.fields ≠ [] ∧ ∀ f ∈ r.2.fields, 0 < f.width := by
  have hfields : ∀ r ∈ t.registers, r.2.fields ≠ [] ∧ ∀ f ∈ r.2.fields, 0 < f.width := by
    cases t <;> decide
  exact hfields r hr

theorem mem_names_of_mem (t : CapabilityType) {r : String × RegisterClass}
    (hr : r ∈ t.registers) : r.1 ∈ t.flat.names := by
  obtain ⟨f, hf, hreg⟩ := List.mem_filterMap.mp hr
  refine List.mem_map.mpr ⟨f.decl, List.mem_map.mpr ⟨f, hf, rfl⟩, ?_⟩
  cases f with
  | int d => exact absurd hreg (by simp [CapField.register?])
  | reg name cls =>
      rw [CapField.register?, Option.some.injEq] at hreg
      rw [← hreg]
      rfl

theorem own_mem_paths {t : CapabilityType} {name : String} :
    FieldPath.own name ∈ t.paths ↔ name ∈ t.flat.names := by
  simp [paths]

theorem nested_mem_paths {t : CapabilityType} {reg name : String} :
    FieldPath.nested reg name ∈ t.paths ↔ ∃ r ∈ t.registers, r.1 = reg ∧ name ∈ r.2.names := by
  simp [paths]

end CapabilityType

namespace Capability

open RegsStructAccess

variable {m : Mem} {offs : ClassOffsets} {c : Capability}

theorem getattribute_direct {σ : Type*} {cls : RegisterClass} {p : Placed} {name : String}
    (hp : cls.attr name = some p) (obj : RegObject) (st : σ) :
    getattribute cls AccessData.direct obj st name = .ok (p.get obj.buffer : Int) := by
  unfold getattribute AccessData.direct
  dsimp only
  rw [objectGetattribute, hp]

/-- The fields of the capability itself are read and assigned at its own offset. -/
theorem own_eq {name : String} {p : Placed} (hp : c.type.flat.attr name = some p) :
    getIndirect offs m c (.own name) = getDirect m c (.own name)
      ∧ ∀ v, setIndirect offs m c v (.own name) = setDirect m c v (.own name) := by
  refine ⟨?_, fun v => ?_⟩
  · unfold getIndirect getDirect
    dsimp only
    rw [@getattribute_plain c.type.flat p name (indirectAt (some c.offset)) c.offset rfl hp,
      getattribute_direct hp]
    rfl
  · unfold setIndirect setDirect
    dsimp only
    rw [@setattr_plain c.type.flat p name (indirectAt (some c.offset)) c.offset rfl hp,
      setattr_direct hp]
    rfl

/-- The nested register, and a field in it. -/
structure NestedField (c : Capability) (r : String × RegisterClass) (name : String)
    (p q : Placed) : Prop where
  whole : c.type.register? r.1 = some (p, r.2)
  copy : ∃ p', c.type.flat.attr r.1 = some p'
  field : r.2.attr name = some q

section

variable {r : String × RegisterClass} {name : String} {p q : Placed}

theorem getDirect_nested (h : NestedField c r name p q) :
    getDirect m c (.nested r.1 name)
      = .ok (q.get (m.load (c.offset + p.offset) r.2.size) : Int) := by
  unfold getDirect
  dsimp only
  rw [h.whole]
  exact getattribute_direct h.field _ m

theorem setDirect_nested (h : NestedField c r name p q) (v : Int) :
    setDirect m c v (.nested r.1 name) = .ok (m.store (c.offset + p.offset)
      (q.set (m.load (c.offset + p.offset) r.2.size) v)) := by
  unfold setDirect
  dsimp only
  rw [h.whole]
  dsimp only
  rw [setattr_direct h.field]
  rfl

theorem getIndirect_nested (h : NestedField c r name p q) :
    getIndirect offs m c (.nested r.1 name)
      = getattribute r.2 AccessData.plain (indirectAt (offs c.type r.2.name)) m name := by
  obtain ⟨p', hp'⟩ := h.copy
  unfold getIndirect
  dsimp only
  rw [h.whole]
  dsimp only
  rw [@getattribute_plain c.type.flat p' r.1 (indirectAt (some c.offset)) c.offset rfl hp']
  rfl

theorem setIndirect_nested (h : NestedField c r name p q) {o : Nat}
    (ho : offs c.type r.2.name = some o) (v : Int) :
    setIndirect offs m c v (.nested r.1 name)
      = .ok (m.store o (q.set (m.load o r.2.size) v)) := by
  obtain ⟨p', hp'⟩ := h.copy
  unfold setIndirect
  dsimp only
  rw [h.whole]
  dsimp only
  rw [@getattribute_plain c.type.flat p' r.1 (indirectAt (some c.offset)) c.offset rfl hp', ho]
  show (do
    let (_, m) ← setattr r.2 AccessData.plain (indirectAt (some o)) m name v
    return m) = _
  rw [@setattr_plain r.2 q name (indirectAt (some o)) o rfl h.field]
  rfl

end

/-- A nested register of a type is found, and each of its names is a field. -/
theorem nestedField {r : String × RegisterClass} (hr : r ∈ c.type.registers) {name : String}
    (hname : name ∈ r.2.names) :
    ∃ p q, NestedField c r name p q ∧ ∀ d, c.type.delta? r.2 = some d → d = p.offset := by
  obtain ⟨p, hp, hd⟩ := c.type.register?_of_mem hr
  obtain ⟨q, hq⟩ := exists_attr hname
  exact ⟨p, q, ⟨hp, exists_attr (c.type.mem_names_of_mem hr), hq⟩, hd⟩

/-- The class of every nested register points into this capability. -/
def RightOffsets (offs : ClassOffsets) (c : Capability) : Prop :=
  ∀ r ∈ c.type.registers, ∀ p, c.type.register? r.1 = some (p, r.2) →
    offs c.type r.2.name = some (c.offset + p.offset)

theorem agree_of_rightOffsets (h : RightOffsets offs c) : Agree offs m c where
  reads := by
    intro path hpath
    cases path with
    | own name =>
        obtain ⟨p, hp⟩ := exists_attr (CapabilityType.own_mem_paths.mp hpath)
        exact (own_eq hp).1
    | nested reg name =>
        obtain ⟨r, hr, rfl, hname⟩ := CapabilityType.nested_mem_paths.mp hpath
        obtain ⟨p, q, hf, _⟩ := nestedField hr hname
        rw [getIndirect_nested hf, getDirect_nested hf, h r hr p hf.whole]
        exact getattribute_plain rfl hf.field m
  assigns := by
    intro path hpath v
    cases path with
    | own name =>
        obtain ⟨p, hp⟩ := exists_attr (CapabilityType.own_mem_paths.mp hpath)
        exact (own_eq hp).2 v
    | nested reg name =>
        obtain ⟨r, hr, rfl, hname⟩ := CapabilityType.nested_mem_paths.mp hpath
        obtain ⟨p, q, hf, _⟩ := nestedField hr hname
        rw [setIndirect_nested hf (h r hr p hf.whole), setDirect_nested hf]

/-- **Agreement means right offsets**: a class that points elsewhere is found out by assigning. -/
theorem rightOffsets_of_agree (h : Agree offs m c) : RightOffsets offs c := by
  intro r hr p hp
  obtain ⟨hne, hwidth⟩ := c.type.fields_of_mem hr
  obtain ⟨f, hf⟩ := List.exists_mem_of_ne_nil _ hne
  have hname : f.name ∈ r.2.names := List.mem_map.mpr ⟨f, hf, rfl⟩
  obtain ⟨p', q, hfield, _⟩ := nestedField hr hname
  have hpp : p' = p := by
    have hwhole := hfield.whole
    rw [hp, Option.some.injEq, Prod.mk.injEq] at hwhole
    exact hwhole.1.symm
  subst hpp
  have hpath := CapabilityType.nested_mem_paths.mpr ⟨r, hr, rfl, hname⟩
  cases ho : offs c.type r.2.name with
  | none =>
      -- the read raises
      have hread := h.reads _ hpath
      rw [getIndirect_nested hfield, getDirect_nested hfield, ho] at hread
      unfold getattribute AccessData.plain indirectAt at hread
      dsimp only at hread
      rw [if_neg (not_not_intro hname)] at hread
      exact absurd hread (by simp)
  | some o =>
      obtain ⟨hq, _⟩ := mem_placed_of_attr hfield.field
      have hdecl : q.decl ∈ r.2.fields := by
        rw [← map_decl_place 0 none r.2.fields]
        exact List.mem_map.mpr ⟨q, hq, rfl⟩
      have hbetween := between_of_mem (c.type.ownUnits_of_mem hr) hq
      have hfits := hbetween.fits
      refine congrArg some (@BitField.eq_of_store_eq (q.bitField hfits) m o (c.offset + p'.offset)
        r.2.size (hwidth _ hdecl) hbetween.upper fun v => ?_)
      have hassign := h.assigns _ hpath v
      rw [setIndirect_nested hfield ho, setDirect_nested hfield, Except.ok.injEq] at hassign
      rw [← q.set_eq hfits, ← q.set_eq hfits]
      exact hassign

end Capability

/-! ## The walk -/

namespace PCIeRegisters

open RegsStructAccess Capability

variable {m : Mem} {direct : Bool} {ptr : Nat} {chain : List Capability}

/-- A field of the capability of type `t` that the bytes at `ptr` make up. -/
def field (m : Mem) (t : CapabilityType) (ptr : Nat) (name : String) : Nat :=
  match t.flat.attr name with
  | some p => p.get (m.load ptr t.flat.size)
  | none => 0

/-- The type the contents give the capability at `ptr`. -/
def typeAt (m : Mem) (ptr : Nat) : Option CapabilityType :=
  if ptr < 0x100 then pcieCapabilityIdTable[field m .gen ptr "CAP_ID"]?
  else pcieCapabilityExtIdTable[field m .genExtended ptr "CAP_ID"]?

/-- The capabilities pointer of the contents. -/
def cpAt (m : Mem) : Nat := (m 0x34).toNat

/-- The contents hold a list from `ptr` that ends: every id is in its table, and a null comes. -/
inductive Chain (m : Mem) : Nat → List Capability → Prop
  | nil : Chain m 0 []
  | cons {ptr : Nat} {t : CapabilityType} {rest : List Capability} : ptr ≠ 0 →
      typeAt m ptr = some t → Chain m (field m t ptr "NEXT_PTR") rest →
      Chain m ptr (⟨t, ptr⟩ :: rest)

/-- The capabilities of a known type. -/
def listed (chain : List Capability) : List Capability :=
  chain.filter fun c => ¬ (c.type = .gen ∨ c.type = .genExtended)

/-- The class offsets once `set_offsets` ran for each. -/
def offsetsAfter (offs : ClassOffsets) (chain : List Capability) : ClassOffsets :=
  chain.foldl (fun offs c => offs.setOffsets c.type c.offset) offs

/-- What the walk adds. -/
def Walk.after (w : Walk) (direct : Bool) (chain : List Capability) : Walk where
  capabilities := w.capabilities ++ listed chain
  offsets := if direct then w.offsets else offsetsAfter w.offsets chain

theorem readField_eq {t : CapabilityType} {name : String} (hname : name ∈ t.flat.names) :
    readField direct m t ptr name = .ok (field m t ptr name : Int) := by
  obtain ⟨p, hp⟩ := exists_attr hname
  have hdirect : getDirect m ⟨t, ptr⟩ (.own name) = .ok (field m t ptr name : Int) := by
    unfold getDirect field
    dsimp only
    rw [getattribute_direct hp, hp]
    rfl
  unfold readField
  split
  · exact hdirect
  · rw [(@own_eq m ClassOffsets.fresh ⟨t, ptr⟩ name p hp).1, hdirect]

theorem lookupId_of_typeAt {table : List CapabilityType} {n : Nat} {t : CapabilityType}
    (h : table[n]? = some t) : lookupId table (n : Int) = .ok t := by
  rw [lookupId, Int.toNat_natCast, h]

/-- **One turn**, where the contents give a type. -/
theorem visit_eq {t : CapabilityType} (ht : typeAt m ptr = some t) (w : Walk) :
    visit direct m ptr w
      = .ok (field m t ptr "NEXT_PTR", w.after direct [⟨t, ptr⟩]) := by
  have hnext : "NEXT_PTR" ∈ t.flat.names := by cases t <;> decide
  -- what the loop body does to the list and the offsets
  have hafter : (⟨if t = .gen ∨ t = .genExtended then w.capabilities
        else w.capabilities ++ [⟨t, ptr⟩],
      if direct then w.offsets else w.offsets.setOffsets t ptr⟩ : Walk)
        = w.after direct [⟨t, ptr⟩] := by
    unfold Walk.after
    by_cases hgen : t = .gen ∨ t = .genExtended
    · have hdrop : listed [⟨t, ptr⟩] = [] :=
        List.filter_cons_of_neg (by rw [decide_eq_true_iff, not_not]; exact hgen)
      rw [if_pos hgen, hdrop, List.append_nil]
      rfl
    · have hkeep : listed [⟨t, ptr⟩] = [⟨t, ptr⟩] := List.filter_cons_of_pos (decide_eq_true hgen)
      rw [if_neg hgen, hkeep]
      rfl
  unfold typeAt at ht
  unfold visit
  rw [← hafter]
  split at ht
  · -- below 0x100: the id and the link of a standard header
    rename_i hptr
    rw [if_pos hptr, readField_eq (by decide)]
    show (do
      let capObj ← lookupId pcieCapabilityIdTable (field m .gen ptr "CAP_ID" : Int)
      _) = _
    rw [lookupId_of_typeAt ht]
    show (do
      let next ← readField direct m t ptr "NEXT_PTR"
      _) = _
    rw [readField_eq hnext]
    rfl
  · rename_i hptr
    rw [if_neg hptr, readField_eq (by decide)]
    show (do
      let capObj ← lookupId pcieCapabilityExtIdTable (field m .genExtended ptr "CAP_ID" : Int)
      _) = _
    rw [lookupId_of_typeAt ht]
    show (do
      let next ← readField direct m t ptr "NEXT_PTR"
      _) = _
    rw [readField_eq hnext]
    rfl

theorem Walk.after_nil (w : Walk) : w.after direct [] = w := by
  unfold Walk.after listed offsetsAfter
  rw [List.filter_nil, List.append_nil, List.foldl_nil, ite_self]

theorem Walk.after_append (w : Walk) (xs ys : List Capability) :
    (w.after direct xs).after direct ys = w.after direct (xs ++ ys) := by
  unfold Walk.after listed offsetsAfter
  rw [List.filter_append, List.append_assoc, List.foldl_append]
  cases direct <;> rfl

/-- **The walk** follows the list of the contents, if there is fuel for it. -/
theorem walk_eq (h : Chain m ptr chain) (fuel : Nat) (w : Walk) :
    walk direct m fuel ptr w
      = if chain.length ≤ fuel then some (.ok (w.after direct chain)) else none := by
  induction h generalizing fuel w with
  | nil =>
      rw [if_pos (show [].length ≤ fuel from Nat.zero_le fuel), Walk.after_nil]
      cases fuel <;> rfl
  | @cons ptr t rest hptr ht hrest ih =>
      obtain ⟨ptr, rfl⟩ := Nat.exists_eq_succ_of_ne_zero hptr
      cases fuel with
      | zero =>
          rw [if_neg (by simp)]
          rfl
      | succ fuel =>
          have hstep : walk direct m (fuel + 1) (ptr + 1) w
              = walk direct m fuel (field m t (ptr + 1) "NEXT_PTR")
                  (w.after direct [⟨t, ptr + 1⟩]) := by
            rw [walk, visit_eq ht]
          rw [hstep, ih, Walk.after_append]
          simp

theorem capPointer_eq : capPointer direct m = .ok (cpAt m : Int) := by
  obtain ⟨p, hp, hoff⟩ : ∃ p, nvmePCIeRegisters.attr "CAP" = some p ∧ p.offset = 0x34 := by
    exact ⟨_, rfl, by decide⟩
  have hcp : cap.attr "CP" = some ⟨⟨"CP", 1, none⟩, 0, 0⟩ := rfl
  have hget : (⟨⟨"CP", 1, none⟩, 0, 0⟩ : Placed).get (m.load 0x34 cap.size) = cpAt m := by
    show (loadUnit (m.load 0x34 1) 0 1).toNat = (m 0x34).toNat
    rw [loadUnit, List.drop_zero, Mem.load_succ]
    show (BitVec.ofNat 8 (m 0x34).toNat).toNat = _
    rw [BitVec.toNat_ofNat, Nat.mod_eq_of_lt (m 0x34).isLt]
  unfold capPointer
  rw [hp]
  dsimp only
  split
  · rw [getattribute_direct hcp, hoff]
    exact congrArg (fun n : Nat => (Except.ok (n : Int) : Except Exc Int)) hget
  · rw [@getattribute_plain cap _ "CP" (indirectAt cap.baseOffset) 0x34 rfl hcp, hget]

/-- **`init_capabilities`** follows both lists. -/
theorem initCapabilities_eq {base ext : List Capability} (hbase : Chain m (cpAt m) base)
    (hext : Chain m 0x100 ext) (fuel : Nat) :
    initCapabilities fuel direct m
      = if base.length ≤ fuel ∧ ext.length ≤ fuel then
          some (.ok ((⟨[], ClassOffsets.fresh⟩ : Walk).after direct (base ++ ext)))
        else none := by
  unfold initCapabilities
  rw [capPointer_eq]
  dsimp only
  rw [Int.toNat_natCast, walk_eq hbase]
  by_cases hb : base.length ≤ fuel
  · rw [if_pos hb]
    dsimp only
    rw [walk_eq hext, Walk.after_append]
    simp [hb]
  · rw [if_neg hb, if_neg (fun h => hb h.1)]

/-! ## The offsets it leaves -/

theorem offsetsAfter_unchanged {t : CapabilityType} {name : String}
    (hname : ∀ c ∈ chain, c.type = t → t.cls.setOffsets.lookup name = none)
    (offs : ClassOffsets) : offsetsAfter offs chain t name = offs t name := by
  induction chain generalizing offs with
  | nil => rfl
  | cons c chain ih =>
      show offsetsAfter (offs.setOffsets c.type c.offset) chain t name = _
      rw [ih (fun d hd => hname d (List.mem_cons_of_mem _ hd)), ClassOffsets.setOffsets]
      by_cases ht : t = c.type
      · rw [if_pos ht, ← ht, hname c List.mem_cons_self ht.symm]
      · rw [if_neg ht]

/-- The nested classes of a type point into the last capability of that type. -/
theorem offsetsAfter_last {t : CapabilityType} (hmem : ∃ c ∈ chain, c.type = t)
    (offs : ClassOffsets) : ∃ last ∈ chain, last.type = t ∧ ∀ name delta,
      t.cls.setOffsets.lookup name = some delta →
        offsetsAfter offs chain t name = some (last.offset + delta) := by
  induction chain generalizing offs with
  | nil => exact absurd hmem (by simp)
  | cons d chain ih =>
      by_cases hlater : ∃ c ∈ chain, c.type = t
      · obtain ⟨last, hlast, hty, hoffs⟩ := ih hlater (offs.setOffsets d.type d.offset)
        exact ⟨last, List.mem_cons_of_mem _ hlast, hty, hoffs⟩
      · obtain ⟨c, hc, hct⟩ := hmem
        have hd : d.type = t := by
          rcases List.mem_cons.mp hc with rfl | hc
          · exact hct
          · exact absurd ⟨c, hc, hct⟩ hlater
        refine ⟨d, List.mem_cons_self, hd, fun name delta hname => ?_⟩
        show offsetsAfter (offs.setOffsets d.type d.offset) chain t name = _
        rw [offsetsAfter_unchanged (fun c hc hct => absurd ⟨c, hc, hct⟩ hlater),
          ClassOffsets.setOffsets, if_pos hd.symm, hd, hname]

/-- Classes nobody pointed anywhere, then the walk. -/
def finalOffsets (chain : List Capability) : ClassOffsets := offsetsAfter ClassOffsets.fresh chain

/-- The offsets fit each capability of a list: exactly when each type is complete and is there once. -/
theorem rightOffsets_iff : (∀ c ∈ chain, RightOffsets (finalOffsets chain) c) ↔
    (∀ c ∈ chain, c.type ≠ .msi ∧ c.type ≠ .extendedAer)
      ∧ ∀ c ∈ chain, ∀ c' ∈ chain, c.type = c'.type → c.type.registers ≠ [] →
          c.offset = c'.offset := by
  constructor
  · intro h
    refine ⟨fun c hc => ?_, fun c hc c' hc' hty hne => ?_⟩
    · rw [← CapabilityType.complete_iff]
      intro r hr
      obtain ⟨p, hp, _⟩ := c.type.register?_of_mem hr
      have hright := h c hc r hr p hp
      cases hdelta : c.type.delta? r.2 with
      | some d => rfl
      | none =>
          rw [finalOffsets, offsetsAfter_unchanged (fun _ _ _ => hdelta)] at hright
          exact absurd hright (by simp [ClassOffsets.fresh])
    · -- one class cannot point into both
      obtain ⟨r, hr⟩ := List.exists_mem_of_ne_nil _ hne
      obtain ⟨p, hp, _⟩ := c.type.register?_of_mem hr
      have hright := h c hc r hr p hp
      have hright' := h c' hc' r (hty ▸ hr) p (hty ▸ hp)
      rw [← hty, hright, Option.some.injEq] at hright'
      omega
  · rintro ⟨hcomplete, honce⟩ c hc r hr p hp
    obtain ⟨q, hq, hd⟩ := c.type.register?_of_mem hr
    have hqp : q = p := by
      rw [hp, Option.some.injEq, Prod.mk.injEq] at hq
      exact hq.1.symm
    -- the last capability of the class wrote the offset that all of it read
    obtain ⟨d, hdelta⟩ :=
      Option.isSome_iff_exists.mp ((CapabilityType.complete_iff _).mpr (hcomplete c hc) r hr)
    obtain ⟨last, hlast, hty, hoffs⟩ := offsetsAfter_last ⟨c, hc, rfl⟩ ClassOffsets.fresh
    have hsame : c.offset = last.offset :=
      honce c hc last hlast hty.symm (List.ne_nil_of_mem hr)
    rw [finalOffsets, hoffs r.2.name d hdelta, hd d hdelta, hqp, hsame]

/-- Unknown types have no nested register. -/
theorem rightOffsets_of_not_listed {c : Capability} (hc : c.type = .gen ∨ c.type = .genExtended)
    (offs : ClassOffsets) : RightOffsets offs c := by
  have hnone : c.type.registers = [] := by rcases hc with hc | hc <;> rw [hc] <;> rfl
  intro r hr
  rw [hnone] at hr
  exact absurd hr (by simp)

/-! ## Agreement -/

/--
Direct and indirect access agree: `init_capabilities` ends on both objects with the same
capabilities, and every field of them is read and assigned alike.
-/
def AgreeOnCapabilities (m : Mem) : Prop :=
  ∃ fuel onDirect onIndirect, initCapabilities fuel true m = some (.ok onDirect)
    ∧ initCapabilities fuel false m = some (.ok onIndirect)
    ∧ onDirect.capabilities = onIndirect.capabilities
    ∧ ∀ c ∈ onIndirect.capabilities, Agree onIndirect.offsets m c

theorem agreeOnCapabilities_iff_rightOffsets {base ext : List Capability}
    (hbase : Chain m (cpAt m) base) (hext : Chain m 0x100 ext) : AgreeOnCapabilities m ↔
      ∀ c ∈ base ++ ext, RightOffsets (finalOffsets (base ++ ext)) c := by
  constructor
  · rintro ⟨fuel, onDirect, onIndirect, _, hindirect, _, hagree⟩ c hc
    rw [initCapabilities_eq hbase hext] at hindirect
    split at hindirect
    · rw [Option.some.injEq, Except.ok.injEq] at hindirect
      subst hindirect
      by_cases hgen : c.type = .gen ∨ c.type = .genExtended
      · exact rightOffsets_of_not_listed hgen _
      · exact rightOffsets_of_agree (hagree c (List.mem_filter.mpr ⟨hc, decide_eq_true hgen⟩))
    · exact absurd hindirect (by simp)
  · intro hright
    have hends : ∀ direct, initCapabilities (base.length + ext.length) direct m
        = some (.ok ((⟨[], ClassOffsets.fresh⟩ : Walk).after direct (base ++ ext))) := fun direct => by
      rw [initCapabilities_eq hbase hext,
        if_pos ⟨Nat.le_add_right _ _, Nat.le_add_left _ _⟩]
    refine ⟨_, _, _, hends true, hends false, rfl, fun c hc => ?_⟩
    exact agree_of_rightOffsets (hright c (List.mem_filter.mp hc).1)

/-- Contents with these bytes, zero elsewhere. -/
def contents (bytes : List (Nat × BitVec 8)) : Mem := fun a => (bytes.lookup a).getD 0

theorem chain_last {m : Mem} {ptr : Nat} {t : CapabilityType} (hptr : ptr ≠ 0)
    (ht : typeAt m ptr = some t) (hnext : field m t ptr "NEXT_PTR" = 0) :
    Chain m ptr [⟨t, ptr⟩] :=
  .cons hptr ht (hnext ▸ .nil)

end PCIeRegisters

end LoneNvme
