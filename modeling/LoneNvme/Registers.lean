import LoneNvme.Lib.BitFields
import LoneNvme.Lib.Dict
import LoneNvme.Lib.Python

/-!
# Registers

A register class is a packed structure of scalars and bit-fields. An object of it is
accessed directly, in its own buffer, or indirectly, through functions that get and set
one byte of the device: a read takes all bytes of the register and picks the field, an
assignment reads all bytes, changes the field and writes all bytes back.

As long as every bit-field has a unit of its own type, every field is an interval of bits
and no two overlap. So the indirect assignment is the direct one, carried out at the
register's place in the device. A bit-field that continues the unit of a larger type is
placed by the size of its own type, and may lie on bits of another field.
-/

namespace LoneNvme

open Lib

/-! ## Packed layouts -/

/-- An entry of `_fields_`: a type of `size` bytes, or a bit-field of that type. -/
structure FieldDecl where
  name : String
  size : Nat
  bits : Option Nat := none
  deriving DecidableEq, Repr

namespace FieldDecl

def width (d : FieldDecl) : Nat := d.bits.getD (8 * d.size)

/-- What `ctypes` checks when the class is made. -/
def Valid (d : FieldDecl) : Prop := d.width ≤ 8 * d.size

instance (d : FieldDecl) : Decidable d.Valid := inferInstanceAs (Decidable (_ ≤ _))

end FieldDecl

/-- A field in its storage unit: the first byte of the unit and the first bit in it. -/
structure Placed where
  decl : FieldDecl
  offset : Nat
  low : Nat

namespace Placed

/-- Read the field of a structure. -/
def get (p : Placed) (bs : List (BitVec 8)) : Nat :=
  match p.decl.bits with
  | none => (loadUnit bs p.offset p.decl.size).toNat
  | some b => (extractBits (loadUnit bs p.offset p.decl.size) p.low b).toNat

/-- Assign to the field of a structure. -/
def set (p : Placed) (bs : List (BitVec 8)) (v : Int) : List (BitVec 8) :=
  match p.decl.bits with
  | none => storeUnit bs p.offset p.decl.size (BitVec.ofInt _ v)
  | some b =>
      storeUnit bs p.offset p.decl.size
        (insertBits (loadUnit bs p.offset p.decl.size) (BitVec.ofInt _ v) p.low b)

theorem get_lt (p : Placed) (bs : List (BitVec 8)) : p.get bs < 2 ^ p.decl.width := by
  unfold get FieldDecl.width
  cases p.decl.bits with
  | none => exact (loadUnit bs p.offset p.decl.size).isLt
  | some b => exact toNat_extractBits_lt (loadUnit bs p.offset p.decl.size) p.low b

/-- The bits of the field lie in its unit; a scalar is its unit. -/
def Fits (p : Placed) : Prop :=
  p.low + p.decl.width ≤ 8 * p.decl.size ∧ (p.decl.bits = none → p.low = 0)

/-- One of the two ends before the other begins. -/
def Apart (p q : Placed) : Prop :=
  8 * p.offset + p.low + p.decl.width ≤ 8 * q.offset + q.low
    ∨ 8 * q.offset + q.low + q.decl.width ≤ 8 * p.offset + p.low

instance : Std.Symm Apart := ⟨fun _ _ h => h.elim Or.inr Or.inl⟩

/-- The interval a field is. -/
def bitField (p : Placed) (h : p.Fits) : BitField :=
  ⟨p.offset, p.decl.size, p.low, p.decl.width, h.1⟩

theorem get_eq (p : Placed) (h : p.Fits) (bs : List (BitVec 8)) :
    p.get bs = (p.bitField h).get bs := by
  unfold get
  cases hb : p.decl.bits with
  | some b =>
      show _ = (extractBits (loadUnit bs p.offset p.decl.size) p.low p.decl.width).toNat
      rw [FieldDecl.width, hb]
      rfl
  | none =>
      have hw : p.decl.width = 8 * p.decl.size := by rw [FieldDecl.width, hb]; rfl
      refine congrArg BitVec.toNat (BitVec.eq_of_getLsbD_eq fun i hi => ?_)
      show _ = (extractBits (loadUnit bs p.offset p.decl.size) p.low p.decl.width).getLsbD i
      rw [getLsbD_extractBits h.1, h.2 hb, Nat.zero_add, hw, decide_eq_true hi, Bool.true_and]

theorem set_eq (p : Placed) (h : p.Fits) (bs : List (BitVec 8)) (v : Int) :
    p.set bs v = (p.bitField h).set bs v := by
  unfold set
  cases hb : p.decl.bits with
  | some b =>
      show _ = storeUnit bs p.offset p.decl.size
        (insertBits (loadUnit bs p.offset p.decl.size) (BitVec.ofInt _ v) p.low p.decl.width)
      rw [FieldDecl.width, hb]
      rfl
  | none =>
      have hw : p.decl.width = 8 * p.decl.size := by rw [FieldDecl.width, hb]; rfl
      refine congrArg (storeUnit bs p.offset p.decl.size) (BitVec.eq_of_getLsbD_eq fun i hi => ?_)
      show _ = (insertBits (loadUnit bs p.offset p.decl.size) (BitVec.ofInt _ v) p.low
        p.decl.width).getLsbD i
      rw [getLsbD_insertBits h.1, h.2 hb, if_pos (by omega), Nat.sub_zero]

end Placed

/--
Place one field at byte `offset`: the field, the next byte, and the open unit as
`(size, bits used)`. If there is room a bit-field continues a unit of its own type or of a
larger one, or expands a unit of a smaller one.
-/
def placeOne (offset : Nat) (unit : Option (Nat × Nat)) (d : FieldDecl) :
    Placed × Nat × Option (Nat × Nat) :=
  match d.bits, unit with
  | none, _ => (⟨d, offset, 0⟩, offset + d.size, none)
  | some b, none => (⟨d, offset, 0⟩, offset + d.size, some (d.size, b))
  | some b, some (size, used) =>
      if d.size ≤ size ∧ used + b ≤ 8 * size then
        -- in a larger unit this is not where the unit begins, but `low` counts from there
        (⟨d, offset - d.size, used⟩, offset, some (size, used + b))
      else if size ≤ d.size ∧ used + b ≤ 8 * d.size then
        (⟨d, offset - size, used⟩, offset + (d.size - size), some (d.size, used + b))
      else
        (⟨d, offset, 0⟩, offset + d.size, some (d.size, b))

/-- The packed layout from byte `offset` on: the fields in their units, and the end. -/
def place (offset : Nat) (unit : Option (Nat × Nat)) : List FieldDecl → List Placed × Nat
  | [] => ([], offset)
  | d :: ds =>
      let (p, offset, unit) := placeOne offset unit d
      let (ps, stop) := place offset unit ds
      (p :: ps, stop)

theorem place_cons (offset : Nat) (unit : Option (Nat × Nat)) (d : FieldDecl)
    (ds : List FieldDecl) : place offset unit (d :: ds) =
      ((placeOne offset unit d).1
        :: (place (placeOne offset unit d).2.1 (placeOne offset unit d).2.2 ds).1,
      (place (placeOne offset unit d).2.1 (placeOne offset unit d).2.2 ds).2) := rfl

/-- The bit-field goes into the open unit of a larger type. -/
def SharesLarger (unit : Option (Nat × Nat)) (d : FieldDecl) : Prop :=
  ∃ u ∈ unit, ∃ b ∈ d.bits, d.size < u.1 ∧ u.2 + b ≤ 8 * u.1

instance (unit : Option (Nat × Nat)) (d : FieldDecl) : Decidable (SharesLarger unit d) :=
  inferInstanceAs (Decidable (∃ u ∈ unit, ∃ b ∈ d.bits, d.size < u.1 ∧ u.2 + b ≤ 8 * u.1))

/-- No bit-field goes into the open unit of a larger type. -/
def OwnUnits (offset : Nat) (unit : Option (Nat × Nat)) : List FieldDecl → Prop
  | [] => True
  | d :: ds => ¬ SharesLarger unit d
      ∧ OwnUnits (placeOne offset unit d).2.1 (placeOne offset unit d).2.2 ds

instance decidableOwnUnits : (offset : Nat) → (unit : Option (Nat × Nat)) →
    (ds : List FieldDecl) → Decidable (OwnUnits offset unit ds)
  | _, _, [] => inferInstanceAs (Decidable True)
  | offset, unit, d :: ds =>
      have := decidableOwnUnits (placeOne offset unit d).2.1 (placeOne offset unit d).2.2 ds
      inferInstanceAs (Decidable (_ ∧ _))

/-- The first bit not taken yet. -/
def frontier (offset : Nat) : Option (Nat × Nat) → Nat
  | none => 8 * offset
  | some (size, used) => 8 * (offset - size) + used

/-- The open unit lies before `offset` and is not overfull. -/
def OpenUnit (offset : Nat) : Option (Nat × Nat) → Prop
  | none => True
  | some (size, used) => size ≤ offset ∧ used ≤ 8 * size

theorem frontier_le {offset : Nat} {unit : Option (Nat × Nat)} (h : OpenUnit offset unit) :
    frontier offset unit ≤ 8 * offset := by
  cases unit with
  | none => exact Nat.le_refl _
  | some u =>
      obtain ⟨hsize, hused⟩ := h
      show 8 * (offset - u.1) + u.2 ≤ 8 * offset
      omega

/-- What a placed field promises: it fits its unit, and lies between a bit and a byte. -/
structure Placed.Between (p : Placed) (lo hi : Nat) : Prop where
  fits : p.Fits
  lower : lo ≤ 8 * p.offset + p.low
  upper : p.offset + p.decl.size ≤ hi

/-- **Placing a field** takes the bits from the frontier on and moves the frontier past them. -/
theorem placeOne_spec {offset : Nat} {unit : Option (Nat × Nat)} {d : FieldDecl}
    (hvalid : d.Valid) (hown : ¬ SharesLarger unit d) (hopen : OpenUnit offset unit) :
    (placeOne offset unit d).1.decl = d
      ∧ (placeOne offset unit d).1.Between (frontier offset unit) (placeOne offset unit d).2.1
      ∧ 8 * (placeOne offset unit d).1.offset + (placeOne offset unit d).1.low + d.width
        ≤ frontier (placeOne offset unit d).2.1 (placeOne offset unit d).2.2
      ∧ OpenUnit (placeOne offset unit d).2.1 (placeOne offset unit d).2.2
      ∧ offset ≤ (placeOne offset unit d).2.1 := by
  have hle := frontier_le hopen
  -- a field in a unit of its own
  have hfresh : (⟨d, offset, 0⟩ : Placed).Between (frontier offset unit) (offset + d.size) :=
    ⟨⟨by show 0 + d.width ≤ _; rw [Nat.zero_add]; exact hvalid, fun _ => rfl⟩, hle, Nat.le_refl _⟩
  unfold FieldDecl.Valid at hvalid
  unfold placeOne
  split
  · rename_i hbits
    refine ⟨rfl, hfresh, ?_, trivial, Nat.le_add_right _ _⟩
    show 8 * offset + 0 + d.width ≤ 8 * (offset + d.size)
    omega
  · rename_i b hbits
    have hwidth : d.width = b := by rw [FieldDecl.width, hbits]; rfl
    refine ⟨rfl, hfresh, ?_, ⟨Nat.le_add_left _ _, by omega⟩, Nat.le_add_right _ _⟩
    show 8 * offset + 0 + d.width ≤ 8 * (offset + d.size - d.size) + b
    omega
  · rename_i b size used hbits
    have hwidth : d.width = b := by rw [FieldDecl.width, hbits]; rfl
    have hno : d.bits ≠ none := by rw [hbits]; exact Option.some_ne_none b
    obtain ⟨hsize, hused⟩ := hopen
    split
    · -- the open unit goes on; it is of the field's own type
      rename_i hroom
      have hsame : d.size = size := by
        refine Nat.le_antisymm hroom.1 (Nat.le_of_not_lt fun hlt => hown ?_)
        exact ⟨(size, used), rfl, b, hbits, hlt, hroom.2⟩
      subst hsame
      refine ⟨rfl, ⟨⟨?_, fun hn => absurd hn hno⟩, Nat.le_refl _, ?_⟩, ?_, ⟨hsize, hroom.2⟩,
        Nat.le_refl _⟩
      · show used + d.width ≤ 8 * d.size
        omega
      · show offset - d.size + d.size ≤ offset
        omega
      · show 8 * (offset - d.size) + used + d.width ≤ 8 * (offset - d.size) + (used + b)
        omega
    · split
      · -- the unit grows, and begins where it began
        rename_i hroom
        obtain ⟨hgrow, hroom⟩ := hroom
        refine ⟨rfl, ⟨⟨?_, fun hn => absurd hn hno⟩, Nat.le_refl _, ?_⟩, ?_, ⟨?_, hroom⟩,
          Nat.le_add_right _ _⟩
        · show used + d.width ≤ 8 * d.size
          omega
        · show offset - size + d.size ≤ offset + (d.size - size)
          omega
        · show 8 * (offset - size) + used + d.width
            ≤ 8 * (offset + (d.size - size) - d.size) + (used + b)
          omega
        · show d.size ≤ offset + (d.size - size)
          omega
      · refine ⟨rfl, hfresh, ?_, ⟨Nat.le_add_left _ _, by omega⟩, Nat.le_add_right _ _⟩
        show 8 * offset + 0 + d.width ≤ 8 * (offset + d.size - d.size) + b
        omega

/-- Every field of a packed layout lies behind the frontier, and before the end. -/
theorem place_between {offset : Nat} {unit : Option (Nat × Nat)} {ds : List FieldDecl}
    (hvalid : ∀ d ∈ ds, d.Valid) (hown : OwnUnits offset unit ds) (hopen : OpenUnit offset unit) :
    offset ≤ (place offset unit ds).2
      ∧ ∀ p ∈ (place offset unit ds).1, p.Between (frontier offset unit) (place offset unit ds).2 := by
  induction ds generalizing offset unit with
  | nil => exact ⟨Nat.le_refl _, fun p hp => absurd hp (by simp [place])⟩
  | cons d ds ih =>
      obtain ⟨hdecl, hone, hnext, hopen', hoff⟩ :=
        placeOne_spec (hvalid d List.mem_cons_self) hown.1 hopen
      obtain ⟨hend, hrest⟩ := ih (fun e he => hvalid e (List.mem_cons_of_mem _ he)) hown.2 hopen'
      rw [place_cons]
      refine ⟨Nat.le_trans hoff hend, fun p hp => ?_⟩
      rcases List.mem_cons.mp hp with rfl | hp
      · exact ⟨hone.fits, hone.lower, Nat.le_trans hone.upper hend⟩
      · have hp' := hrest p hp
        have hlower := hone.lower
        exact ⟨hp'.fits, by have := hp'.lower; omega, hp'.upper⟩

/-- **The fields of a packed layout do not overlap**: each ends where the next ones begin or before. -/
theorem place_pairwise {offset : Nat} {unit : Option (Nat × Nat)} {ds : List FieldDecl}
    (hvalid : ∀ d ∈ ds, d.Valid) (hown : OwnUnits offset unit ds) (hopen : OpenUnit offset unit) :
    (place offset unit ds).1.Pairwise fun p q =>
      8 * p.offset + p.low + p.decl.width ≤ 8 * q.offset + q.low := by
  induction ds generalizing offset unit with
  | nil => exact List.Pairwise.nil
  | cons d ds ih =>
      obtain ⟨hdecl, _, hnext, hopen', _⟩ :=
        placeOne_spec (hvalid d List.mem_cons_self) hown.1 hopen
      have hvalid' : ∀ e ∈ ds, e.Valid := fun e he => hvalid e (List.mem_cons_of_mem _ he)
      rw [place_cons]
      refine List.Pairwise.cons (fun q hq => ?_) (ih hvalid' hown.2 hopen')
      have hlower := ((place_between hvalid' hown.2 hopen').2 q hq).lower
      rw [hdecl]
      omega

/-- The placed fields are the declared ones, in order. -/
theorem map_decl_place (offset : Nat) (unit : Option (Nat × Nat)) (ds : List FieldDecl) :
    (place offset unit ds).1.map Placed.decl = ds := by
  induction ds generalizing offset unit with
  | nil => rfl
  | cons d ds ih =>
      have hdecl : (placeOne offset unit d).1.decl = d := by
        unfold placeOne
        split
        · rfl
        · rfl
        · split
          · rfl
          · split
            · rfl
            · rfl
      rw [place_cons, List.map_cons, hdecl, ih]

/-! ## Register classes and their objects -/

structure RegisterClass where
  name : String
  fields : List FieldDecl
  baseOffset : Option Nat := none
  valid : ∀ d ∈ fields, d.Valid

namespace RegisterClass

def placed (cls : RegisterClass) : List Placed := (place 0 none cls.fields).1

/-- `ctypes.sizeof`. -/
def size (cls : RegisterClass) : Nat := (place 0 none cls.fields).2

/-- No bit-field goes into the open unit of a larger type. -/
def OwnUnits (cls : RegisterClass) : Prop := LoneNvme.OwnUnits 0 none cls.fields

instance (cls : RegisterClass) : Decidable cls.OwnUnits :=
  inferInstanceAs (Decidable (LoneNvme.OwnUnits 0 none cls.fields))

def names (cls : RegisterClass) : List String := cls.fields.map FieldDecl.name

/-- The field an attribute is, if it is one; of two fields with one name it is the later. -/
def attr (cls : RegisterClass) (name : String) : Option Placed :=
  cls.placed.reverse.find? fun p => p.decl.name = name

end RegisterClass

/-- An object: its buffer, `_base_offset_` as seen through it, and its other attributes. -/
structure RegObject where
  buffer : List (BitVec 8)
  baseOffset : Option Nat := none
  dict : Dict String Int := Dict.empty

/-- `_access_`. The functions act on the state `σ` of what is behind them. -/
structure AccessData (σ : Type*) where
  getFunc : Option (σ → Nat → BitVec 8)
  setFunc : Option (σ → Nat → BitVec 8 → σ)
  setNotify : Option (σ → σ)

namespace AccessData

/-- No functions: the object's own memory is accessed. -/
def direct {σ : Type*} : AccessData σ := ⟨none, none, none⟩

/-- Functions backed by a plain byte memory. -/
def plain : AccessData Mem :=
  ⟨some fun m a => m a, some fun m a b => m.set a b, none⟩

end AccessData

namespace RegsStructAccess

variable {σ : Type*}

/-- `object.__setattr__`. -/
def objectSetattr (cls : RegisterClass) (obj : RegObject) (name : String) (value : Int) :
    RegObject :=
  match cls.attr name with
  | some p => { obj with buffer := p.set obj.buffer value }
  | none => { obj with dict := obj.dict.set name value }

/-- `object.__getattribute__`. -/
def objectGetattribute (cls : RegisterClass) (obj : RegObject) (name : String) : Except Exc Int :=
  match cls.attr name with
  | some p => .ok (p.get obj.buffer)
  | none =>
      match obj.dict.get? name with
      | some v => .ok v
      | none => .error (.attributeError (toString cls.name ++ " has no attribute " ++ name))

/-- `read_data`. -/
def readData (getFunc : σ → Nat → BitVec 8) (st : σ) (offset : Nat) : Nat → List (BitVec 8)
  | 0 => []
  | n + 1 => getFunc st offset :: readData getFunc st (offset + 1) n

/-- The loop that writes the bytes of an object back. -/
def writeData (setFunc : σ → Nat → BitVec 8 → σ) (st : σ) (offset : Nat) : List (BitVec 8) → σ
  | [] => st
  | b :: bs => writeData setFunc (setFunc st offset b) (offset + 1) bs

/-- `__setattr__`. -/
def setattr (cls : RegisterClass) (access : AccessData σ) (obj : RegObject) (st : σ)
    (name : String) (value : Int) : Except Exc (RegObject × σ) := do
  let (obj, st) ← match access.setFunc with
    | none => .ok (objectSetattr cls obj name value, st)
    | some setFunc =>
        if name ∉ cls.names then
          .ok (objectSetattr cls obj name value, st)
        else
          match obj.baseOffset, access.getFunc with
          | none, _ => .error (.custom "Exception" ("Trying to set " ++ name ++ " on " ++ cls.name
              ++ ", but offset is None!"))
          | some _, none => .error (.custom "TypeError" "'NoneType' object is not callable")
          | some offset, some getFunc =>
              let readObj := { obj with buffer := readData getFunc st offset cls.size }
              .ok (obj, writeData setFunc st offset (objectSetattr cls readObj name value).buffer)
  match access.setNotify with
  | none => .ok (obj, st)
  | some setNotify => .ok (obj, setNotify st)

/-- `__getattribute__`, of an integer field. -/
def getattribute (cls : RegisterClass) (access : AccessData σ) (obj : RegObject) (st : σ)
    (name : String) : Except Exc Int :=
  match access.getFunc with
  | none => objectGetattribute cls obj name
  | some getFunc =>
      if name ∉ cls.names then
        objectGetattribute cls obj name
      else
        match obj.baseOffset with
        | none => .error (.custom "Exception" ("Trying to get " ++ name ++ " on " ++ cls.name
            ++ ", but offset is None!"))
        | some offset =>
            objectGetattribute cls { obj with buffer := readData getFunc st offset cls.size } name

/-- A sequence of assignments. -/
def assignAll (cls : RegisterClass) (access : AccessData σ) :
    RegObject → σ → List (String × Int) → Except Exc (RegObject × σ)
  | obj, st, [] => .ok (obj, st)
  | obj, st, (name, value) :: rest => do
      let (obj, st) ← setattr cls access obj st name value
      assignAll cls access obj st rest

/-! ## Fields of an object -/

variable {cls : RegisterClass} {p q : Placed} {name : String}

theorem mem_placed_of_attr (h : cls.attr name = some p) : p ∈ cls.placed ∧ p.decl.name = name := by
  have hmem := List.mem_of_find?_eq_some h
  have hname := List.find?_some h
  exact ⟨List.mem_reverse.mp hmem, by simpa using hname⟩

theorem exists_attr (h : name ∈ cls.names) : ∃ p, cls.attr name = some p := by
  obtain ⟨d, hd, hname⟩ := List.mem_map.mp h
  rw [← map_decl_place 0 none cls.fields] at hd
  obtain ⟨p, hp, rfl⟩ := List.mem_map.mp hd
  cases hattr : cls.attr name with
  | some p => exact ⟨p, rfl⟩
  | none =>
      have hno := List.find?_eq_none.mp hattr p (List.mem_reverse.mpr hp)
      exact absurd hname (by simpa using hno)

theorem names_of_attr (h : cls.attr name = some p) : name ∈ cls.names := by
  obtain ⟨hp, hname⟩ := mem_placed_of_attr h
  refine List.mem_map.mpr ⟨p.decl, ?_, hname⟩
  rw [← map_decl_place 0 none cls.fields]
  exact List.mem_map.mpr ⟨p, hp, rfl⟩

/-- With distinct names every field is the attribute of its name. -/
theorem attr_of_distinct (hnames : cls.names.Nodup) {f : FieldDecl} (hf : f ∈ cls.fields) :
    ∃ p, cls.attr f.name = some p ∧ p.decl = f := by
  obtain ⟨p, hp⟩ := exists_attr (List.mem_map.mpr ⟨f, hf, rfl⟩)
  obtain ⟨hmem, hname⟩ := mem_placed_of_attr hp
  have hdecl : p.decl ∈ cls.fields := by
    rw [← map_decl_place 0 none cls.fields]
    exact List.mem_map.mpr ⟨p, hmem, rfl⟩
  exact ⟨p, hp, List.inj_on_of_nodup_map hnames hdecl hf hname⟩

theorem between_of_mem (hunits : cls.OwnUnits) (hp : p ∈ cls.placed) : p.Between 0 cls.size :=
  (place_between cls.valid hunits (show OpenUnit 0 none from trivial)).2 p hp

theorem within_of_mem (hunits : cls.OwnUnits) (hp : p ∈ cls.placed) {bs : List (BitVec 8)}
    (hlen : bs.length = cls.size) :
    (p.bitField (between_of_mem hunits hp).fits).Within bs.length := by
  rw [hlen]
  exact (between_of_mem hunits hp).upper

theorem disjoint_of_mem (hunits : cls.OwnUnits) (hp : p ∈ cls.placed) (hq : q ∈ cls.placed)
    (hne : p ≠ q) : BitField.Disjoint (p.bitField (between_of_mem hunits hp).fits)
      (q.bitField (between_of_mem hunits hq).fits) := by
  have hpair := place_pairwise cls.valid hunits (show OpenUnit 0 none from trivial)
  have hapart : cls.placed.Pairwise Placed.Apart := hpair.imp fun h => Or.inl h
  exact hapart.forall hp hq hne

section

variable {bs : List (BitVec 8)} {name' : String}

theorem length_set (hunits : cls.OwnUnits) (hp : cls.attr name = some p)
    (hlen : bs.length = cls.size) (v : Int) : (p.set bs v).length = bs.length := by
  have hmem := (mem_placed_of_attr hp).1
  rw [p.set_eq (between_of_mem hunits hmem).fits]
  exact BitField.length_set (within_of_mem hunits hmem hlen) v

theorem get_set_self (hunits : cls.OwnUnits) (hp : cls.attr name = some p)
    (hlen : bs.length = cls.size) (v : Int) :
    p.get (p.set bs v) = (v % 2 ^ p.decl.width).toNat := by
  have hmem := (mem_placed_of_attr hp).1
  have hfits := (between_of_mem hunits hmem).fits
  rw [p.set_eq hfits, p.get_eq hfits]
  exact BitField.get_set_self (within_of_mem hunits hmem hlen) v

theorem get_set_other (hunits : cls.OwnUnits) (hp : cls.attr name = some p)
    (hq : cls.attr name' = some q) (hne : name' ≠ name) (hlen : bs.length = cls.size) (v : Int) :
    q.get (p.set bs v) = q.get bs := by
  obtain ⟨hpmem, hpname⟩ := mem_placed_of_attr hp
  obtain ⟨hqmem, hqname⟩ := mem_placed_of_attr hq
  have hpq : p ≠ q := fun he => hne (by rw [← hpname, ← hqname, he])
  have hqfits := (between_of_mem hunits hqmem).fits
  rw [p.set_eq (between_of_mem hunits hpmem).fits, q.get_eq hqfits, q.get_eq hqfits]
  exact BitField.get_set_of_disjoint (within_of_mem hunits hpmem hlen)
    (disjoint_of_mem hunits hpmem hqmem hpq) v

end

/-! ## Indirect access to a plain memory -/

theorem readData_plain (m : Mem) (offset n : Nat) :
    readData (fun (m : Mem) a => m a) m offset n = m.load offset n := by
  induction n generalizing offset with
  | zero => rfl
  | succ n ih => rw [readData, ih, Mem.load_succ]

theorem writeData_plain (m : Mem) (offset : Nat) (bs : List (BitVec 8)) :
    writeData (fun (m : Mem) a b => m.set a b) m offset bs = m.store offset bs := by
  induction bs generalizing m offset with
  | nil => exact (Mem.store_nil m offset).symm
  | cons b bs ih => rw [writeData, ih, Mem.store_cons]

theorem buffer_objectSetattr (hp : cls.attr name = some p) (obj : RegObject) (v : Int) :
    (objectSetattr cls obj name v).buffer = p.set obj.buffer v := by
  rw [objectSetattr, hp]

/-- An attribute that is no field goes into the object's dictionary. -/
theorem buffer_objectSetattr_none {name : String} (hp : cls.attr name = none) (obj : RegObject)
    (v : Int) : (objectSetattr cls obj name v).buffer = obj.buffer := by
  rw [objectSetattr, hp]

/-- An assignment keeps the length, whether or not the name is a field. -/
theorem length_buffer_objectSetattr (hunits : cls.OwnUnits) {obj : RegObject}
    (hlen : obj.buffer.length = cls.size) (name : String) (v : Int) :
    (objectSetattr cls obj name v).buffer.length = cls.size := by
  cases hp : cls.attr name with
  | none =>
      rw [buffer_objectSetattr_none hp]
      exact hlen
  | some p => rw [buffer_objectSetattr hp, length_set hunits hp hlen, hlen]

/-- An assignment to one name keeps the fields with other names. -/
theorem get_objectSetattr_other (hunits : cls.OwnUnits) {obj : RegObject} {name' : String}
    (hlen : obj.buffer.length = cls.size) (hq : cls.attr name' = some q) (hne : name' ≠ name)
    (v : Int) : q.get (objectSetattr cls obj name v).buffer = q.get obj.buffer := by
  cases hp : cls.attr name with
  | none => rw [buffer_objectSetattr_none hp]
  | some p => rw [buffer_objectSetattr hp, get_set_other hunits hp hq hne hlen]

variable {obj : RegObject} {offset : Nat}

/-- **An indirect assignment** is the direct one on the bytes of the register. -/
theorem setattr_plain (ho : obj.baseOffset = some offset) (hp : cls.attr name = some p) (m : Mem)
    (v : Int) : setattr cls AccessData.plain obj m name v
      = .ok (obj, m.store offset (p.set (m.load offset cls.size) v)) := by
  unfold setattr AccessData.plain
  dsimp only
  rw [if_neg (not_not_intro (names_of_attr hp)), ho]
  dsimp only
  rw [readData_plain, buffer_objectSetattr hp, writeData_plain]
  rfl

/-- **An indirect read** is the direct one of the bytes of the register. -/
theorem getattribute_plain (ho : obj.baseOffset = some offset) (hp : cls.attr name = some p)
    (m : Mem) : getattribute cls AccessData.plain obj m name
      = .ok (p.get (m.load offset cls.size) : Int) := by
  unfold getattribute AccessData.plain
  dsimp only
  rw [if_neg (not_not_intro (names_of_attr hp)), ho]
  dsimp only
  rw [readData_plain, objectGetattribute, hp]

theorem setattr_direct {σ : Type*} (hp : cls.attr name = some p) (st : σ) (v : Int) :
    setattr cls AccessData.direct obj st name v
      = .ok ({ obj with buffer := p.set obj.buffer v }, st) := by
  unfold setattr AccessData.direct
  dsimp only
  rw [objectSetattr, hp]
  rfl

/-- What was written back is what the register then holds. -/
theorem load_store_set (hunits : cls.OwnUnits) (offset : Nat) (hp : cls.attr name = some p)
    (m : Mem) (v : Int) :
    (m.store offset (p.set (m.load offset cls.size) v)).load offset cls.size
      = p.set (m.load offset cls.size) v := by
  have hlen : (m.load offset cls.size).length = cls.size := Mem.length_load ..
  have hself := Mem.load_store_self m offset (p.set (m.load offset cls.size) v)
  rw [length_set hunits hp hlen, hlen] at hself
  exact hself

/-- **What an assignment to one field promises.** -/
structure PreciseWrite (cls : RegisterClass) (obj : RegObject) (offset : Nat) (m m' : Mem)
    (f : FieldDecl) (v : Int) : Prop where
  readsBack : getattribute cls AccessData.plain obj m' f.name = .ok (v % 2 ^ f.width)
  others : ∀ g ∈ cls.fields, g ≠ f → getattribute cls AccessData.plain obj m' g.name
    = getattribute cls AccessData.plain obj m g.name
  outside : ∀ a, a < offset ∨ offset + cls.size ≤ a → m' a = m a
  /-- The direct assignment gives the same bytes. -/
  direct : ∃ obj', setattr cls AccessData.direct { obj with buffer := m.load offset cls.size } m
    f.name v = .ok (obj', m) ∧ obj'.buffer = m'.load offset cls.size

theorem preciseWrite (hunits : cls.OwnUnits) (hnames : cls.names.Nodup)
    (ho : obj.baseOffset = some offset) (m : Mem) {f : FieldDecl} (hf : f ∈ cls.fields) (v : Int) :
    ∃ m', setattr cls AccessData.plain obj m f.name v = .ok (obj, m')
      ∧ PreciseWrite cls obj offset m m' f v := by
  obtain ⟨p, hp, rfl⟩ := attr_of_distinct hnames hf
  have hlen : (m.load offset cls.size).length = cls.size := Mem.length_load ..
  have hset := length_set hunits hp hlen v
  have hback := load_store_set hunits offset hp m v
  refine ⟨_, setattr_plain ho hp m v, ?_, ?_, ?_, ?_⟩
  · rw [getattribute_plain ho hp, hback, get_set_self hunits hp hlen,
      Int.toNat_of_nonneg (Int.emod_nonneg _ (by positivity))]
  · intro g hg hne
    obtain ⟨q, hq, rfl⟩ := attr_of_distinct hnames hg
    have hname : q.decl.name ≠ p.decl.name := fun he =>
      hne (List.inj_on_of_nodup_map hnames hg hf he)
    rw [getattribute_plain ho hq, getattribute_plain ho hq, hback, get_set_other hunits hp hq hname hlen]
  · intro a ha
    exact Mem.store_outside m (by rw [hset, hlen]; exact ha)
  · exact ⟨_, setattr_direct hp m v, hback.symm⟩

/-- Any assignments, through both paths, from the same bytes. -/
theorem assignAll_agree (hunits : cls.OwnUnits) (ho : obj.baseOffset = some offset)
    {assigns : List (String × Int)} (hassigns : ∀ a ∈ assigns, a.1 ∈ cls.names) (m : Mem) {own : RegObject}
    (hown : own.buffer = m.load offset cls.size) :
    ∃ m' own', assignAll cls AccessData.plain obj m assigns = .ok (obj, m')
      ∧ assignAll cls AccessData.direct own () assigns = .ok (own', ())
      ∧ own'.buffer = m'.load offset cls.size
      ∧ ∀ a, a < offset ∨ offset + cls.size ≤ a → m' a = m a := by
  induction assigns generalizing m own with
  | nil => exact ⟨m, own, rfl, rfl, hown, fun _ _ => rfl⟩
  | cons a rest ih =>
      obtain ⟨p, hp⟩ := exists_attr (hassigns a List.mem_cons_self)
      have hlen : (m.load offset cls.size).length = cls.size := Mem.length_load ..
      have hset := length_set hunits hp hlen a.2
      -- both paths have the same bytes after one assignment
      have hnext : ({ own with buffer := p.set own.buffer a.2 } : RegObject).buffer
          = (m.store offset (p.set (m.load offset cls.size) a.2)).load offset cls.size := by
        rw [load_store_set hunits _ hp, hown]
      obtain ⟨m', own', hplain, hdirect, hsame, houtside⟩ :=
        ih (fun b hb => hassigns b (List.mem_cons_of_mem _ hb)) _ hnext
      refine ⟨m', own', ?_, ?_, hsame, fun b hb => ?_⟩
      · rw [assignAll, setattr_plain ho hp]
        exact hplain
      · rw [assignAll, setattr_direct hp]
        exact hdirect
      · rw [houtside b hb]
        exact Mem.store_outside m (by rw [hset, hlen]; exact hb)

/--
**Indirect access is a precise read-modify-write** if no bit-field goes into the unit of a
larger type. One assignment changes its field and nothing else, and any sequence of them
does what it does on an object in memory.
-/
theorem indirect_precise (hunits : cls.OwnUnits) (hnames : cls.names.Nodup)
    (ho : obj.baseOffset = some offset) (m : Mem) :
    (∀ f ∈ cls.fields, ∀ v : Int, ∃ m', setattr cls AccessData.plain obj m f.name v = .ok (obj, m')
        ∧ PreciseWrite cls obj offset m m' f v)
      ∧ ∀ assigns : List (String × Int), (∀ a ∈ assigns, a.1 ∈ cls.names) →
          ∀ own : RegObject, own.buffer = m.load offset cls.size →
            ∃ m' own', assignAll cls AccessData.plain obj m assigns = .ok (obj, m')
              ∧ assignAll cls AccessData.direct own () assigns = .ok (own', ())
              ∧ own'.buffer = m'.load offset cls.size
              ∧ ∀ a, a < offset ∨ offset + cls.size ≤ a → m' a = m a :=
  ⟨fun _ hf v => preciseWrite hunits hnames ho m hf v,
    fun _ hassigns _ hown => assignAll_agree hunits ho hassigns m hown⟩

/-- A byte field, and then bit-fields that expand its neighbour's unit. -/
def expanded : RegisterClass where
  name := "Expanded"
  fields := [⟨"KIND", 1, none⟩, ⟨"LOW", 1, some 4⟩, ⟨"HIGH", 4, some 12⟩]
  baseOffset := some 4
  valid := by decide

theorem indirect_precise_expanded :
    ∃ m', setattr expanded AccessData.plain ⟨[], some 4, Dict.empty⟩ (fun _ => 0) "HIGH" (-1)
        = .ok (⟨[], some 4, Dict.empty⟩, m')
      ∧ PreciseWrite expanded ⟨[], some 4, Dict.empty⟩ 4 (fun _ => 0) m' ⟨"HIGH", 4, some 12⟩ (-1) :=
  (@indirect_precise expanded ⟨[], some 4, Dict.empty⟩ 4 (by decide) (by decide) rfl
    (fun _ => 0)).1 ⟨"HIGH", 4, some 12⟩ (by decide) (-1)

/-- A bit-field of two bytes in a unit of four, and one that lies on it. -/
def shared : RegisterClass where
  name := "Shared"
  fields := [⟨"A", 4, some 12⟩, ⟨"B", 2, some 4⟩, ⟨"C", 4, some 16⟩]
  valid := by decide

/-- Assigning `C` changes `B`. -/
theorem not_indirect_precise_shared : ¬ ∀ (cls : RegisterClass) (obj : RegObject) (offset : Nat)
    (m : Mem), cls.names.Nodup → obj.baseOffset = some offset → ∀ f ∈ cls.fields, ∀ v : Int,
      ∃ m', setattr cls AccessData.plain obj m f.name v = .ok (obj, m')
        ∧ PreciseWrite cls obj offset m m' f v := by
  intro hall
  obtain ⟨m', hset, hprecise⟩ := hall shared ⟨[], some 0, Dict.empty⟩ 0 (fun _ => 0) (by decide)
    rfl ⟨"C", 4, some 16⟩ (by decide) 0xF000
  have hother := hprecise.others ⟨"B", 2, some 4⟩ (by decide) (by decide)
  have hread : (setattr shared AccessData.plain ⟨[], some 0, Dict.empty⟩ (fun _ => 0) "C" 0xF000).bind
      (fun r => getattribute shared AccessData.plain r.1 r.2 "B") = .ok 15 := rfl
  rw [hset] at hread
  exact absurd (hread.symm.trans hother) (by decide)

end RegsStructAccess

end LoneNvme
