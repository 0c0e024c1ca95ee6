import LoneNvme.CapabilityDiscovery

/-!
# Laying out the simulator's capabilities

`init_pcie_capabilities` copies capability objects into the configuration space one after
the other, each pointing to the next, first the standard ones from 0x40 on, then the
extended ones. For these the pointers start at 0x100, but the address goes on where the
standard ones ended. So the walk finds them exactly if that is 0x100.

One object after the other is copied, so what was laid out before must stay (`LaidList.congr`)
while the pointer to the next one is filled in. The walk of `init_capabilities` then sees the
chain that the layout meant, with the same fields in every object, where the addresses are
right.
-/

namespace LoneNvme

open Lib

/-- `_cap_id_`. -/
def CapabilityType.capId : CapabilityType → Option Nat
  | gen => none
  | powerManagementInterface => some 0x01
  | msi => some 0x05
  | msix => some 0x11
  | express => some 0x10
  | genExtended => none
  | extendedAer => some 0x0001
  | extendeDeviceSerialNumber => some 0x0003

/-- Whether the base class is `PCICapabilityExt`. -/
def CapabilityType.extended : CapabilityType → Bool
  | genExtended => true
  | extendedAer => true
  | extendeDeviceSerialNumber => true
  | _ => false

/-- The field of the capability that has the value, or has the register that does. -/
def FieldPath.top : FieldPath → String
  | own name => name
  | nested reg _ => reg

/-- A capability object on its own: the bytes of its structure, or of one that begins with it. -/
structure CapabilityObject where
  type : CapabilityType
  bytes : List (BitVec 8)
  size_le : type.flat.size ≤ bytes.length

namespace CapabilityObject

/-- `ctypes.sizeof`. -/
def size (c : CapabilityObject) : Nat := c.bytes.length

/-- Read a field of the object. -/
def get (c : CapabilityObject) (path : FieldPath) : Except Exc Int :=
  Capability.getDirect ((PCIeRegisters.contents []).store 0 c.bytes) ⟨c.type, 0⟩ path

def sizes (caps : List CapabilityObject) : Nat := (caps.map size).sum

end CapabilityObject

namespace PCIeRegisters

open RegsStructAccess Capability CapabilityObject

/-- The variables of the two loops: `next_ptr`, `next_addr` as an offset, and `c`. -/
structure Layout where
  mem : Mem
  nextPtr : Nat
  nextAddr : Nat
  last : Option Capability := none

/-- One turn of a loop. -/
def layOne (extended : Bool) (s : Layout) (cap : CapabilityObject) : Except Exc Layout := do
  assertThat (cap.type.extended == extended) ""
  let c : Capability := ⟨cap.type, s.nextAddr⟩
  let capId ←
    match cap.type.capId with
    | some capId => .ok capId
    | none => .error (.custom "TypeError" "int expected instead of NoneType instance")
  let m ← setDirect (s.mem.store s.nextAddr cap.bytes) c capId (.own "CAP_ID")
  let nextPtr := s.nextPtr + cap.size
  let m ← setDirect m c nextPtr (.own "NEXT_PTR")
  return { mem := m, nextPtr, nextAddr := s.nextAddr + cap.size, last := some c }

/-- Terminate the list. -/
def terminate (s : Layout) : Except Exc Layout := do
  match s.last with
  | none => .error (.unboundLocalError "local variable 'c' referenced before assignment")
  | some c =>
      let m ← setDirect s.mem c 0 (.own "NEXT_PTR")
      return { s with mem := m }

/-- A loop and the end of its list. -/
def layOut (extended : Bool) (caps : List CapabilityObject) (s : Layout) : Except Exc Layout := do
  let s ← caps.foldlM (layOne extended) s
  terminate s

/-- `self.pcie_regs.CAP.CP = value`. -/
def setCapPointer (m : Mem) (value : Int) : Except Exc Mem :=
  match nvmePCIeRegisters.attr "CAP" with
  | none => .error (.attributeError "CAP")
  | some p => do
      let (obj, _) ← setattr cap AccessData.direct (objectAt m p.offset cap.size) () "CP" value
      return m.store p.offset obj.buffer

/-- `init_pcie_capabilities` up to `init_capabilities`. `CAPS.offset` is 0x40. -/
def initPcieCapabilities (standard extended : List CapabilityObject) (m : Mem) : Except Exc Mem := do
  let m ← setCapPointer m 0x40
  let s ← layOut false standard { mem := m, nextPtr := 0x40, nextAddr := 0x40 }
  let s ← layOut true extended { s with nextPtr := 0x100 }
  return s.mem

variable {m m' : Mem} {a a' : Nat} {t : CapabilityType} {cap : CapabilityObject}

/-! ## Assigning to one field -/

theorem setDirect_own {name : String} {p : Placed} (hp : t.flat.attr name = some p) (v : Int) :
    setDirect m ⟨t, a⟩ v (.own name)
      = .ok (m.store a (p.set (m.load a t.flat.size) v)) := by
  unfold setDirect
  dsimp only
  rw [setattr_direct hp]
  rfl

/-- The bits of one field. -/
def InField (p : Placed) (i : Nat) : Prop :=
  8 * p.offset + p.low ≤ i ∧ i < 8 * p.offset + p.low + p.decl.width

/-- An assignment replaces the bits of its field. -/
theorem bit_assigned {name : String} {p : Placed} (hp : t.flat.attr name = some p) (v : Int) {i : Nat}
    (hi : ¬ InField p i) : (m.store a (p.set (m.load a t.flat.size) v)).bit (8 * a + i)
      = m.bit (8 * a + i) := by
  have hbetween := between_of_mem t.ownUnits_flat (mem_placed_of_attr hp).1
  have hwithin : (p.bitField hbetween.fits).Within t.flat.size := hbetween.upper
  rw [p.set_eq hbetween.fits, BitField.bit_store_set hwithin, if_neg]
  unfold InField at hi
  unfold BitField.stop BitField.start Placed.bitField
  dsimp only
  omega

theorem field_assigned {name : String} {p : Placed} (hp : t.flat.attr name = some p) (v : Int) :
    field (m.store a (p.set (m.load a t.flat.size) v)) t a name = (v % 2 ^ p.decl.width).toNat := by
  unfold field
  rw [hp]
  dsimp only
  rw [load_store_set t.ownUnits_flat a hp, get_set_self t.ownUnits_flat hp (Mem.length_load ..)]

theorem field_assigned_other {name name' : String} {p : Placed} (hp : t.flat.attr name = some p)
    (hne : name' ≠ name) (v : Int) :
    field (m.store a (p.set (m.load a t.flat.size) v)) t a name' = field m t a name' := by
  unfold field
  cases hq : t.flat.attr name' with
  | none => rfl
  | some q =>
      dsimp only
      rw [load_store_set t.ownUnits_flat a hp,
        get_set_other t.ownUnits_flat hp hq hne (Mem.length_load ..)]

theorem outside_assigned {name : String} {p : Placed} (hp : t.flat.attr name = some p) (v : Int)
    {n x : Nat} (hn : t.flat.size ≤ n) (hx : x < a ∨ a + n ≤ x) :
    m.store a (p.set (m.load a t.flat.size) v) x = m x := by
  have hlen := length_set t.ownUnits_flat hp
    (show (m.load a t.flat.size).length = _ from Mem.length_load ..) v
  refine Mem.store_outside m ?_
  rw [hlen, Mem.length_load]
  omega

/-- A register in a capability takes all the bits of its class. -/
theorem register_decl {r : String × RegisterClass} (hr : r ∈ t.registers) {p : Placed}
    (hp : t.flat.attr r.1 = some p) : p.decl.bits = none ∧ p.decl.size = r.2.size := by
  have hall : ∀ r ∈ t.registers, (t.flat.attr r.1).all
      fun p => decide (p.decl.bits = none ∧ p.decl.size = r.2.size) := by
    cases t <;> decide
  have hdecl := hall r hr
  rw [hp] at hdecl
  exact of_decide_eq_true hdecl

/-- A field of a class read at two places shows the bits it has there. -/
theorem get_load_congr {cls : RegisterClass} (hunits : cls.OwnUnits) {name : String} {p : Placed}
    (hp : cls.attr name = some p) (h : ∀ i < p.decl.width,
      m.bit (8 * a + (8 * p.offset + p.low + i)) = m'.bit (8 * a' + (8 * p.offset + p.low + i))) :
    p.get (m.load a cls.size) = p.get (m'.load a' cls.size) := by
  have hbetween := between_of_mem hunits (mem_placed_of_attr hp).1
  have hwithin : (p.bitField hbetween.fits).Within cls.size := hbetween.upper
  refine Nat.eq_of_testBit_eq fun i => ?_
  rw [p.get_eq hbetween.fits, p.get_eq hbetween.fits, BitField.testBit_get_load hwithin,
    BitField.testBit_get_load hwithin]
  by_cases hi : i < p.decl.width
  · exact congrArg (decide (i < p.decl.width) && ·) (h i hi)
  · rw [decide_eq_false (show ¬ i < (p.bitField hbetween.fits).width from hi)]
    rfl

/-- **What a read sees**: the bits of the field that it is, or is in. -/
theorem getDirect_congr {path : FieldPath} (hpath : path ∈ t.paths) {p : Placed}
    (hp : t.flat.attr path.top = some p)
    (h : ∀ i, InField p i → m.bit (8 * a + i) = m'.bit (8 * a' + i)) :
    getDirect m ⟨t, a⟩ path = getDirect m' ⟨t, a'⟩ path := by
  cases path with
  | own name =>
      have hsame : p.get (m.load a t.flat.size) = p.get (m'.load a' t.flat.size) :=
        get_load_congr t.ownUnits_flat hp fun i hi => h _ ⟨Nat.le_add_right _ _, Nat.add_lt_add_left hi _⟩
      have hname : t.flat.attr name = some p := hp
      unfold getDirect
      dsimp only
      rw [getattribute_direct hname, getattribute_direct hname]
      exact congrArg (fun n : Nat => (Except.ok (n : Int) : Except Exc Int)) hsame
  | nested reg name =>
      obtain ⟨r, hr, rfl, hname⟩ := CapabilityType.nested_mem_paths.mp hpath
      obtain ⟨p', q, hf, _⟩ := @nestedField ⟨t, a⟩ r hr name hname
      have hf' : NestedField ⟨t, a'⟩ r name p' q := ⟨hf.whole, hf.copy, hf.field⟩
      have hpp : p' = p := by
        obtain ⟨p₁, hp₁, hwhole⟩ := Option.bind_eq_some_iff.mp hf.whole
        obtain ⟨cls, _, hpair⟩ := Option.bind_eq_some_iff.mp hwhole
        rw [← (Prod.mk.inj (Option.some.inj hpair)).1]
        exact Option.some.inj (hp₁.symm.trans hp)
      subst hpp
      -- the register is whole bytes, so its fields lie in the bits of the outer field
      obtain ⟨hbits, hsize⟩ := register_decl hr hp
      have hrunits := t.ownUnits_of_mem hr
      have hq := between_of_mem hrunits (mem_placed_of_attr hf.field).1
      have hqfits := hq.fits.1
      have hqupper : q.offset + q.decl.size ≤ r.2.size := hq.upper
      have hlow : p'.low = 0 :=
        (between_of_mem t.ownUnits_flat (mem_placed_of_attr hp).1).fits.2 hbits
      have hwidth : p'.decl.width = 8 * r.2.size := by
        rw [FieldDecl.width, hbits, hsize]
        rfl
      rw [getDirect_nested hf, getDirect_nested hf']
      have hsame : q.get (m.load (a + p'.offset) r.2.size)
          = q.get (m'.load (a' + p'.offset) r.2.size) := by
        refine get_load_congr hrunits hf.field fun i hi => ?_
        have hbit := h (8 * p'.offset + (8 * q.offset + q.low + i)) (by unfold InField; omega)
        rw [← Nat.add_assoc, ← Nat.add_assoc (8 * a'), ← Nat.mul_add, ← Nat.mul_add] at hbit
        exact hbit
      exact congrArg (fun n : Nat => (Except.ok (n : Int) : Except Exc Int)) hsame

/-! ## A capability laid out -/

/-- The fields but the header's two have the values of the object. -/
def Copied (m : Mem) (a : Nat) (cap : CapabilityObject) : Prop :=
  ∀ path ∈ cap.type.paths, path.top ≠ "CAP_ID" → path.top ≠ "NEXT_PTR" →
    getDirect m ⟨cap.type, a⟩ path = cap.get path

/-- The capability lies at `a`, with its id, and points to `next`. -/
structure Laid (m : Mem) (a : Nat) (cap : CapabilityObject) (next : Nat) : Prop where
  id : cap.type.capId = some (field m cap.type a "CAP_ID")
  next : field m cap.type a "NEXT_PTR" = next
  copied : Copied m a cap

variable {next : Nat}

theorem attr_top {path : FieldPath} (hpath : path ∈ t.paths) : ∃ p, t.flat.attr path.top = some p := by
  cases path with
  | own name => exact exists_attr (CapabilityType.own_mem_paths.mp hpath)
  | nested reg name =>
      obtain ⟨r, hr, rfl, _⟩ := CapabilityType.nested_mem_paths.mp hpath
      exact exists_attr (t.mem_names_of_mem hr)

theorem inField_lt {name : String} {p : Placed} (hp : t.flat.attr name = some p) {i : Nat}
    (hi : InField p i) : i < 8 * t.flat.size := by
  have hbetween := between_of_mem t.ownUnits_flat (mem_placed_of_attr hp).1
  have hfits := hbetween.fits.1
  have hupper : p.offset + p.decl.size ≤ t.flat.size := hbetween.upper
  unfold InField at hi
  omega

theorem copied_store (m : Mem) (a : Nat) (cap : CapabilityObject) :
    Copied (m.store a cap.bytes) a cap := by
  intro path hpath _ _
  obtain ⟨p, hp⟩ := attr_top hpath
  refine getDirect_congr hpath hp fun i hi => ?_
  have hlt := inField_lt hp hi
  have hle := cap.size_le
  rw [Mem.bit_store, Mem.bit_store, if_pos (by omega), if_pos (by omega), Nat.add_sub_cancel_left,
    Nat.add_sub_cancel_left]

theorem Copied.assigned (h : Copied m a cap) {name : String}
    (hname : name = "CAP_ID" ∨ name = "NEXT_PTR") {p : Placed} (hp : cap.type.flat.attr name = some p)
    (v : Int) : Copied (m.store a (p.set (m.load a cap.type.flat.size) v)) a cap := by
  intro path hpath hid hnext
  obtain ⟨q, hq⟩ := attr_top hpath
  rw [← h path hpath hid hnext]
  refine getDirect_congr hpath hq fun i hi => bit_assigned hp v fun hin => ?_
  -- the header's fields are apart from the others
  obtain ⟨hpmem, hpname⟩ := mem_placed_of_attr hp
  obtain ⟨hqmem, hqname⟩ := mem_placed_of_attr hq
  have hne : p ≠ q := by
    rintro rfl
    rcases hname with rfl | rfl
    · exact hid (hqname.symm.trans hpname)
    · exact hnext (hqname.symm.trans hpname)
  have hapart := disjoint_of_mem cap.type.ownUnits_flat hpmem hqmem hne
  unfold BitField.Disjoint BitField.stop BitField.start Placed.bitField at hapart
  unfold InField at hi hin
  dsimp only at hapart
  omega

/-- Only its own bytes count. -/
theorem Laid.congr (h : Laid m a cap next) (hm : ∀ x, a ≤ x → x < a + cap.size → m' x = m x) :
    Laid m' a cap next := by
  have hle : cap.type.flat.size ≤ cap.size := cap.size_le
  have hload : m'.load a cap.type.flat.size = m.load a cap.type.flat.size :=
    Mem.load_congr fun k hk => hm (a + k) (Nat.le_add_right _ _) (by omega)
  have hfield : ∀ name, field m' cap.type a name = field m cap.type a name := by
    intro name
    unfold field
    rw [hload]
  refine ⟨?_, (hfield _).trans h.next, fun path hpath hid hnext => ?_⟩
  · rw [hfield]
    exact h.id
  · obtain ⟨p, hp⟩ := attr_top hpath
    rw [← h.copied path hpath hid hnext]
    refine getDirect_congr hpath hp fun i hi => ?_
    have hlt := inField_lt hp hi
    rw [Mem.bit_add, Mem.bit_add, hm _ (Nat.le_add_right _ _) (by omega)]

/-- Where the header of a standard or an extended capability has the id. -/
def headerId : Bool → Placed
  | false => ⟨⟨"CAP_ID", 1, none⟩, 0, 0⟩
  | true => ⟨⟨"CAP_ID", 4, some 16⟩, 0, 0⟩

/-- Where it has the next pointer. -/
def headerNext : Bool → Placed
  | false => ⟨⟨"NEXT_PTR", 1, none⟩, 1, 0⟩
  | true => ⟨⟨"NEXT_PTR", 4, some 12⟩, 0, 20⟩

theorem attr_capId (t : CapabilityType) : t.flat.attr "CAP_ID" = some (headerId t.extended) := by
  cases t <;> rfl

theorem attr_nextPtr (t : CapabilityType) : t.flat.attr "NEXT_PTR" = some (headerNext t.extended) := by
  cases t <;> rfl

/-- The ids fit. -/
theorem capId_lt {id : Nat} (hid : t.capId = some id) : id < 2 ^ (headerId t.extended).decl.width := by
  cases t <;> cases hid <;> decide

theorem Laid.terminated (h : Laid m a cap next) :
    ∃ m', setDirect m ⟨cap.type, a⟩ 0 (.own "NEXT_PTR") = .ok m' ∧ Laid m' a cap 0
      ∧ ∀ x, x < a ∨ a + cap.size ≤ x → m' x = m x := by
  have hq := attr_nextPtr cap.type
  refine ⟨_, setDirect_own hq 0, ⟨?_, ?_, h.copied.assigned (Or.inr rfl) hq 0⟩,
    fun x hx => outside_assigned hq 0 cap.size_le hx⟩
  · rw [field_assigned_other hq (by decide)]
    exact h.id
  · rw [field_assigned hq, Int.zero_emod]
    rfl

/-- **One turn** lays the capability out, pointing right behind it as far as the pointer goes. -/
theorem layOne_laid {extended : Bool} (hext : cap.type.extended = extended)
    (hid : cap.type.capId ≠ none) (s : Layout) :
    ∃ m', layOne extended s cap = .ok { mem := m', nextPtr := s.nextPtr + cap.size
                                        nextAddr := s.nextAddr + cap.size
                                        last := some ⟨cap.type, s.nextAddr⟩ }
      ∧ Laid m' s.nextAddr cap ((s.nextPtr + cap.size) % 2 ^ (headerNext extended).decl.width)
      ∧ ∀ x, x < s.nextAddr ∨ s.nextAddr + cap.size ≤ x → m' x = s.mem x := by
  subst hext
  obtain ⟨id, hcapId⟩ := Option.ne_none_iff_exists'.mp hid
  have hp := attr_capId cap.type
  have hq := attr_nextPtr cap.type
  generalize hplace : headerId cap.type.extended = p at hp
  -- first the bytes of the object, then its id, then its link
  have hcopied := (copied_store s.mem s.nextAddr cap).assigned (Or.inl rfl) hp id
  generalize hm₁ : (s.mem.store s.nextAddr cap.bytes).store s.nextAddr
    (p.set ((s.mem.store s.nextAddr cap.bytes).load s.nextAddr cap.type.flat.size) id) = m₁ at hcopied
  have hset : setDirect (s.mem.store s.nextAddr cap.bytes) ⟨cap.type, s.nextAddr⟩ id
      (.own "CAP_ID") = .ok m₁ := by
    rw [setDirect_own hp, hm₁]
  refine ⟨_, ?_, ⟨?_, ?_, hcopied.assigned (Or.inr rfl) hq ((s.nextPtr + cap.size : Nat) : Int)⟩,
    fun x hx => ?_⟩
  · unfold layOne
    rw [beq_self_eq_true, hcapId]
    show (do
      let m ← setDirect (s.mem.store s.nextAddr cap.bytes) ⟨cap.type, s.nextAddr⟩ id (.own "CAP_ID")
      let m ← setDirect m ⟨cap.type, s.nextAddr⟩ ((s.nextPtr + cap.size : Nat) : Int)
        (.own "NEXT_PTR")
      return { mem := m, nextPtr := s.nextPtr + cap.size, nextAddr := s.nextAddr + cap.size,
               last := some ⟨cap.type, s.nextAddr⟩ } : Except Exc Layout) = _
    rw [hset]
    show (do
      let m ← setDirect m₁ ⟨cap.type, s.nextAddr⟩ ((s.nextPtr + cap.size : Nat) : Int)
        (.own "NEXT_PTR")
      return { mem := m, nextPtr := s.nextPtr + cap.size, nextAddr := s.nextAddr + cap.size,
               last := some ⟨cap.type, s.nextAddr⟩ } : Except Exc Layout) = _
    rw [setDirect_own hq]
    rfl
  · rw [field_assigned_other hq (by decide), ← hm₁, field_assigned hp, hcapId]
    have hmod : ((id : Int) % 2 ^ p.decl.width).toNat = id % 2 ^ p.decl.width := by
      exact_mod_cast rfl
    rw [hmod, Nat.mod_eq_of_lt (hplace ▸ capId_lt hcapId)]
  · rw [field_assigned hq]
    exact_mod_cast rfl
  · rw [outside_assigned hq _ cap.size_le hx, ← hm₁, outside_assigned hp _ cap.size_le hx]
    exact Mem.store_outside _ hx

/-! ## A list laid out -/

/-- Laid out from `a` on, with pointers that go on from `ptr`, the last one null. -/
def LaidList (m : Mem) : Nat → Nat → List CapabilityObject → Prop
  | _, _, [] => True
  | a, _, [cap] => Laid m a cap 0
  | a, ptr, cap :: next :: rest =>
      Laid m a cap (ptr + cap.size) ∧ LaidList m (a + cap.size) (ptr + cap.size) (next :: rest)

theorem size_pos (cap : CapabilityObject) : 0 < cap.size := by
  have hpos : 0 < cap.type.flat.size := by cases cap.type <;> decide
  exact Nat.lt_of_lt_of_le hpos cap.size_le

theorem sizes_cons (cap : CapabilityObject) (caps : List CapabilityObject) :
    sizes (cap :: caps) = cap.size + sizes caps := rfl

theorem layOut_cons {extended : Bool} {caps : List CapabilityObject} {s s₁ : Layout}
    (h : layOne extended s cap = .ok s₁) :
    layOut extended (cap :: caps) s = layOut extended caps s₁ := by
  unfold layOut
  rw [List.foldlM_cons, h]
  rfl

/-- **A loop lays all of its list out**, and nothing else. -/
theorem layOut_laid {extended : Bool} {caps : List CapabilityObject} (hne : caps ≠ [])
    (hkind : ∀ cap ∈ caps, cap.type.extended = extended ∧ cap.type.capId ≠ none) (s : Layout)
    (hfits : s.nextPtr + sizes caps ≤ 2 ^ (headerNext extended).decl.width) :
    ∃ s', layOut extended caps s = .ok s' ∧ LaidList s'.mem s.nextAddr s.nextPtr caps
      ∧ s'.nextAddr = s.nextAddr + sizes caps
      ∧ ∀ x, x < s.nextAddr ∨ s.nextAddr + sizes caps ≤ x → s'.mem x = s.mem x := by
  induction caps generalizing s with
  | nil => exact absurd rfl hne
  | cons cap caps ih =>
      obtain ⟨hext, hid⟩ := hkind cap List.mem_cons_self
      obtain ⟨m₁, hone, hlaid, hframe⟩ := layOne_laid hext hid s
      rw [layOut_cons hone]
      rw [sizes_cons] at hfits ⊢
      cases caps with
      | nil =>
          -- the last one: its pointer is taken back
          obtain ⟨m₂, hset, hlaid₂, hframe₂⟩ := hlaid.terminated
          refine ⟨{ mem := m₂, nextPtr := s.nextPtr + cap.size, nextAddr := s.nextAddr + cap.size
                    last := some ⟨cap.type, s.nextAddr⟩ }, ?_, hlaid₂, rfl, fun x hx => ?_⟩
          · unfold layOut
            rw [List.foldlM_nil]
            show (do
              let m ← setDirect m₁ ⟨cap.type, s.nextAddr⟩ 0 (.own "NEXT_PTR")
              return { mem := m, nextPtr := s.nextPtr + cap.size, nextAddr := s.nextAddr + cap.size,
                       last := some ⟨cap.type, s.nextAddr⟩ } : Except Exc Layout) = _
            rw [hset]
            rfl
          · exact (hframe₂ x hx).trans (hframe x hx)
      | cons next rest =>
          have hpos := size_pos next
          obtain ⟨s', hrest, hlist, haddr, hframe'⟩ := ih (List.cons_ne_nil _ _)
            (fun c hc => hkind c (List.mem_cons_of_mem _ hc))
            { mem := m₁, nextPtr := s.nextPtr + cap.size, nextAddr := s.nextAddr + cap.size
              last := some ⟨cap.type, s.nextAddr⟩ } (by dsimp only; omega)
          dsimp only at hlist haddr hframe'
          rw [sizes_cons] at hfits
          rw [Nat.mod_eq_of_lt (by omega)] at hlaid
          refine ⟨s', hrest, ⟨hlaid.congr fun x _ hx => hframe' x (Or.inl hx), hlist⟩, ?_, fun x hx => ?_⟩
          · rw [haddr, Nat.add_assoc]
          · rw [hframe' x (by omega), hframe x (by omega)]

/-- The objects of a list and where each of them lies. -/
def places : Nat → List CapabilityObject → List (CapabilityObject × Nat)
  | _, [] => []
  | a, cap :: caps => (cap, a) :: places (a + cap.size) caps

/-- What the walk should list for an object. -/
def found (c : CapabilityObject × Nat) : Capability := ⟨c.1.type, c.2⟩

theorem listed_places {caps : List CapabilityObject} (h : ∀ cap ∈ caps, cap.type.capId ≠ none)
    (a : Nat) : listed ((places a caps).map found) = (places a caps).map found := by
  induction caps generalizing a with
  | nil => rfl
  | cons cap caps ih =>
      have hid := h cap List.mem_cons_self
      have hkeep : ¬ (cap.type = .gen ∨ cap.type = .genExtended) := by
        rintro (he | he) <;> exact hid (by rw [he]; rfl)
      have hcons : listed (⟨cap.type, a⟩ :: (places (a + cap.size) caps).map found)
          = ⟨cap.type, a⟩ :: listed ((places (a + cap.size) caps).map found) :=
        List.filter_cons_of_pos (decide_eq_true hkeep)
      rw [places, List.map_cons]
      exact hcons.trans (congrArg _ (ih (fun c hc => h c (List.mem_cons_of_mem _ hc)) _))

/-- Every object of the list has its fields. -/
theorem LaidList.copied {caps : List CapabilityObject} {ptr : Nat} (h : LaidList m a ptr caps) :
    ∀ c ∈ places a caps, Copied m c.2 c.1 := by
  induction caps generalizing a ptr with
  | nil => exact fun c hc => absurd hc List.not_mem_nil
  | cons cap caps ih =>
      cases caps with
      | nil =>
          have hlaid : Laid m a cap 0 := h
          intro c hc
          rw [List.mem_singleton.mp hc]
          exact hlaid.copied
      | cons next rest =>
          obtain ⟨hlaid, hlist⟩ := h
          exact List.forall_mem_cons.mpr ⟨hlaid.copied, ih hlist⟩

theorem LaidList.congr {caps : List CapabilityObject} {ptr : Nat} (h : LaidList m a ptr caps)
    (hm : ∀ x, a ≤ x → x < a + sizes caps → m' x = m x) : LaidList m' a ptr caps := by
  induction caps generalizing a ptr with
  | nil => exact trivial
  | cons cap caps ih =>
      rw [sizes_cons] at hm
      cases caps with
      | nil =>
          have hlaid : Laid m a cap 0 := h
          exact hlaid.congr fun x hx hlt => hm x hx (by omega)
      | cons next rest =>
          obtain ⟨hlaid, hlist⟩ := h
          exact ⟨hlaid.congr fun x hx hlt => hm x hx (by omega),
            ih hlist fun x hx hlt => hm x (by omega) (by omega)⟩

theorem genericType_capId {id : Nat} (hext : t.extended = false) (hid : t.capId = some id) :
    genericType id = some t := by
  cases t <;> first | (cases hext; done) | (cases hid; rfl) | cases hid

theorem extendedClass_capId {id : Nat} (hext : t.extended = true) (hid : t.capId = some id) :
    extendedClass id = t ∧ id < 255 := by
  cases t <;> first | (cases hext; done) | (cases hid; exact ⟨rfl, by decide⟩) | cases hid

/-- The tables give a type its own id back. -/
theorem typeAt_laid (h : Laid m a cap next)
    (hplace : if cap.type.extended then 0x100 ≤ a else a < 0x100) : typeAt m a = some cap.type := by
  have hid := h.id
  have hplaced := attr_capId cap.type
  cases hext : cap.type.extended with
  | false =>
      rw [hext] at hplace hplaced
      rw [← @field_congr m a .gen cap.type "CAP_ID" _ rfl hplaced] at hid
      have htype := genericType_capId hext hid
      rw [typeAt_generic (show a < 0x100 from hplace), genericId, htype]
      rfl
  | true =>
      rw [hext] at hplace hplaced
      rw [← @field_congr m a .genExtended cap.type "CAP_ID" _ rfl hplaced] at hid
      obtain ⟨htype, hlt⟩ := extendedClass_capId hext hid
      rw [typeAt_extended (show 0x100 ≤ a from hplace) hlt, extendedId, htype]

/-- **A list laid out where its pointers lead** is walked. -/
theorem LaidList.chain {extended : Bool} {caps : List CapabilityObject}
    (hext : ∀ cap ∈ caps, cap.type.extended = extended) (hne : caps ≠ []) {a : Nat} (ha : a ≠ 0)
    (hplace : if extended then 0x100 ≤ a else a + sizes caps ≤ 0x100) (h : LaidList m a a caps) :
    Chain m a ((places a caps).map found) := by
  induction caps generalizing a with
  | nil => exact absurd rfl hne
  | cons cap caps ih =>
      have hkind := hext cap List.mem_cons_self
      have hpos := size_pos cap
      rw [sizes_cons] at hplace
      -- where a capability lies decides which of the two headers is read there
      have hhere : if cap.type.extended then 0x100 ≤ a else a < 0x100 := by
        rw [hkind]
        cases extended with
        | false => exact show a < 0x100 by simp at hplace; omega
        | true => exact hplace
      cases caps with
      | nil =>
          have hlaid : Laid m a cap 0 := h
          refine .cons ha (typeAt_laid hlaid hhere) ?_
          rw [hlaid.next]
          exact .nil
      | cons next rest =>
          obtain ⟨hlaid, hlist⟩ := h
          refine .cons ha (typeAt_laid hlaid hhere) ?_
          rw [hlaid.next]
          refine ih (fun c hc => hext c (List.mem_cons_of_mem _ hc)) (List.cons_ne_nil _ _)
            (by omega) ?_ hlist
          cases extended with
          | false => exact show a + cap.size + sizes (next :: rest) ≤ 0x100 by simp at hplace; omega
          | true => exact show 0x100 ≤ a + cap.size by simp at hplace; omega

/-! ## The round trip -/

/-- `init_capabilities` finds what was laid out: the same list, each with the fields it had. -/
structure FindsLaidOut (m : Mem) (laid : List (CapabilityObject × Nat)) : Prop where
  capabilities : ∃ fuel w, initCapabilities fuel true m = some (.ok w)
    ∧ w.capabilities = laid.map found
  copied : ∀ c ∈ laid, Copied m c.2 c.1

/-- The layout returns and is read back. The second loop goes on where the first one stopped. -/
def RoundTrips (m : Mem) (standard extended : List CapabilityObject) : Prop :=
  ∃ m', initPcieCapabilities standard extended m = .ok m'
    ∧ FindsLaidOut m' (places 0x40 standard ++ places (0x40 + sizes standard) extended)

theorem setCapPointer_ok (m : Mem) :
    ∃ m', setCapPointer m 0x40 = .ok m' ∧ cpAt m' = 0x40 := by
  obtain ⟨p, hp, hoff⟩ : ∃ p, nvmePCIeRegisters.attr "CAP" = some p ∧ p.offset = 0x34 := by
    exact ⟨_, rfl, by decide⟩
  have hcp : cap.attr "CP" = some ⟨⟨"CP", 1, none⟩, 0, 0⟩ := rfl
  refine ⟨m.store 0x34 ((⟨⟨"CP", 1, none⟩, 0, 0⟩ : Placed).set (m.load 0x34 cap.size) 0x40), ?_, ?_⟩
  · unfold setCapPointer
    rw [hp]
    dsimp only
    rw [setattr_direct hcp, hoff]
    rfl
  · unfold cpAt
    have hbyte := @Mem.store_inside m 0x34 0
      ((⟨⟨"CP", 1, none⟩, 0, 0⟩ : Placed).set (m.load 0x34 cap.size) 0x40) Nat.zero_lt_one
    exact congrArg BitVec.toNat hbyte

/-- A list holds what the contents say. -/
theorem Chain.typeAt_of_mem {chain : List Capability} {ptr : Nat} (h : Chain m ptr chain) :
    ∀ c ∈ chain, typeAt m c.offset = some c.type := by
  induction h with
  | nil => exact fun c hc => absurd hc List.not_mem_nil
  | cons _ ht _ ih => exact List.forall_mem_cons.mpr ⟨ht, ih⟩

/-- Below 0x100 nothing extended is found. -/
theorem extended_eq_false (hptr : a < 0x100) (ht : typeAt m a = some t) : t.extended = false := by
  rw [typeAt_generic hptr] at ht
  rw [← Option.some.inj ht]
  unfold genericType
  split <;> rfl

variable {standard extended : List CapabilityObject}

/-- **Where the addresses meet**, everything is found. -/
theorem roundTrips_of_meet (m : Mem)
    (hstd : ∀ cap ∈ standard, cap.type.extended = false ∧ cap.type.capId ≠ none)
    (hext : ∀ cap ∈ extended, cap.type.extended = true ∧ cap.type.capId ≠ none) (hne : extended ≠ [])
    (hfits : 0x100 + sizes extended ≤ 0x1000) (hmeet : 0x40 + sizes standard = 0x100) :
    RoundTrips m standard extended := by
  obtain ⟨m₀, hset, hcp⟩ := setCapPointer_ok m
  have hstdNe : standard ≠ [] := by
    rintro rfl
    exact absurd hmeet (by decide)
  obtain ⟨s₁, hlay₁, hlist₁, haddr₁, hframe₁⟩ := layOut_laid hstdNe hstd
    { mem := m₀, nextPtr := 0x40, nextAddr := 0x40 } (Nat.le_of_eq hmeet)
  dsimp only at hlist₁ haddr₁ hframe₁
  -- the second loop starts where the first one stopped, which is 0x100
  obtain ⟨s₂, hlay₂, hlist₂, _, hframe₂⟩ := layOut_laid hne hext { s₁ with nextPtr := 0x100 } hfits
  dsimp only at hlist₂ hframe₂
  rw [haddr₁, hmeet] at hlist₂ hframe₂
  -- it writes above, so the standard list and its pointer stay
  have hstill : LaidList s₂.mem 0x40 0x40 standard :=
    hlist₁.congr fun x _ hx => hframe₂ x (Or.inl (by omega))
  have hpointer : cpAt s₂.mem = 0x40 := by
    have hbyte : s₂.mem 0x34 = m₀ 0x34 := by
      rw [hframe₂ 0x34 (Or.inl (by omega)), hframe₁ 0x34 (Or.inl (by omega))]
    unfold cpAt at hcp ⊢
    rw [hbyte, hcp]
  have hbase : Chain s₂.mem (cpAt s₂.mem) ((places 0x40 standard).map found) := by
    rw [hpointer]
    exact @LaidList.chain _ false standard (fun c hc => (hstd c hc).1) hstdNe 0x40 (by decide)
      (Nat.le_of_eq hmeet) hstill
  have hchain : Chain s₂.mem 0x100 ((places 0x100 extended).map found) :=
    @LaidList.chain _ true extended (fun c hc => (hext c hc).1) hne 0x100 (by decide)
      (Nat.le_refl _) hlist₂
  have hreturns := @initCapabilities_eq _ true _ _ hbase hchain
    (((places 0x40 standard).map found).length + ((places 0x100 extended).map found).length)
  rw [if_pos ⟨Nat.le_add_right _ _, Nat.le_add_left _ _⟩] at hreturns
  refine ⟨s₂.mem, ?_, ⟨_, _, hreturns, ?_⟩, fun c hc => ?_⟩
  · unfold initPcieCapabilities
    rw [hset]
    show (do
      let s ← layOut false standard { mem := m₀, nextPtr := 0x40, nextAddr := 0x40 }
      let s ← layOut true extended { s with nextPtr := 0x100 }
      return s.mem : Except Exc Mem) = _
    rw [hlay₁]
    show (do
      let s ← layOut true extended { s₁ with nextPtr := 0x100 }
      return s.mem : Except Exc Mem) = _
    rw [hlay₂]
    rfl
  · show [] ++ listed _ = _
    rw [List.nil_append, listed, List.filter_append, ← listed, ← listed,
      listed_places (fun c hc => (hstd c hc).2), listed_places (fun c hc => (hext c hc).2), hmeet,
      List.map_append]
  · rw [hmeet] at hc
    rcases List.mem_append.mp hc with hc | hc
    · exact hstill.copied c hc
    · exact hlist₂.copied c hc

/-- An extended capability that is found is where extended ones are looked for. -/
theorem meet_of_roundTrips
    (hext : ∀ cap ∈ extended, cap.type.extended = true ∧ cap.type.capId ≠ none) (hne : extended ≠ [])
    (hlow : 0x40 + sizes standard ≤ 0x100) (h : RoundTrips m standard extended) :
    0x40 + sizes standard = 0x100 := by
  obtain ⟨m', _, hfinds⟩ := h
  obtain ⟨fuel, w, hw, hcapabilities⟩ := hfinds.capabilities
  obtain ⟨⟨base, hbase⟩, ⟨chain, hchain⟩⟩ := chains_of_returns hw
  obtain ⟨first, rest, rfl⟩ := List.exists_cons_of_ne_nil hne
  -- the first extended capability is listed where it was put
  have hlisted : (⟨first.type, 0x40 + sizes standard⟩ : Capability) ∈ w.capabilities := by
    rw [hcapabilities]
    exact List.mem_map.mpr ⟨(first, 0x40 + sizes standard),
      List.mem_append_right _ List.mem_cons_self, rfl⟩
  rw [initCapabilities_eq hbase hchain] at hw
  split at hw
  · rw [← Except.ok.inj (Option.some.inj hw)] at hlisted
    have hmem : (⟨first.type, 0x40 + sizes standard⟩ : Capability) ∈ base ++ chain :=
      (List.mem_filter.mp (show _ ∈ listed (base ++ chain) from hlisted)).1
    have htype : typeAt m' (0x40 + sizes standard) = some first.type :=
      (List.mem_append.mp hmem).elim (hbase.typeAt_of_mem _) (hchain.typeAt_of_mem _)
    by_contra hne'
    have hfalse := extended_eq_false (by omega) htype
    rw [(hext first List.mem_cons_self).1] at hfalse
    exact absurd hfalse (by decide)
  · exact absurd hw (by simp)

/--
**When the layout is read back**: exactly if the standard capabilities fill the space up to
0x100, so that the extended ones get where their pointers lead.

The pointers of the extended list start at 0x100. What is copied goes on where the standard
list ended, and the walk finds what was there before.
-/
theorem layout_roundTrips_iff (m : Mem) (standard extended : List CapabilityObject)
    (hstd : ∀ cap ∈ standard, cap.type.extended = false ∧ cap.type.capId ≠ none)
    (hext : ∀ cap ∈ extended, cap.type.extended = true ∧ cap.type.capId ≠ none) (hne : extended ≠ [])
    (hlow : 0x40 + sizes standard ≤ 0x100) (hfits : 0x100 + sizes extended ≤ 0x1000) :
    RoundTrips m standard extended ↔ 0x40 + sizes standard = 0x100 :=
  ⟨meet_of_roundTrips hext hne hlow, roundTrips_of_meet m hstd hext hne hfits⟩

/-- An object that is its structure, all zero. -/
def zeroObject (t : CapabilityType) : CapabilityObject :=
  ⟨t, List.replicate t.flat.size 0, (List.length_replicate).ge⟩

/-- Sixteen interrupt tables fill the space up to 0x100. -/
theorem roundTrips_filled : RoundTrips (contents []) (List.replicate 16 (zeroObject .msix))
    [zeroObject .extendeDeviceSerialNumber] := by
  refine (layout_roundTrips_iff (contents []) _ _ (fun cap hcap => ?_) (fun cap hcap => ?_)
    (List.cons_ne_nil _ _) (by decide) (by decide)).mpr (by decide)
  · rw [List.eq_of_mem_replicate hcap]
    exact ⟨rfl, by decide⟩
  · rw [List.mem_singleton.mp hcap]
    exact ⟨rfl, by decide⟩

/-- The capabilities of the simulator. -/
def simulatorStandard : List CapabilityObject :=
  [.powerManagementInterface, .msi, .express, .msix].map zeroObject

/-- Its extended capabilities. -/
def simulatorExtended : List CapabilityObject :=
  [.extendedAer, .extendeDeviceSerialNumber].map zeroObject

/-- The simulator's standard capabilities end at 0x84. -/
theorem not_roundTrips_simulator : ¬ ∀ (m : Mem) (standard extended : List CapabilityObject),
    (∀ cap ∈ standard, cap.type.extended = false ∧ cap.type.capId ≠ none) →
    (∀ cap ∈ extended, cap.type.extended = true ∧ cap.type.capId ≠ none) → extended ≠ [] →
    0x40 + sizes standard ≤ 0x100 → 0x100 + sizes extended ≤ 0x1000 →
    RoundTrips m standard extended := by
  intro h
  have hstd : ∀ cap ∈ simulatorStandard, cap.type.extended = false ∧ cap.type.capId ≠ none := by
    intro cap hcap
    obtain ⟨t, ht, rfl⟩ := List.mem_map.mp hcap
    exact (show ∀ t ∈ [CapabilityType.powerManagementInterface, .msi, .express, .msix],
      t.extended = false ∧ t.capId ≠ none by decide) t ht
  have hext : ∀ cap ∈ simulatorExtended, cap.type.extended = true ∧ cap.type.capId ≠ none := by
    intro cap hcap
    obtain ⟨t, ht, rfl⟩ := List.mem_map.mp hcap
    exact (show ∀ t ∈ [CapabilityType.extendedAer, .extendeDeviceSerialNumber],
      t.extended = true ∧ t.capId ≠ none by decide) t ht
  have hends : 0x40 + sizes simulatorStandard = 0x84 := by decide
  have hround := h (contents []) simulatorStandard simulatorExtended hstd hext (by decide)
    (hends ▸ by decide) (by decide)
  have hmeet := meet_of_roundTrips hext (by decide) (hends ▸ by decide) hround
  exact absurd (hends.symm.trans hmeet) (by decide)

end PCIeRegisters

end LoneNvme
