import LoneNvme.CapabilityWalk

/-!
# What the walk finds

A header of the standard list has an id of 8 bits and a next pointer of 8 bits, one of the
extended list an id of 16 bits and a next pointer of 12 bits. `init_capabilities` reads the
next pointer through the class that its table gives for the id. In the table of the
extended list the ids 0 and 2 have the class of standard headers, whose next pointer is the
upper byte of the id. So there the walk ends, whatever comes after.
-/

namespace LoneNvme

open Lib

namespace PCIeRegisters

open RegsStructAccess Capability

variable {m : Mem} {direct : Bool} {ptr : Nat} {chain : List Capability} {base ext : List Nat}

/-! ## Headers -/

def genericId (m : Mem) (ptr : Nat) : Nat := field m .gen ptr "CAP_ID"

def genericNext (m : Mem) (ptr : Nat) : Nat := field m .gen ptr "NEXT_PTR"

def extendedNext (m : Mem) (ptr : Nat) : Nat := field m .genExtended ptr "NEXT_PTR"

/-- The type of a standard id there is a class for. -/
def genericType : Nat → Option CapabilityType
  | 0x01 => some .powerManagementInterface
  | 0x05 => some .msi
  | 0x10 => some .express
  | 0x11 => some .msix
  | _ => none

/-- The type of an extended id there is a class for. -/
def extendedType : Nat → Option CapabilityType
  | 0x0001 => some .extendedAer
  | 0x0003 => some .extendeDeviceSerialNumber
  | _ => none

def genericKnown (m : Mem) (ptr : Nat) : Option Capability :=
  (genericType (genericId m ptr)).map fun t => ⟨t, ptr⟩

def extendedKnown (m : Mem) (ptr : Nat) : Option Capability :=
  (extendedType (extendedId m ptr)).map fun t => ⟨t, ptr⟩

/-! ### Fields as bits of the memory -/

theorem testBit_field {t : CapabilityType} {name : String} {p : Placed}
    (hp : t.flat.attr name = some p) (i : Nat) : (field m t ptr name).testBit i
      = (decide (i < p.decl.width) && m.bit (8 * ptr + (8 * p.offset + p.low + i))) := by
  obtain ⟨hmem, _⟩ := mem_placed_of_attr hp
  have hbetween := between_of_mem t.ownUnits_flat hmem
  have hwithin : (p.bitField hbetween.fits).Within t.flat.size := hbetween.upper
  unfold field
  rw [hp]
  dsimp only
  rw [p.get_eq hbetween.fits]
  exact BitField.testBit_get_load hwithin i

/-- Fields at the same place are the same, whatever the type. -/
theorem field_congr {t t' : CapabilityType} {name : String} {p : Placed}
    (hp : t.flat.attr name = some p) (hp' : t'.flat.attr name = some p) :
    field m t ptr name = field m t' ptr name := by
  refine Nat.eq_of_testBit_eq fun i => ?_
  rw [testBit_field hp, testBit_field hp']

/-- The next pointer of a standard header is the upper byte of the id of an extended one. -/
theorem genericNext_eq (m : Mem) (ptr : Nat) : genericNext m ptr = extendedId m ptr / 2 ^ 8 := by
  have hnext : CapabilityType.gen.flat.attr "NEXT_PTR" = some ⟨⟨"NEXT_PTR", 1, none⟩, 1, 0⟩ := rfl
  have hid : CapabilityType.genExtended.flat.attr "CAP_ID"
      = some ⟨⟨"CAP_ID", 4, some 16⟩, 0, 0⟩ := rfl
  refine Nat.eq_of_testBit_eq fun i => ?_
  rw [Nat.testBit_div_two_pow, genericNext, extendedId, testBit_field hnext, testBit_field hid]
  show (decide (i < 8) && m.bit (8 * ptr + (8 * 1 + 0 + i)))
    = (decide (i + 8 < 16) && m.bit (8 * ptr + (8 * 0 + 0 + (i + 8))))
  rw [show 8 * 1 + 0 + i = 8 * 0 + 0 + (i + 8) by omega,
    decide_eq_decide.mpr (show i < 8 ↔ i + 8 < 16 by omega)]

/-! ### The tables -/

theorem pcieCapabilityIdTable_get {id : Nat} (h : id < 256) :
    pcieCapabilityIdTable[id]? = some ((genericType id).getD .gen) := by
  have htable : pcieCapabilityIdTable = (List.range 256).map fun id => (genericType id).getD .gen := by
    decide +kernel
  rw [htable, List.getElem?_map, List.getElem?_range h]
  rfl

/-- The class an extended id gets: the slots of 0 and 2 hold that of standard headers. -/
def extendedClass (id : Nat) : CapabilityType :=
  if id = 0 ∨ id = 2 then .gen else (extendedType id).getD .genExtended

theorem pcieCapabilityExtIdTable_get {id : Nat} (h : id < 255) :
    pcieCapabilityExtIdTable[id]? = some (extendedClass id) := by
  have htable : pcieCapabilityExtIdTable = (List.range 255).map extendedClass := by decide +kernel
  rw [htable, List.getElem?_map, List.getElem?_range h]
  rfl

theorem genericType_ne {id : Nat} {t : CapabilityType} (h : genericType id = some t) :
    ¬ (t = .gen ∨ t = .genExtended) := by
  unfold genericType at h
  split at h <;> simp_all <;> subst h <;> decide

theorem extendedType_ne {id : Nat} {t : CapabilityType} (h : extendedType id = some t) :
    ¬ (t = .gen ∨ t = .genExtended) := by
  unfold extendedType at h
  split at h <;> simp_all <;> subst h <;> decide

theorem typeAt_generic (hptr : ptr < 0x100) :
    typeAt m ptr = some ((genericType (genericId m ptr)).getD .gen) := by
  have hid : genericId m ptr < 256 := Placed.get_lt ⟨⟨"CAP_ID", 1, none⟩, 0, 0⟩ _
  unfold typeAt
  rw [if_pos hptr]
  exact pcieCapabilityIdTable_get hid

theorem typeAt_extended (hptr : 0x100 ≤ ptr) (hid : extendedId m ptr < 255) :
    typeAt m ptr = some (extendedClass (extendedId m ptr)) := by
  unfold typeAt
  rw [if_neg (Nat.not_lt.mpr hptr)]
  exact pcieCapabilityExtIdTable_get hid

/-! ### One header -/

theorem field_nextPtr_generic (m : Mem) (ptr id : Nat) :
    field m ((genericType id).getD .gen) ptr "NEXT_PTR" = genericNext m ptr := by
  unfold genericType
  split <;> exact field_congr rfl rfl

/-- A class of extended headers finds the next pointer. -/
theorem field_nextPtr_extended {id : Nat} (h : ¬ (id = 0 ∨ id = 2)) (m : Mem) (ptr : Nat) :
    field m (extendedClass id) ptr "NEXT_PTR" = extendedNext m ptr := by
  unfold extendedClass
  rw [if_neg h]
  unfold extendedType
  split <;> exact field_congr rfl rfl

/-- The class of standard headers finds a null. -/
theorem field_nextPtr_short {id : Nat} (h : id = 0 ∨ id = 2) (hid : extendedId m ptr = id) :
    field m (extendedClass id) ptr "NEXT_PTR" = 0 := by
  unfold extendedClass
  rw [if_pos h]
  show genericNext m ptr = 0
  rw [genericNext_eq, hid]
  rcases h with rfl | rfl <;> rfl

theorem listed_generic (m : Mem) (ptr : Nat) :
    listed [⟨(genericType (genericId m ptr)).getD .gen, ptr⟩] = (genericKnown m ptr).toList := by
  unfold genericKnown
  cases ht : genericType (genericId m ptr) with
  | none => rfl
  | some t => exact List.filter_cons_of_pos (decide_eq_true (genericType_ne ht))

theorem listed_extended {ptr : Nat} (h : ¬ (extendedId m ptr = 0 ∨ extendedId m ptr = 2)) :
    listed [⟨extendedClass (extendedId m ptr), ptr⟩] = (extendedKnown m ptr).toList := by
  unfold extendedKnown extendedClass
  rw [if_neg h]
  cases ht : extendedType (extendedId m ptr) with
  | none => rfl
  | some t => exact List.filter_cons_of_pos (decide_eq_true (extendedType_ne ht))

/-! ## The lists -/

/-- **The standard list** is walked to its end, and the known ones are listed. -/
theorem chain_generic (h : Links.Path (genericNext m) 0 ptr base) (hlow : ∀ p ∈ base, p < 0x100) :
    ∃ chain, Chain m ptr chain ∧ listed chain = base.filterMap (genericKnown m) := by
  induction h with
  | nil => exact ⟨[], .nil, rfl⟩
  | @cons ptr rest hptr _ ih =>
      obtain ⟨chain, hchain, hlisted⟩ := ih fun p hp => hlow p (List.mem_cons_of_mem _ hp)
      rw [← field_nextPtr_generic m ptr (genericId m ptr)] at hchain
      refine ⟨_, .cons hptr (typeAt_generic (hlow ptr List.mem_cons_self)) hchain, ?_⟩
      rw [← List.singleton_append, listed, List.filter_append, ← listed, ← listed, listed_generic,
        hlisted, List.filterMap_cons]
      cases genericKnown m ptr <;> rfl

/-- The table gives the extended header the class of standard ones. -/
def shortHeader (m : Mem) (ptr : Nat) : Bool :=
  decide (extendedId m ptr = 0 ∨ extendedId m ptr = 2)

/-- The headers that the walk gets to, but for the short one it ends at. -/
def reached (m : Mem) (ext : List Nat) : List Nat := ext.takeWhile fun p => !shortHeader m p

def unreached (m : Mem) (ext : List Nat) : List Nat := ext.dropWhile fun p => !shortHeader m p

/-- **The extended list** is walked up to the first short header. -/
theorem chain_extended (h : Links.Path (extendedNext m) 0 ptr ext) (hhigh : ∀ p ∈ ext, 0x100 ≤ p)
    (hid : ∀ p ∈ reached m ext, extendedId m p < 255) :
    ∃ chain, Chain m ptr chain ∧ listed chain = (reached m ext).filterMap (extendedKnown m) := by
  induction h with
  | nil => exact ⟨[], .nil, rfl⟩
  | @cons ptr rest hptr _ ih =>
      have hge := hhigh ptr List.mem_cons_self
      by_cases hshort : extendedId m ptr = 0 ∨ extendedId m ptr = 2
      · -- the walk ends here
        have hlt : extendedId m ptr < 255 := by omega
        have hend : Chain m (field m (extendedClass (extendedId m ptr)) ptr "NEXT_PTR") [] := by
          rw [field_nextPtr_short hshort rfl]
          exact .nil
        refine ⟨_, .cons hptr (typeAt_extended hge hlt) hend, ?_⟩
        -- ids 0 and 2 are read with the generic class, which has no next pointer
        have hnone : reached m (ptr :: rest) = [] :=
          List.takeWhile_cons_of_neg (by simp [shortHeader, hshort])
        rw [hnone, extendedClass, if_pos hshort]
        rfl
      · have hcons : reached m (ptr :: rest) = ptr :: reached m rest :=
          List.takeWhile_cons_of_pos (by simp [shortHeader, hshort])
        rw [hcons] at hid ⊢
        obtain ⟨chain, hchain, hlisted⟩ := ih (fun p hp => hhigh p (List.mem_cons_of_mem _ hp))
          fun p hp => hid p (List.mem_cons_of_mem _ hp)
        rw [← field_nextPtr_extended hshort] at hchain
        refine ⟨_, .cons hptr (typeAt_extended hge (hid ptr List.mem_cons_self)) hchain, ?_⟩
        rw [← List.singleton_append, listed, List.filter_append, ← listed, ← listed,
          listed_extended hshort, hlisted, List.filterMap_cons]
        cases extendedKnown m ptr <;> rfl

/-- A walk that ends met no id that is not in the table. -/
theorem reached_of_chain (h : Links.Path (extendedNext m) 0 ptr ext) (hhigh : ∀ p ∈ ext, 0x100 ≤ p)
    (hchain : Chain m ptr chain) : ∀ p ∈ reached m ext, extendedId m p < 255 := by
  induction h generalizing chain with
  | nil => exact fun p hp => absurd hp List.not_mem_nil
  | @cons ptr rest hptr _ ih =>
      cases hchain with
      | nil => exact absurd rfl hptr
      | @cons _ t chain _ ht hrest =>
          have hge := hhigh ptr List.mem_cons_self
          have hlt : extendedId m ptr < 255 := exists_typeAt_iff.mp ⟨t, ht⟩ hge
          rw [typeAt_extended hge hlt] at ht
          rw [← Option.some.inj ht] at hrest
          by_cases hshort : extendedId m ptr = 0 ∨ extendedId m ptr = 2
          · have hnone : reached m (ptr :: rest) = [] :=
              List.takeWhile_cons_of_neg (by simp [shortHeader, hshort])
            rw [hnone]
            exact fun p hp => absurd hp List.not_mem_nil
          · have hcons : reached m (ptr :: rest) = ptr :: reached m rest :=
              List.takeWhile_cons_of_pos (by simp [shortHeader, hshort])
            rw [field_nextPtr_extended hshort] at hrest
            rw [hcons]
            exact List.forall_mem_cons.mpr
              ⟨hlt, ih (fun p hp => hhigh p (List.mem_cons_of_mem _ hp)) hrest⟩

/-! ## Discovery -/

/-- `init_capabilities` returns, and `capabilities` are the known ones of both lists, in order. -/
def Discovers (direct : Bool) (m : Mem) (base ext : List Nat) : Prop :=
  ∃ fuel w, initCapabilities fuel direct m = some (.ok w)
    ∧ w.capabilities = base.filterMap (genericKnown m) ++ ext.filterMap (extendedKnown m)

/-- Up to the first short header all ids are in the table; from there on no id is known. -/
structure NothingLost (m : Mem) (ext : List Nat) : Prop where
  inTable : ∀ p ∈ reached m ext, extendedId m p < 255
  unknown : ∀ p ∈ unreached m ext, extendedKnown m p = none

instance (m : Mem) (ext : List Nat) : Decidable (NothingLost m ext) :=
  decidable_of_iff ((∀ p ∈ reached m ext, extendedId m p < 255)
      ∧ ∀ p ∈ unreached m ext, extendedKnown m p = none)
    ⟨fun ⟨h₁, h₂⟩ => ⟨h₁, h₂⟩, fun ⟨h₁, h₂⟩ => ⟨h₁, h₂⟩⟩

/--
**When discovery misses nothing**: exactly if no extended header with a known id comes
after one with id 0 or 2, and the ids before that one are below 255.

Slots 0 and 2 of the extended table hold the standard class, so the next pointer of such a
header is read from the upper byte of its id. That byte is 0, and the walk ends there.
-/
theorem discovers_iff (direct : Bool) (m : Mem) (base ext : List Nat)
    (hbase : Links.Path (genericNext m) 0 (cpAt m) base) (hlow : ∀ p ∈ base, p < 0x100)
    (hext : Links.Path (extendedNext m) 0 0x100 ext) (hhigh : ∀ p ∈ ext, 0x100 ≤ p) :
    Discovers direct m base ext ↔ NothingLost m ext := by
  obtain ⟨chain, hchain, hlisted⟩ := chain_generic hbase hlow
  have hsplit : ext.filterMap (extendedKnown m) = (reached m ext).filterMap (extendedKnown m)
      ++ (unreached m ext).filterMap (extendedKnown m) := by
    rw [← List.filterMap_append, reached, unreached, List.takeWhile_append_dropWhile]
  -- what is returned, where all ids are in the table
  have hfound : (∀ p ∈ reached m ext, extendedId m p < 255) → ∀ fuel w,
      initCapabilities fuel direct m = some (.ok w) → w.capabilities
        = base.filterMap (genericKnown m) ++ (reached m ext).filterMap (extendedKnown m) := by
    intro hid fuel w hw
    obtain ⟨chain', hchain', hlisted'⟩ := chain_extended hext hhigh hid
    rw [initCapabilities_eq hchain hchain'] at hw
    split at hw
    · rw [← Except.ok.inj (Option.some.inj hw), ← hlisted, ← hlisted', listed, listed,
        ← List.filter_append]
      rfl
    · exact absurd hw (by simp)
  constructor
  · rintro ⟨fuel, w, hw, hcapabilities⟩
    obtain ⟨chain', hchain'⟩ := (chains_of_returns hw).2
    have hid := reached_of_chain hext hhigh hchain'
    rw [hfound hid fuel w hw, hsplit, ← List.append_assoc] at hcapabilities
    have hnone := List.self_eq_append_right.mp hcapabilities
    exact ⟨hid, List.filterMap_eq_nil_iff.mp hnone⟩
  · rintro ⟨hid, hunknown⟩
    obtain ⟨chain', hchain', _⟩ := chain_extended hext hhigh hid
    have hreturns := @initCapabilities_eq m direct _ _ hchain hchain' (chain.length + chain'.length)
    rw [if_pos ⟨Nat.le_add_right _ _, Nat.le_add_left _ _⟩] at hreturns
    refine ⟨_, _, hreturns, ?_⟩
    rw [hfound hid _ _ hreturns, hsplit, List.filterMap_eq_nil_iff.mpr hunknown, List.append_nil]

/-- Power management and MSI-X; error reporting, an extended capability of id `id`, serial number. -/
def mixed (id : BitVec 8) : Mem :=
  contents [(0x34, 0x40), (0x40, 1), (0x41, 0x50), (0x50, 0x11),
    (0x100, 1), (0x102, 0x80), (0x103, 0x14), (0x148, id), (0x14B, 0x16), (0x160, 3)]

theorem path_mixed : Links.Path (genericNext (mixed 0x19)) 0 (cpAt (mixed 0x19)) [0x40, 0x50]
    ∧ Links.Path (extendedNext (mixed 0x19)) 0 0x100 [0x100, 0x148, 0x160] :=
  ⟨.cons (by decide) (.cons (by decide) .nil),
    .cons (by decide) (.cons (by decide) (.cons (by decide) .nil))⟩

/-- An id without a class does no harm. -/
theorem discovers_iff_mixed : Discovers false (mixed 0x19) [0x40, 0x50] [0x100, 0x148, 0x160] :=
  (discovers_iff false (mixed 0x19) _ _ path_mixed.1 (by decide) path_mixed.2 (by decide)).mpr
    (by decide)

/-- Behind a virtual channel capability, id 2, the serial number is lost. -/
theorem not_discovers_virtualChannel : ¬ ∀ (direct : Bool) (m : Mem) (base ext : List Nat),
    Links.Path (genericNext m) 0 (cpAt m) base → (∀ p ∈ base, p < 0x100) →
    Links.Path (extendedNext m) 0 0x100 ext → (∀ p ∈ ext, 0x100 ≤ p) →
    Discovers direct m base ext := by
  intro hall
  have hbase : Links.Path (genericNext (mixed 2)) 0 (cpAt (mixed 2)) [0x40, 0x50] :=
    .cons (by decide) (.cons (by decide) .nil)
  have hext : Links.Path (extendedNext (mixed 2)) 0 0x100 [0x100, 0x148, 0x160] :=
    .cons (by decide) (.cons (by decide) (.cons (by decide) .nil))
  have hchain : Chain (mixed 2) 0x100 [⟨.extendedAer, 0x100⟩, ⟨.gen, 0x148⟩] :=
    .cons (by decide) (by decide) (chain_last (by decide) (by decide) (by decide))
  obtain ⟨chain, hbaseChain, hlisted⟩ := @chain_generic (mixed 2) _ _ hbase (by decide)
  obtain ⟨fuel, w, hw, hcapabilities⟩ :=
    hall true (mixed 2) _ _ hbase (by decide) hext (by decide)
  rw [initCapabilities_eq hbaseChain hchain] at hw
  split at hw
  · rw [← Except.ok.inj (Option.some.inj hw)] at hcapabilities
    have hlength := congrArg List.length hcapabilities
    rw [Walk.after, listed, List.filter_append, ← listed, hlisted] at hlength
    change ([0x40, 0x50].filterMap (genericKnown (mixed 2))
        ++ listed [⟨.extendedAer, 0x100⟩, ⟨.gen, 0x148⟩]).length
      = ([0x40, 0x50].filterMap (genericKnown (mixed 2))
        ++ [0x100, 0x148, 0x160].filterMap (extendedKnown (mixed 2))).length at hlength
    exact absurd hlength (by decide)
  · exact absurd hw (by simp)

end PCIeRegisters

end LoneNvme
