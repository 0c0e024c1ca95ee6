import LoneNvme.CapabilityDiscovery

/-!
# When both ways of access agree

Direct access finds a nested register in the capability it is in, indirect access through
the offset of its class. So they agree exactly if every class has the offset of the one
capability that uses it: `set_offsets` must have assigned all classes of each capability, and
no later capability of the type may have assigned them again. The capabilities that count
are those that the walk comes to, of lists that the bytes give.
-/

namespace LoneNvme

open Lib

namespace PCIeRegisters

variable {m : Mem} {ptr : Nat} {chain : List Capability} {base ext : List Nat}

/-- The known capabilities that the walk comes to. -/
def seen (m : Mem) (base ext : List Nat) : List Capability :=
  base.filterMap (genericKnown m) ++ (reached m ext).filterMap (extendedKnown m)

/-- No id is beyond its table, and every nested register has an offset of its own. -/
structure Accessible (m : Mem) (base ext : List Nat) : Prop where
  inTable : ∀ p ∈ reached m ext, extendedId m p < 255
  /-- `set_offsets` of the others assigns all nested classes. -/
  complete : ∀ c ∈ seen m base ext, c.type ≠ .msi ∧ c.type ≠ .extendedAer
  single : ∀ c ∈ seen m base ext, ∀ c' ∈ seen m base ext, c.type = c'.type →
    c.type.registers ≠ [] → c = c'

instance (m : Mem) (base ext : List Nat) : Decidable (Accessible m base ext) :=
  decidable_of_iff ((∀ p ∈ reached m ext, extendedId m p < 255)
      ∧ (∀ c ∈ seen m base ext, c.type ≠ .msi ∧ c.type ≠ .extendedAer)
      ∧ ∀ c ∈ seen m base ext, ∀ c' ∈ seen m base ext, c.type = c'.type →
          c.type.registers ≠ [] → c = c')
    ⟨fun ⟨h₁, h₂, h₃⟩ => ⟨h₁, h₂, h₃⟩, fun ⟨h₁, h₂, h₃⟩ => ⟨h₁, h₂, h₃⟩⟩

/-- A header of an unknown type has no nested register. -/
theorem registers_of_not_listed {c : Capability} (hc : c ∈ chain) (hnot : c ∉ listed chain) :
    (c.type ≠ .msi ∧ c.type ≠ .extendedAer) ∧ c.type.registers = [] := by
  have hgen : c.type = .gen ∨ c.type = .genExtended := by
    by_contra hknown
    exact hnot (List.mem_filter.mpr ⟨hc, decide_eq_true hknown⟩)
  rcases hgen with hgen | hgen
  · rw [hgen]
    exact ⟨by decide, rfl⟩
  · rw [hgen]
    exact ⟨by decide, rfl⟩

/-- **Of the headers on the way** only the known ones count. -/
theorem rightOffsets_iff_listed :
    (∀ c ∈ chain, Capability.RightOffsets (finalOffsets chain) c) ↔
      (∀ c ∈ listed chain, c.type ≠ .msi ∧ c.type ≠ .extendedAer)
        ∧ ∀ c ∈ listed chain, ∀ c' ∈ listed chain, c.type = c'.type → c.type.registers ≠ [] →
            c = c' := by
  have hmem : ∀ c ∈ listed chain, c ∈ chain := fun c hc => (List.mem_filter.mp hc).1
  rw [rightOffsets_iff]
  constructor
  · rintro ⟨hcomplete, hsingle⟩
    refine ⟨fun c hc => hcomplete c (hmem c hc), fun c hc c' hc' hty hne => ?_⟩
    have hoffset := hsingle c (hmem c hc) c' (hmem c' hc') hty hne
    cases c
    cases c'
    exact congrArg₂ Capability.mk hty hoffset
  · rintro ⟨hcomplete, hsingle⟩
    constructor
    · intro c hc
      -- one that is not listed has no nested register
      by_cases hlisted : c ∈ listed chain
      · exact hcomplete c hlisted
      · exact (registers_of_not_listed hc hlisted).1
    · intro c hc c' hc' hty hne
      have hlisted : c ∈ listed chain := by
        by_contra hnot
        exact hne (registers_of_not_listed hc hnot).2
      have hlisted' : c' ∈ listed chain := by
        by_contra hnot
        exact hne (hty ▸ (registers_of_not_listed hc' hnot).2)
      rw [hsingle c hlisted c' hlisted' hty hne]

/--
**When direct and indirect access agree**, of two lists that the bytes give: exactly if the
ids before the first short header are below 255, there is no MSI and no error reporting
capability among those the walk comes to, whose nested registers get no offset, and no second
capability of a type with nested registers, which would take the offsets of the first.
-/
theorem agreeOnCapabilities_iff (m : Mem) (base ext : List Nat)
    (hbase : Links.Path (genericNext m) 0 (cpAt m) base) (hlow : ∀ p ∈ base, p < 0x100)
    (hext : Links.Path (extendedNext m) 0 0x100 ext) (hhigh : ∀ p ∈ ext, 0x100 ≤ p) :
    AgreeOnCapabilities m ↔ Accessible m base ext := by
  obtain ⟨baseChain, hbaseChain, hbaseListed⟩ := chain_generic hbase hlow
  -- with all ids in the table, the walk goes along two chains, and lists what is seen
  have hagree : (∀ p ∈ reached m ext, extendedId m p < 255) → (AgreeOnCapabilities m ↔
      (∀ c ∈ seen m base ext, c.type ≠ .msi ∧ c.type ≠ .extendedAer)
        ∧ ∀ c ∈ seen m base ext, ∀ c' ∈ seen m base ext, c.type = c'.type →
            c.type.registers ≠ [] → c = c') := by
    intro hid
    obtain ⟨extChain, hextChain, hextListed⟩ := chain_extended hext hhigh hid
    have hseen : listed (baseChain ++ extChain) = seen m base ext := by
      rw [listed, List.filter_append, ← listed, ← listed, hbaseListed, hextListed, seen]
    rw [agreeOnCapabilities_iff_rightOffsets hbaseChain hextChain, rightOffsets_iff_listed, hseen]
  constructor
  · intro h
    have hreturns := h
    obtain ⟨fuel, onDirect, _, hdirect, _⟩ := hreturns
    obtain ⟨extChain, hextChain⟩ := (chains_of_returns hdirect).2
    have hid := reached_of_chain hext hhigh hextChain
    obtain ⟨hcomplete, hsingle⟩ := (hagree hid).mp h
    exact ⟨hid, hcomplete, hsingle⟩
  · intro h
    exact (hagree h.inTable).mpr ⟨h.complete, h.single⟩

/-- Power management, MSI-X, and an error reporting capability that no walk comes to. -/
def hiddenErrors : Mem :=
  contents [(0x34, 0x40), (0x40, 1), (0x41, 0x50), (0x50, 0x11),
    (0x100, 3), (0x103, 0x12), (0x120, 2), (0x123, 0x14), (0x140, 1)]

theorem agreeOnCapabilities_hiddenErrors : AgreeOnCapabilities hiddenErrors := by
  have hbase : Links.Path (genericNext hiddenErrors) 0 (cpAt hiddenErrors) [0x40, 0x50] :=
    .cons (by decide) (.cons (by decide) .nil)
  have hext : Links.Path (extendedNext hiddenErrors) 0 0x100 [0x100, 0x120, 0x140] :=
    .cons (by decide) (.cons (by decide) (.cons (by decide) .nil))
  exact (agreeOnCapabilities_iff hiddenErrors _ _ hbase (by decide) hext (by decide)).mpr (by decide)

/-- One MSI capability is enough to make them differ. -/
theorem not_agreeOnCapabilities_msi : ¬ ∀ (m : Mem) (base ext : List Nat),
    Links.Path (genericNext m) 0 (cpAt m) base → (∀ p ∈ base, p < 0x100) →
    Links.Path (extendedNext m) 0 0x100 ext → (∀ p ∈ ext, 0x100 ≤ p) →
    AgreeOnCapabilities m := by
  intro hall
  have hbase : Chain (contents [(0x34, 0x40), (0x40, 5)]) 0x40 [⟨.msi, 0x40⟩] :=
    chain_last (by decide) (by decide) (by decide)
  have hext : Chain (contents [(0x34, 0x40), (0x40, 5)]) 0x100 [⟨.gen, 0x100⟩] :=
    chain_last (by decide) (by decide) (by decide)
  have hagree := hall (contents [(0x34, 0x40), (0x40, 5)]) [0x40] [0x100]
    (.cons (by decide) .nil) (by decide) (.cons (by decide) .nil) (by decide)
  have hright := (agreeOnCapabilities_iff_rightOffsets hbase hext).mp hagree
  exact absurd rfl ((rightOffsets_iff.mp hright).1 ⟨.msi, 0x40⟩ List.mem_cons_self).1

end PCIeRegisters

end LoneNvme
