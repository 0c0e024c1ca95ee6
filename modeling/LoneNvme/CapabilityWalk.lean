import LoneNvme.Capabilities
import LoneNvme.Lib.Links

/-!
# Whether the walk ends

The next pointers come from the device, and `init_capabilities` neither bounds its walk nor
remembers where it was. It ends exactly if no header is met twice and each id is in its
table; the standard table covers all of its ids, the extended one 255 of 65536.

`nextAt` follows the pointers without reading anything else, so that the question is one about
a function on the addresses of the configuration space (`Links` has its theory). `walkable_iff`
connects the two, and `initCapabilities_returns_iff` needs no hypothesis: the contents are any
bytes, and the object that reads them is a direct or an indirect one.
-/

namespace LoneNvme

open Lib

namespace PCIeRegisters

open RegsStructAccess Capability

variable {m : Mem} {direct : Bool} {ptr : Nat} {chain : List Capability}

/-! ## The next pointer -/

/-- A next pointer stays in the configuration space. -/
theorem nextPtr_lt (m : Mem) (t : CapabilityType) (ptr : Nat) :
    field m t ptr "NEXT_PTR" < 4096 := by
  have hwidth : ∀ p, t.flat.attr "NEXT_PTR" = some p → p.decl.width ≤ 12 := by
    cases t <;> decide
  unfold field
  cases hp : t.flat.attr "NEXT_PTR" with
  | none => exact Nat.zero_lt_succ _
  | some p =>
      calc p.get (m.load ptr t.flat.size) < 2 ^ p.decl.width := p.get_lt _
        _ ≤ 2 ^ 12 := Nat.pow_le_pow_right (by omega) (hwidth p hp)

/-- The header that the one at `ptr` points to. A header of no type points nowhere. -/
def nextAt (m : Mem) (ptr : Nat) : Nat :=
  if ptr = 0 then 0
  else
    match typeAt m ptr with
    | some t => field m t ptr "NEXT_PTR"
    | none => 0

theorem nextAt_zero : nextAt m 0 = 0 := if_pos rfl

theorem nextAt_of_typeAt {t : CapabilityType} (hptr : ptr ≠ 0) (ht : typeAt m ptr = some t) :
    nextAt m ptr = field m t ptr "NEXT_PTR" := by
  rw [nextAt, if_neg hptr, ht]

theorem nextAt_lt (m : Mem) (ptr : Nat) : nextAt m ptr < 4096 := by
  unfold nextAt
  split
  · exact Nat.zero_lt_succ _
  · split
    · exact nextPtr_lt m _ ptr
    · exact Nat.zero_lt_succ _

theorem iterate_nextAt_lt (hptr : ptr < 4096) (n : Nat) : (nextAt m)^[n] ptr < 4096 := by
  cases n with
  | zero => exact hptr
  | succ n =>
      rw [Function.iterate_succ_apply']
      exact nextAt_lt m _

/-! ## The tables -/

/-- The id in the extended header at `ptr`. -/
def extendedId (m : Mem) (ptr : Nat) : Nat := field m .genExtended ptr "CAP_ID"

/-- **Which headers have a type**: every standard one, and an extended one of an id below 255. -/
theorem exists_typeAt_iff :
    (∃ t, typeAt m ptr = some t) ↔ (0x100 ≤ ptr → extendedId m ptr < 255) := by
  have hstandard : pcieCapabilityIdTable.length = 256 := by
    simp only [pcieCapabilityIdTable, List.length_append, List.length_replicate, List.length_cons,
      List.length_nil]
  have hextended : pcieCapabilityExtIdTable.length = 255 := by
    simp only [pcieCapabilityExtIdTable, List.length_append, List.length_replicate,
      List.length_cons, List.length_nil]
  rw [← Option.isSome_iff_exists]
  unfold typeAt
  by_cases hptr : ptr < 0x100
  · rw [if_pos hptr, isSome_getElem?, hstandard]
    have hid : field m .gen ptr "CAP_ID" < 256 :=
      Placed.get_lt ⟨⟨"CAP_ID", 1, none⟩, 0, 0⟩ _
    exact iff_of_true hid fun hge => absurd hptr (Nat.not_lt.mpr hge)
  · rw [if_neg hptr, isSome_getElem?, hextended]
    exact ⟨fun h _ => h, fun h => h (Nat.not_lt.mp hptr)⟩

/-- A header of no type raises. -/
theorem visit_error (hptr : typeAt m ptr = none) (w : Walk) :
    visit direct m ptr w = .error (.indexError "list index out of range") := by
  have hout : ∀ {table : List CapabilityType} {n : Nat}, table[n]? = none →
      lookupId table (n : Int) = .error (.indexError "list index out of range") := by
    intro table n hnone
    rw [lookupId, Int.toNat_natCast, hnone]
  unfold typeAt at hptr
  unfold visit
  split at hptr
  · rename_i hlow
    rw [if_pos hlow, readField_eq (by decide)]
    show (do
      let capObj ← lookupId pcieCapabilityIdTable (field m .gen ptr "CAP_ID" : Int)
      _) = _
    rw [hout hptr]
    rfl
  · rename_i hlow
    rw [if_neg hlow, readField_eq (by decide)]
    show (do
      let capObj ← lookupId pcieCapabilityExtIdTable (field m .genExtended ptr "CAP_ID" : Int)
      _) = _
    rw [hout hptr]
    rfl

/-! ## The walk -/

/-- A walk that returns followed a list of the contents. -/
theorem chain_of_walk {fuel : Nat} {w w' : Walk}
    (h : walk direct m fuel ptr w = some (.ok w')) : ∃ chain, Chain m ptr chain := by
  induction fuel generalizing ptr w with
  | zero =>
      cases ptr with
      | zero => exact ⟨[], .nil⟩
      | succ ptr =>
          rw [walk] at h
          exact absurd h (by simp)
  | succ fuel ih =>
      cases ptr with
      | zero => exact ⟨[], .nil⟩
      | succ ptr =>
          rw [walk] at h
          cases ht : typeAt m (ptr + 1) with
          | none =>
              rw [visit_error ht] at h
              exact absurd h (by simp)
          | some t =>
              rw [visit_eq ht] at h
              obtain ⟨chain, hchain⟩ := ih h
              exact ⟨⟨t, ptr + 1⟩ :: chain, .cons (Nat.succ_ne_zero ptr) ht hchain⟩

/-- Every header on the way from `ptr` has a type. -/
def Typed (m : Mem) (ptr : Nat) : Prop :=
  ∀ n, (nextAt m)^[n] ptr ≠ 0 → ∃ t, typeAt m ((nextAt m)^[n] ptr) = some t

theorem Chain.ends_typed (h : Chain m ptr chain) :
    Links.Ends (nextAt m) 0 ptr ∧ Typed m ptr := by
  induction h with
  | nil =>
      refine ⟨⟨0, rfl⟩, fun n hn => absurd ?_ hn⟩
      exact Function.iterate_fixed nextAt_zero n
  | @cons ptr t rest hptr ht _ ih =>
      rw [← nextAt_of_typeAt hptr ht] at ih
      obtain ⟨⟨n, hn⟩, htyped⟩ := ih
      refine ⟨⟨n + 1, hn⟩, fun k hk => ?_⟩
      cases k with
      | zero => exact ⟨t, ht⟩
      | succ k => exact htyped k hk

theorem chain_of_ends (hends : Links.Ends (nextAt m) 0 ptr) (htyped : Typed m ptr) :
    ∃ chain, Chain m ptr chain := by
  obtain ⟨n, hn⟩ := hends
  induction n generalizing ptr with
  | zero =>
      rw [Function.iterate_zero_apply] at hn
      subst hn
      exact ⟨[], .nil⟩
  | succ n ih =>
      by_cases hptr : ptr = 0
      · subst hptr
        exact ⟨[], .nil⟩
      · obtain ⟨t, ht⟩ := htyped 0 hptr
        obtain ⟨chain, hchain⟩ := ih (fun k hk => htyped (k + 1) hk) hn
        rw [Function.iterate_zero_apply] at ht
        rw [nextAt_of_typeAt hptr ht] at hchain
        exact ⟨⟨t, ptr⟩ :: chain, .cons hptr ht hchain⟩

/-- The contents lead a walk from `ptr` to an end. -/
structure Walkable (m : Mem) (ptr : Nat) : Prop where
  /-- No header is met twice. -/
  noReturn : Links.NoReturn (nextAt m) 0 ptr
  /-- The table of the extended capabilities has each id. -/
  known : ∀ n, 0x100 ≤ (nextAt m)^[n] ptr → extendedId m ((nextAt m)^[n] ptr) < 255

theorem walkable_iff (hptr : ptr < 4096) : Walkable m ptr ↔ ∃ chain, Chain m ptr chain := by
  have hspace : ∀ n, (nextAt m)^[n] ptr ∈ Finset.range 4096 := fun n =>
    Finset.mem_range.mpr (iterate_nextAt_lt hptr n)
  have hends := Links.ends_iff nextAt_zero hspace
  constructor
  · rintro ⟨hnoReturn, hknown⟩
    exact chain_of_ends (hends.mpr hnoReturn) fun n _ => exists_typeAt_iff.mpr (hknown n)
  · rintro ⟨chain, hchain⟩
    obtain ⟨hnull, htyped⟩ := hchain.ends_typed
    refine ⟨hends.mp hnull, fun n hn => ?_⟩
    exact exists_typeAt_iff.mp (htyped n (by omega)) hn

/-- **Both lists are there** if `init_capabilities` returns. -/
theorem chains_of_returns {fuel : Nat} {w : Walk}
    (h : initCapabilities fuel direct m = some (.ok w)) :
    (∃ base, Chain m (cpAt m) base) ∧ ∃ ext, Chain m 0x100 ext := by
  unfold initCapabilities at h
  rw [capPointer_eq] at h
  dsimp only at h
  rw [Int.toNat_natCast] at h
  split at h
  · exact absurd h (by simp)
  · exact absurd h (by simp)
  · rename_i hbase
    exact ⟨chain_of_walk hbase, chain_of_walk h⟩

theorem cpAt_lt (m : Mem) : cpAt m < 4096 := lt_trans (m 0x34).isLt (by omega)

/--
**When capability discovery ends.** It returns exactly if neither list comes back to a
header it met before, and every extended header on the way has an id below 255.
-/
theorem initCapabilities_returns_iff (direct : Bool) (m : Mem) :
    (∃ fuel w, initCapabilities fuel direct m = some (.ok w))
      ↔ Walkable m (cpAt m) ∧ Walkable m 0x100 := by
  rw [walkable_iff (cpAt_lt m), walkable_iff (by omega)]
  constructor
  · rintro ⟨fuel, w, h⟩
    exact chains_of_returns h
  · rintro ⟨⟨base, hbase⟩, ⟨ext, hext⟩⟩
    exact ⟨base.length + ext.length, _, (initCapabilities_eq hbase hext _).trans
      (if_pos ⟨Nat.le_add_right _ _, Nat.le_add_left _ _⟩)⟩

/-- What a device that is gone answers. -/
def allOnes : Mem := fun _ => 0xFF

/-- The header at the capabilities pointer of all ones points to itself. -/
theorem not_initCapabilities_returns_allOnes :
    ¬ ∀ (direct : Bool) (m : Mem), ∃ fuel w, initCapabilities fuel direct m = some (.ok w) := by
  intro hall
  obtain ⟨fuel, w, h⟩ := hall true allOnes
  obtain ⟨noReturn, _⟩ := (walkable_iff (cpAt_lt _)).mpr (chains_of_returns h).1
  have hself : nextAt allOnes (cpAt allOnes) = cpAt allOnes := by decide
  exact absurd (noReturn 0 1 Nat.zero_lt_one hself.symm) (by decide)

end PCIeRegisters

end LoneNvme
