import LoneNvme.Lib.Lists
import Mathlib.Algebra.BigOperators.Fin
import Mathlib.Data.List.FinRange

/-!
# Comparing structures

`ComparableStruct` compares two structures field by field, each field by its name. An array
is compared element by element, but only in this one place: elements that are arrays again
are compared with `!=`, which for two arrays asks whether they are one object. And of several
fields with one name, the name only leads to the last.

The rest is what `ctypes` makes of a field: an array of characters reads as the text before
the first NUL, a float may be no number, which is not equal to itself, and the `_fields_` of
a class are only those that it adds to its base.
-/

namespace LoneNvme

/-! ## Types and values -/

/--
A type: an integer scalar or bit-field; a float of an exponent and a mantissa of so many bits;
an array of characters out of `units`; an array of anything else; or a structure of named
fields, the first ones inherited.
-/
inductive CType where
  | scalar (width : Nat) (pos : 0 < width)
  | float (exponent mantissa : Nat) (pos : 0 < mantissa)
  | chars (units : Nat) (two : 1 < units) (length : Nat)
  | array (length : Nat) (elem : CType)
  | struct (inherited n : Nat) (names : Fin n → String) (types : Fin n → CType)

namespace CType

/-- Whether an element of the type is an array object. -/
def isArray : CType → Bool
  | .chars _ _ _ => true
  | .array _ _ => true
  | _ => false

/-- The values of a type; those of a scalar as its bits. -/
def Value : CType → Type
  | .scalar width _ => BitVec width
  | .float exponent mantissa _ => BitVec (1 + exponent + mantissa)
  | .chars units _ length => Fin length → Fin units
  | .array length elem => Fin length → Value elem
  | .struct _ n _ types => (i : Fin n) → Value (types i)

/-- The value whose bytes are zero. -/
def zero : (t : CType) → t.Value
  | .scalar width _ => (0 : BitVec width)
  | .float exponent mantissa _ => (0 : BitVec (1 + exponent + mantissa))
  | .chars _ two _ => fun _ => ⟨0, Nat.lt_of_succ_lt two⟩
  | .array _ elem => fun _ => zero elem
  | .struct _ _ _ types => fun i => zero (types i)

/-- All scalars of a value, in order of their position. -/
def leaves : (t : CType) → t.Value → List Nat
  | .scalar _ _, (x : BitVec _) => [x.toNat]
  | .float _ _ _, (x : BitVec _) => [x.toNat]
  | .chars _ _ length, (x : Fin length → Fin _) => (List.finRange length).map fun k => (x k).val
  | .array length elem, x => (List.finRange length).flatMap fun k => leaves elem (x k)
  | .struct _ n _ types, x => (List.finRange n).flatMap fun i => leaves (types i) (x i)

/-- How many scalars there are. -/
def numLeaves : CType → Nat
  | .scalar _ _ => 1
  | .float _ _ _ => 1
  | .chars _ _ length => length
  | .array length elem => length * numLeaves elem
  | .struct _ _ _ types => ∑ i, numLeaves (types i)

/-- No number: the exponent all ones, and the mantissa not zero. -/
def isNaN {exponent mantissa : Nat} (x : BitVec (1 + exponent + mantissa)) : Bool :=
  x.extractLsb' mantissa exponent == BitVec.allOnes exponent && x.extractLsb' 0 mantissa != 0

/-- A zero of either sign. -/
def isZero {exponent mantissa : Nat} (x : BitVec (1 + exponent + mantissa)) : Bool :=
  x.extractLsb' 0 (exponent + mantissa) == 0

/-- `!=` of two floats. -/
def floatNe {exponent mantissa : Nat} (x y : BitVec (1 + exponent + mantissa)) : Bool :=
  isNaN x || isNaN y || x != y && !(isZero x && isZero y)

/-- What a field of characters reads as. -/
def text {units length : Nat} (x : Fin length → Fin units) : List Nat :=
  ((List.finRange length).map fun k => (x k).val).takeWhile (· ≠ 0)

/-- The fields in `_fields_` of the class itself. -/
def ownFields (inherited n : Nat) : List (Fin n) :=
  (List.finRange n).filter fun i => inherited ≤ i

/-- Where the name of field `i` leads: to the last field with that name. -/
def position {n : Nat} (names : Fin n → String) (i : Fin n) : Fin n :=
  ((List.finRange n).reverse.find? fun j => names j = names i).getD i

/--
What one turn of the loop finds in an attribute of two structures: the elements of two
arrays one by one with `!=`, anything else with `!=`. Elements that are arrays are always
found different, since each access makes a new object.
-/
def differs : (t : CType) → t.Value → t.Value → Bool
  | .scalar _ _, (x : BitVec _), (y : BitVec _) => x != y
  | .float _ _ _, (x : BitVec _), (y : BitVec _) => floatNe x y
  | .chars _ _ _, (x : Fin _ → Fin _), (y : Fin _ → Fin _) => text x != text y
  | .array length elem, x, y =>
      (List.finRange length).any fun k => elem.isArray || differs elem (x k) (y k)
  | .struct inherited n names types, x, y =>
      (ownFields inherited n).any fun i =>
        differs (types (position names i)) (x (position names i)) (y (position names i))

end CType

namespace ComparableStruct

open CType

section

variable {inherited n : Nat} (names : Fin n → String) (types : Fin n → CType)
  (self other : (CType.struct inherited n names types).Value)

/-- The attribute that field `f` names differs. -/
def attrDiffers (f : Fin n) : Bool :=
  differs (types (position names f)) (self (position names f)) (other (position names f))

/-- The loop of `__eq__`. -/
def eqLoop : List (Fin n) → Bool
  | [] => true
  | f :: fields => if attrDiffers names types self other f then false else eqLoop fields

/-- `__eq__`. -/
def eq : Bool := eqLoop names types self other (ownFields inherited n)

end

end ComparableStruct

namespace CType

variable {t : CType}

/-! ## Leaves -/

section

variable {inherited n : Nat} {names : Fin n → String} {types : Fin n → CType} {i j : Fin n}

/-- A structure with one field replaced. -/
def setField (x : (CType.struct inherited n names types).Value) (i : Fin n) (v : (types i).Value) :
    (CType.struct inherited n names types).Value :=
  @Function.update _ (fun i => (types i).Value) _ x i v

@[simp] theorem setField_self (x : (CType.struct inherited n names types).Value) (v : (types i).Value) :
    setField x i v i = v := Function.update_self ..

theorem setField_of_ne (h : j ≠ i) (x : (CType.struct inherited n names types).Value)
    (v : (types i).Value) : setField x i v j = x j := Function.update_of_ne h ..

/-- Replacing a field by different values gives different structures. -/
theorem setField_inj {x : (CType.struct inherited n names types).Value} {v w : (types i).Value} :
    setField x i v = setField x i w ↔ v = w := by
  refine ⟨fun h => ?_, fun h => h ▸ rfl⟩
  have hat := congrFun h i
  rwa [setField_self, setField_self] at hat

end

section

variable {n : Nat} {names : Fin n → String} {i j : Fin n}

/-- The field is the last one of its name. -/
def LastOfName (names : Fin n → String) (i : Fin n) : Prop := ∀ j, names j = names i → j ≤ i

/-- **A name leads to the last field that has it.** -/
theorem position_spec (names : Fin n → String) (i : Fin n) :
    names (position names i) = names i ∧ LastOfName names (position names i) := by
  have hsome : ((List.finRange n).reverse.find? fun j => names j = names i).isSome := by
    rw [List.find?_isSome]
    exact ⟨i, List.mem_reverse.mpr (List.mem_finRange i), by simp⟩
  obtain ⟨p, hp⟩ := Option.isSome_iff_exists.mp hsome
  have hpos : position names i = p := by rw [position, hp]; rfl
  obtain ⟨hname, before, after, hsplit, hbefore⟩ := List.find?_eq_some_iff_append.mp hp
  have hname : names p = names i := by simpa using hname
  rw [hpos]
  refine ⟨hname, fun j hj => ?_⟩
  have hsorted : (List.finRange n).reverse.Pairwise (· > ·) :=
    List.pairwise_reverse.mpr (List.pairwise_lt_finRange n)
  have hmem : j ∈ before ++ p :: after := hsplit ▸ List.mem_reverse.mpr (List.mem_finRange j)
  rw [hsplit, List.pairwise_append] at hsorted
  rcases List.mem_append.mp hmem with h | h
  · have hno := hbefore j h
    simp [hj, hname] at hno
  · rcases List.mem_cons.mp h with rfl | h
    · exact le_refl _
    · exact le_of_lt (List.rel_of_pairwise_cons hsorted.2.1 h)

theorem position_eq_self_iff : position names i = i ↔ LastOfName names i := by
  obtain ⟨hname, hlast⟩ := position_spec names i
  refine ⟨fun h => h ▸ hlast, fun h => le_antisymm (h _ hname) (hlast i hname.symm)⟩

end

/-! ## When a comparison is right -/

/-- The comparison gets to field `i`: its class adds it, and its name leads to it. -/
def Compared (inherited : Nat) {n : Nat} (names : Fin n → String) (i : Fin n) : Prop :=
  inherited ≤ i ∧ LastOfName names i

/-- No field, element or leaf escapes the comparison, and no value is unlike itself. -/
def Sound : CType → Prop
  | .scalar _ _ => True
  | .float _ _ _ => False
  | .chars _ _ length => length ≤ 1
  | .array length elem => length = 0 ∨ elem.isArray = false ∧ Sound elem
  | .struct inherited _ names types => ∀ i, (Compared inherited names i → Sound (types i))
      ∧ (¬ Compared inherited names i → numLeaves (types i) = 0)

/-- Two values differ in the eyes of the loop if they differ. -/
def Exact (t : CType) : Prop := ∀ x y : t.Value, differs t x y = false ↔ x = y

theorem differs_array_eq_false {length : Nat} {elem : CType}
    {x y : (CType.array length elem).Value} : differs (.array length elem) x y = false ↔
      ∀ k, elem.isArray = false ∧ differs elem (x k) (y k) = false := by
  rw [differs, List.any_eq_false]
  refine ⟨fun h k => ?_, fun h k _ => ?_⟩
  · simpa using h k (List.mem_finRange k)
  · simpa using h k

section

variable {inherited n : Nat} {names : Fin n → String} {types : Fin n → CType} {i : Fin n}

/-- Only the fields that their names lead to are compared. -/
theorem differs_struct_eq_false {x y : (CType.struct inherited n names types).Value} :
    differs (.struct inherited n names types) x y = false ↔
      ∀ i, Compared inherited names i → differs (types i) (x i) (y i) = false := by
  rw [differs, List.any_eq_false]
  refine ⟨fun h i hi => ?_, fun h i hi => ?_⟩
  · have hown := h i (List.mem_filter.mpr ⟨List.mem_finRange i, decide_eq_true hi.1⟩)
    rw [position_eq_self_iff.mpr hi.2] at hown
    exact Bool.eq_false_of_not_eq_true hown
  · -- the last field of the name comes after an own one, so it is one
    have hown := of_decide_eq_true (List.mem_filter.mp hi).2
    obtain ⟨hname, hlast⟩ := position_spec names i
    have hle : i ≤ position names i := hlast i hname.symm
    rw [h _ ⟨Nat.le_trans hown hle, hlast⟩]
    exact Bool.false_ne_true

/-- A right comparison of structures is right for each field that is compared. -/
theorem Exact.field (h : Exact (.struct inherited n names types)) (hcompared : Compared inherited names i) :
    Exact (types i) := by
  intro a b
  let x := zero (.struct inherited n names types)
  have hsame := differs_struct_eq_false.mp ((h x x).mpr rfl)
  have hfields : differs (types i) a b = false ↔
      differs (.struct inherited n names types) (setField x i a) (setField x i b) = false := by
    rw [differs_struct_eq_false]
    refine ⟨fun hab j hj => ?_, fun hall => ?_⟩
    · by_cases hji : j = i
      · subst hji
        rwa [setField_self, setField_self]
      · rw [setField_of_ne hji, setField_of_ne hji]
        exact hsame j hj
    · have hi := hall i hcompared
      rwa [setField_self, setField_self] at hi
  rw [hfields, h, setField_inj]

end

/-- An array of at least one element is compared right if its elements are, and are no arrays. -/
theorem Exact.elem {length : Nat} {elem : CType} (h : Exact (.array length elem))
    (hlength : length ≠ 0) : elem.isArray = false ∧ Exact elem := by
  let first : Fin length := ⟨0, Nat.pos_of_ne_zero hlength⟩
  have hzero := differs_array_eq_false.mp ((h (zero _) (zero _)).mpr rfl)
  refine ⟨(hzero first).1, fun a b => ⟨fun hab => ?_, ?_⟩⟩
  · have hconst := (h (fun _ => a) (fun _ => b)).mp (differs_array_eq_false.mpr fun k =>
      ⟨(hzero k).1, hab⟩)
    exact congrFun hconst first
  · rintro rfl
    exact (differs_array_eq_false.mp ((h (fun _ => a) (fun _ => a)).mpr rfl) first).2

end CType

namespace ComparableStruct

open CType

variable {inherited n : Nat} {names : Fin n → String} {types : Fin n → CType}

/-- The type of a bit-field. -/
def bitField (fields : List (String × {width : Nat // 0 < width})) (i : Fin fields.length) : CType :=
  .scalar (fields.get i).2.1 (fields.get i).2.2

end ComparableStruct

end LoneNvme
