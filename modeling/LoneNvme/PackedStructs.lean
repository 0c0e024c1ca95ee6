import LoneNvme.Registers

/-!
# A packed structure and its bytes

An object is made by assigning to its fields, one after the other, over zeros. Fields
do not overlap, so it reads back what was assigned. Where the fields leave no bit out,
the bytes are no more than the values: equal fields, equal objects.

Both are facts about one class and are proved once, over any list of fields. A class of the
source only has to show that its own fields keep to their units, and, where its objects are to
be compared by their bytes, that they are tight.
-/

namespace LoneNvme

open Lib

/-! ## Layouts without gaps -/

/-- The bits of the declared fields. -/
def bits : List FieldDecl → Nat
  | [] => 0
  | d :: ds => d.width + bits ds

/-- The first bit of a placed field. -/
def Placed.start (p : Placed) : Nat := 8 * p.offset + p.low

variable {offset : Nat} {unit : Option (Nat × Nat)} {ds : List FieldDecl}

/-- The fields have room between the frontier and the end. -/
theorem frontier_add_bits_le (hvalid : ∀ d ∈ ds, d.Valid) (hown : OwnUnits offset unit ds)
    (hopen : OpenUnit offset unit) :
    frontier offset unit + bits ds ≤ 8 * (place offset unit ds).2 := by
  induction ds generalizing offset unit with
  | nil => exact frontier_le hopen
  | cons d ds ih =>
      obtain ⟨_, hone, hnext, hopen', _⟩ :=
        placeOne_spec (hvalid d List.mem_cons_self) hown.1 hopen
      have hrest := ih (fun e he => hvalid e (List.mem_cons_of_mem _ he)) hown.2 hopen'
      have hlower := hone.lower
      rw [place_cons, bits]
      dsimp only
      omega

/-- **Fields that fill their room leave no bit out.** -/
theorem exists_field_at (hvalid : ∀ d ∈ ds, d.Valid) (hown : OwnUnits offset unit ds)
    (hopen : OpenUnit offset unit)
    (hfull : frontier offset unit + bits ds = 8 * (place offset unit ds).2) {i : Nat}
    (hlo : frontier offset unit ≤ i) (hhi : i < 8 * (place offset unit ds).2) :
    ∃ p ∈ (place offset unit ds).1, p.start ≤ i ∧ i < p.start + p.decl.width := by
  induction ds generalizing offset unit with
  | nil =>
      have hle := frontier_le hopen
      rw [bits] at hfull
      omega
  | cons d ds ih =>
      obtain ⟨hdecl, hone, hnext, hopen', _⟩ :=
        placeOne_spec (hvalid d List.mem_cons_self) hown.1 hopen
      have hvalid' : ∀ e ∈ ds, e.Valid := fun e he => hvalid e (List.mem_cons_of_mem _ he)
      have hrest := frontier_add_bits_le hvalid' hown.2 hopen'
      have hlower := hone.lower
      rw [place_cons] at hfull hhi ⊢
      dsimp only [bits] at hfull hhi ⊢
      -- no room to spare: the first field starts at the frontier and the next one where it ends
      by_cases hin : i < frontier (placeOne offset unit d).2.1 (placeOne offset unit d).2.2
      · refine ⟨_, List.mem_cons_self, ?_, ?_⟩
        · unfold Placed.start
          omega
        · unfold Placed.start
          rw [hdecl]
          omega
      · obtain ⟨p, hp, hpi⟩ := ih hvalid' hown.2 hopen' (by omega) (by omega) hhi
        exact ⟨p, List.mem_cons_of_mem _ hp, hpi⟩

/-! ## One field of a structure -/

namespace Placed

instance (p : Placed) : Decidable p.Fits := inferInstanceAs (Decidable (_ ∧ _))

instance (p q : Placed) : Decidable (p.Apart q) := inferInstanceAs (Decidable (_ ∨ _))

variable {p q : Placed} {n : Nat} {bs bs' : List (BitVec 8)}

theorem testBit_get (h : p.Fits) (bs : List (BitVec 8)) (i : Nat) :
    (p.get bs).testBit i = (decide (i < p.decl.width) && bitAt bs (p.start + i)) := by
  rw [p.get_eq h, BitField.testBit_get]
  rfl

@[simp] theorem get_zeros (h : p.Fits) (n : Nat) : p.get (List.replicate n 0) = 0 := by
  refine Nat.eq_of_testBit_eq fun i => ?_
  rw [testBit_get h, bitAt_zeros, Bool.and_false, Nat.zero_testBit]

theorem length_set (h : p.Between 0 n) (hlen : bs.length = n) (v : Int) :
    (p.set bs v).length = n := by
  rw [p.set_eq h.fits, BitField.length_set (by rw [hlen]; exact h.upper), hlen]

theorem get_set_self (h : p.Between 0 n) (hlen : bs.length = n) {v : Nat}
    (hv : v < 2 ^ p.decl.width) : p.get (p.set bs v) = v := by
  have hself : (p.bitField h.fits).get ((p.bitField h.fits).set bs (v : Int))
      = ((v : Int) % 2 ^ p.decl.width).toNat :=
    BitField.get_set_self (by rw [hlen]; exact h.upper) v
  rw [p.set_eq h.fits, p.get_eq h.fits, hself, Int.emod_eq_of_lt (Int.natCast_nonneg v)
    (by exact_mod_cast hv), Int.toNat_natCast]

theorem get_set_apart (hp : p.Between 0 n) (hq : q.Between 0 n) (hpq : Apart p q)
    (hlen : bs.length = n) (v : Int) : q.get (p.set bs v) = q.get bs := by
  have hframe : (q.bitField hq.fits).get ((p.bitField hp.fits).set bs v)
      = (q.bitField hq.fits).get bs :=
    BitField.get_set_of_disjoint (by rw [hlen]; exact hp.upper)
      (show BitField.Disjoint (p.bitField hp.fits) (q.bitField hq.fits) from hpq) v
  rw [p.set_eq hp.fits, q.get_eq hq.fits, q.get_eq hq.fits, hframe]

end Placed

/-! ## All fields of a structure -/

/-- Assign to fields in order. -/
def setAll : List Placed → List Nat → List (BitVec 8) → List (BitVec 8)
  | p :: ps, v :: vs, bs => setAll ps vs (p.set bs v)
  | _, _, bs => bs

section

variable {n : Nat} {ps : List Placed} {vs : List Nat} {bs : List (BitVec 8)} {q : Placed}

theorem length_setAll (hps : ∀ p ∈ ps, p.Between 0 n) (hlen : bs.length = n) :
    (setAll ps vs bs).length = n := by
  induction ps generalizing vs bs with
  | nil => exact hlen
  | cons p ps ih =>
      cases vs with
      | nil => exact hlen
      | cons v vs =>
          exact ih (fun q hq => hps q (List.mem_cons_of_mem _ hq))
            (Placed.length_set (hps p List.mem_cons_self) hlen v)

/-- A field apart from all that are assigned to keeps its value. -/
theorem get_setAll_apart (hps : ∀ p ∈ ps, p.Between 0 n) (hq : q.Between 0 n)
    (hapart : ∀ p ∈ ps, Placed.Apart p q) (hlen : bs.length = n) :
    q.get (setAll ps vs bs) = q.get bs := by
  induction ps generalizing vs bs with
  | nil => rfl
  | cons p ps ih =>
      cases vs with
      | nil => rfl
      | cons v vs =>
          have hp := hps p List.mem_cons_self
          have hrest := @ih vs (p.set bs v) (fun r hr => hps r (List.mem_cons_of_mem _ hr))
            (fun r hr => hapart r (List.mem_cons_of_mem _ hr)) (Placed.length_set hp hlen v)
          rw [setAll, hrest, Placed.get_set_apart hp hq (hapart p List.mem_cons_self) hlen]

/-- **Every field reads back what was assigned to it.** -/
theorem map_get_setAll (hps : ∀ p ∈ ps, p.Between 0 n) (hpair : ps.Pairwise Placed.Apart)
    (hlen : bs.length = n) (hvs : List.Forall₂ (fun p v => v < 2 ^ p.decl.width) ps vs) :
    ps.map (fun p => p.get (setAll ps vs bs)) = vs := by
  induction hvs generalizing bs with
  | nil => rfl
  | @cons p v ps vs hv _ ih =>
      obtain ⟨hapart, hpair'⟩ := List.pairwise_cons.mp hpair
      have hp := hps p List.mem_cons_self
      have hps' : ∀ r ∈ ps, r.Between 0 n := fun r hr => hps r (List.mem_cons_of_mem _ hr)
      have hset := Placed.length_set hp hlen v
      rw [List.map_cons, setAll, ih hps' hpair' hset, get_setAll_apart hps' hp
        (fun r hr => Std.Symm.symm _ _ (hapart r hr)) hset, Placed.get_set_self hp hlen hv]

end

namespace RegisterClass

variable {cls : RegisterClass} {vs : List Nat} {bs bs' : List (BitVec 8)}

/-- The values of the fields, in the order of `_fields_`. -/
def fieldValues (cls : RegisterClass) (bs : List (BitVec 8)) : List Nat :=
  cls.placed.map fun p => p.get bs

/-- The bytes of an object whose fields are assigned the values. -/
def build (cls : RegisterClass) (vs : List Nat) : List (BitVec 8) :=
  setAll cls.placed vs (List.replicate cls.size 0)

/-- Every field holds the value meant for it. -/
def Holds (cls : RegisterClass) (vs : List Nat) : Prop :=
  List.Forall₂ (fun d v => v < 2 ^ d.width) cls.fields vs

/-- The fields leave no bit out. -/
def Tight (cls : RegisterClass) : Prop := bits cls.fields = 8 * cls.size

instance (cls : RegisterClass) : Decidable cls.Tight := inferInstanceAs (Decidable (_ = _))

/-- What cells of the declared widths keep of the values. -/
def stored (cls : RegisterClass) (vs : List Nat) : List Nat :=
  List.zipWith (fun d v => (BitVec.ofNat d.width v).toNat) cls.fields vs

theorem stored_eq (h : cls.Holds vs) : cls.stored vs = vs := by
  unfold Holds at h
  unfold stored
  generalize cls.fields = ds at h
  induction h with
  | nil => rfl
  | cons hv _ ih => rw [List.zipWith_cons_cons, ih, BitVec.toNat_ofNat, Nat.mod_eq_of_lt hv]

theorem holds_placed (h : cls.Holds vs) :
    List.Forall₂ (fun p v => v < 2 ^ p.decl.width) cls.placed vs := by
  unfold Holds at h
  rw [← map_decl_place 0 none cls.fields, List.forall₂_map_left_iff] at h
  exact h

theorem between_placed (hunits : cls.OwnUnits) {p : Placed} (hp : p ∈ cls.placed) :
    p.Between 0 cls.size :=
  (place_between cls.valid hunits (show OpenUnit 0 none from trivial)).2 p hp

theorem pairwise_placed (hunits : cls.OwnUnits) : cls.placed.Pairwise Placed.Apart :=
  (place_pairwise cls.valid hunits (show OpenUnit 0 none from trivial)).imp fun h => Or.inl h

theorem length_build (hunits : cls.OwnUnits) (vs : List Nat) : (cls.build vs).length = cls.size :=
  length_setAll (fun _ hp => between_placed hunits hp) List.length_replicate

/-- The fields of an object hold what they read. -/
theorem holds_fieldValues (cls : RegisterClass) (bs : List (BitVec 8)) :
    cls.Holds (cls.fieldValues bs) := by
  have hdecl := map_decl_place 0 none cls.fields
  unfold Holds fieldValues placed
  nth_rewrite 1 [← hdecl]
  rw [List.forall₂_map_left_iff, List.forall₂_map_right_iff, List.forall₂_same]
  exact fun p _ => p.get_lt bs

/-- **An object reads back the values it was made of.** -/
theorem fieldValues_build (hunits : cls.OwnUnits) (h : cls.Holds vs) :
    cls.fieldValues (cls.build vs) = vs :=
  map_get_setAll (fun _ hp => between_placed hunits hp) (pairwise_placed hunits)
    List.length_replicate (holds_placed h)

/-- **Without gaps, objects with equal fields are equal.** -/
theorem eq_of_fieldValues (hunits : cls.OwnUnits) (ht : cls.Tight) (hlen : bs.length = cls.size)
    (hlen' : bs'.length = cls.size) (h : cls.fieldValues bs = cls.fieldValues bs') : bs = bs' := by
  refine eq_of_bitAt (hlen.trans hlen'.symm) fun i hi => ?_
  obtain ⟨p, hp, hlo, hhi⟩ := exists_field_at cls.valid hunits
    (show OpenUnit 0 none from trivial)
    (by rw [show bits cls.fields = 8 * cls.size from ht]; exact Nat.zero_add _) (Nat.zero_le i)
    (by rw [hlen] at hi; exact hi)
  -- bit `i` is a bit of the field it lies in
  have hget := List.map_inj_left.mp h p hp
  have hbit := congrArg (fun v => v.testBit (i - p.start)) hget
  have hfits := (between_placed hunits hp).fits
  rw [Placed.testBit_get hfits, Placed.testBit_get hfits,
    decide_eq_true (by omega), Bool.true_and, Bool.true_and, Nat.add_sub_of_le hlo] at hbit
  exact hbit

theorem build_fieldValues (hunits : cls.OwnUnits) (ht : cls.Tight) (hlen : bs.length = cls.size) :
    cls.build (cls.fieldValues bs) = bs :=
  eq_of_fieldValues hunits ht (length_build hunits _) hlen
    (fieldValues_build hunits (holds_fieldValues cls bs))

end RegisterClass

end LoneNvme
