import LoneNvme.WireFormat

/-!
# Getting and setting features

`FeatureFactory` makes two command classes of the description of a feature. A set command
carries the fields of the feature in its dword 11; the answer to a get command carries
them in dword 0 of the completion. So whatever fields of dwords a feature has, the answer
that repeats the dword of a set command shows each field as it was set.

The class of the feature is not packed, the commands are. Types of four bytes leave no gap
either way, and all features are made of them.
-/

namespace LoneNvme

open Lib

/-! ## Layouts at another place -/

namespace Placed

/-- The field `k` bytes further on. -/
def shift (k : Nat) (p : Placed) : Placed := { p with offset := p.offset + k }

@[simp] theorem decl_shift (k : Nat) (p : Placed) : (p.shift k).decl = p.decl := rfl

theorem start_shift (k : Nat) (p : Placed) : (p.shift k).start = 8 * k + p.start := by
  unfold start shift
  dsimp only
  omega

end Placed

section

variable {offset k : Nat} {unit : Option (Nat × Nat)} {d : FieldDecl} {ds es : List FieldDecl}

theorem placeOne_shift (hopen : OpenUnit offset unit) :
    placeOne (offset + k) unit d = ((placeOne offset unit d).1.shift k,
      (placeOne offset unit d).2.1 + k, (placeOne offset unit d).2.2) := by
  have hnext : offset + k + d.size = offset + d.size + k := by omega
  unfold placeOne
  rcases d.bits with _ | b
  · dsimp only
    rw [hnext]
    rfl
  · rcases unit with _ | ⟨size, used⟩
    · dsimp only
      rw [hnext]
      rfl
    · -- an open unit ends at `offset`, so no subtraction is cut off at 0
      have hunit : ∀ n ≤ size, offset + k - n = offset - n + k := by
        intro n hn
        have hsize := hopen.1
        omega
      dsimp only
      split
      · rename_i hroom
        rw [hunit d.size hroom.1]
        rfl
      · split
        · rw [hunit size (Nat.le_refl size), Nat.add_right_comm]
          rfl
        · rw [hnext]
          rfl

/-- **The layout does not depend on where it begins.** -/
theorem place_shift (hvalid : ∀ d ∈ ds, d.Valid) (hown : OwnUnits offset unit ds)
    (hopen : OpenUnit offset unit) :
    place (offset + k) unit ds
      = ((place offset unit ds).1.map (Placed.shift k), (place offset unit ds).2 + k) := by
  induction ds generalizing offset unit with
  | nil => rfl
  | cons d ds ih =>
      obtain ⟨_, _, _, hopen', _⟩ := placeOne_spec (hvalid d List.mem_cons_self) hown.1 hopen
      have hrest := ih (fun e he => hvalid e (List.mem_cons_of_mem _ he)) hown.2 hopen'
      rw [place_cons, place_cons, placeOne_shift hopen]
      dsimp only
      rw [hrest, List.map_cons]

/-- A unit that is used up is left behind. -/
theorem place_used_up {size : Nat} (hsize : ∀ d ∈ ds, d.size = size)
    (hwidth : ∀ d ∈ ds, 0 < d.width) (hne : ds ≠ []) :
    place offset (some (size, 8 * size)) ds = place offset none ds := by
  obtain ⟨d, ds, rfl⟩ := List.exists_cons_of_ne_nil hne
  have hd := hwidth d List.mem_cons_self
  have hds := hsize d List.mem_cons_self
  have hone : placeOne offset (some (size, 8 * size)) d = placeOne offset none d := by
    unfold placeOne
    unfold FieldDecl.width at hd
    rcases hb : d.bits with _ | b
    · rfl
    · rw [hb] at hd
      dsimp only [Option.getD_some] at hd ⊢
      rw [if_neg (by omega), if_neg (by omega)]
  rw [place_cons, place_cons, hone]

/-- Where the fields end, and the open unit there. -/
def placeEnd (offset : Nat) (unit : Option (Nat × Nat)) : List FieldDecl → Nat × Option (Nat × Nat)
  | [] => (offset, unit)
  | d :: ds => placeEnd (placeOne offset unit d).2.1 (placeOne offset unit d).2.2 ds

/-- The second part goes on where the first one ends. -/
theorem place_append (offset : Nat) (unit : Option (Nat × Nat)) (ds es : List FieldDecl) :
    (place offset unit (ds ++ es)).1 = (place offset unit ds).1
      ++ (place (placeEnd offset unit ds).1 (placeEnd offset unit ds).2 es).1 := by
  induction ds generalizing offset unit with
  | nil => rfl
  | cons d ds ih =>
      rw [List.cons_append, place_cons, place_cons, placeEnd]
      dsimp only
      rw [ih, List.cons_append]

theorem ownUnits_append (hds : OwnUnits offset unit ds)
    (hes : OwnUnits (placeEnd offset unit ds).1 (placeEnd offset unit ds).2 es) :
    OwnUnits offset unit (ds ++ es) := by
  induction ds generalizing offset unit with
  | nil => exact hes
  | cons d ds ih => exact ⟨hds.1, ih hds.2 hes⟩

/-- The open unit has the size of the types, if all types have one size. -/
theorem placeOne_unit {n : Nat} (hd : d.size = n) (hunit : ∀ u ∈ unit, u.1 = n) :
    ∀ u ∈ (placeOne offset unit d).2.2, u.1 = n := by
  unfold placeOne
  rcases d.bits with _ | b
  · exact fun u hu => absurd hu (Option.not_mem_none u)
  · rcases unit with _ | ⟨size, used⟩
    · rintro u ⟨⟩
      exact hd
    · dsimp only
      split
      · rintro u ⟨⟩
        exact hunit (size, used) rfl
      · split
        · rintro u ⟨⟩
          exact hd
        · rintro u ⟨⟩
          exact hd

/-- **Types of one size** never share a unit of a larger one. -/
theorem ownUnits_of_size {n : Nat} (hsize : ∀ d ∈ ds, d.size = n) (hunit : ∀ u ∈ unit, u.1 = n) :
    OwnUnits offset unit ds := by
  induction ds generalizing offset unit with
  | nil => trivial
  | cons d ds ih =>
      have hd := hsize d List.mem_cons_self
      refine ⟨?_, ih (fun e he => hsize e (List.mem_cons_of_mem _ he)) (placeOne_unit hd hunit)⟩
      rintro ⟨u, hu, _, _, hlt, _⟩
      rw [hunit u hu, hd] at hlt
      exact absurd hlt (Nat.lt_irrefl n)

end

/-! ## Keyword arguments -/

/-- What the last of the assignments to a name assigns. -/
def lastValue (name : String) (values : List (String × Int)) : Option Int :=
  (values.reverse.find? fun e => e.1 = name).map Prod.snd

theorem lastValue_append_singleton (name : String) (values : List (String × Int)) (e : String × Int) :
    lastValue name (values ++ [e]) = if e.1 = name then some e.2 else lastValue name values := by
  unfold lastValue
  rw [List.reverse_append, List.reverse_singleton, List.singleton_append, List.find?_cons]
  by_cases he : e.1 = name
  · rw [if_pos he, decide_eq_true he]
    rfl
  · rw [if_neg he, decide_eq_false he]

namespace RegisterClass

open RegsStructAccess

variable {cls : RegisterClass} {obj : RegObject} {name : String} {p : Placed}

/-- What `ctypes` does with keyword arguments: it sets each as an attribute. -/
def assign (cls : RegisterClass) (obj : RegObject) (values : List (String × Int)) : RegObject :=
  values.foldl (fun obj e => objectSetattr cls obj e.1 e.2) obj

theorem assign_append (values values' : List (String × Int)) :
    cls.assign obj (values ++ values') = cls.assign (cls.assign obj values) values' :=
  List.foldl_append

theorem length_assign (hunits : cls.OwnUnits) (hlen : obj.buffer.length = cls.size)
    (values : List (String × Int)) : (cls.assign obj values).buffer.length = cls.size := by
  induction values generalizing obj with
  | nil => exact hlen
  | cons e rest ih => exact ih (length_buffer_objectSetattr hunits hlen e.1 e.2)

/-- **A field holds what was assigned to it last**, cut to its width. -/
theorem get_assign (hunits : cls.OwnUnits) (hlen : obj.buffer.length = cls.size)
    (hp : cls.attr name = some p) (values : List (String × Int)) :
    p.get (cls.assign obj values).buffer
      = (lastValue name values).elim (p.get obj.buffer) fun v => (v % 2 ^ p.decl.width).toNat := by
  induction values using List.reverseRecOn with
  | nil => rfl
  | append_singleton values e ih =>
      have hbefore := length_assign hunits hlen values
      rw [assign_append, lastValue_append_singleton]
      show p.get (objectSetattr cls (cls.assign obj values) e.1 e.2).buffer = _
      by_cases he : e.1 = name
      · rw [if_pos he, he, buffer_objectSetattr hp, get_set_self hunits hp hbefore]
        rfl
      · rw [if_neg he, get_objectSetattr_other hunits hbefore hp (Ne.symm he), ih]

end RegisterClass

/-! ## The classes of a feature -/

/--
A class that describes a feature: `fid`, `_fields_`, `get_fields`, `set_fields`. Every field
is a dword or some bits of one.
-/
structure FeatureInfo where
  name : String
  fid : Int
  fields : List FieldDecl
  getFields : List FieldDecl
  setFields : List FieldDecl
  valid : ∀ d ∈ fields ++ getFields ++ setFields, d.Valid ∧ 0 < d.width ∧ d.size = 4

/-- A command class: its structure and its `_defaults_`. -/
structure CommandClass where
  cls : RegisterClass
  defaults : Dict String Int

namespace CommandClass

/-- `SQECommon.__init__`: the defaults, then what the caller passes. -/
def new (c : CommandClass) (kwargs : List (String × Int)) : RegObject :=
  c.cls.assign (c.cls.assign { buffer := List.replicate c.cls.size 0 } c.defaults.entries) kwargs

theorem length_new (c : CommandClass) (hunits : c.cls.OwnUnits) (kwargs : List (String × Int)) :
    (c.new kwargs).buffer.length = c.cls.size :=
  RegisterClass.length_assign hunits (RegisterClass.length_assign hunits List.length_replicate _)
    kwargs

/-- A field of a new command: zero, unless there is a default for it or the caller passes it. -/
theorem get_new (c : CommandClass) (hunits : c.cls.OwnUnits) {name : String} {p : Placed}
    (hp : c.cls.attr name = some p) (kwargs : List (String × Int)) : p.get (c.new kwargs).buffer
      = (lastValue name (c.defaults.entries ++ kwargs)).elim 0
          fun v => (v % 2 ^ p.decl.width).toNat := by
  have hget := @RegisterClass.get_assign _ { buffer := List.replicate c.cls.size 0 } _ _ hunits
    List.length_replicate hp (c.defaults.entries ++ kwargs)
  have hbetween := RegisterClass.between_placed hunits (RegsStructAccess.mem_placed_of_attr hp).1
  rw [RegisterClass.assign_append, Placed.get_zeros hbetween.fits] at hget
  exact hget

end CommandClass

/-- `__GetFeature._fields_1_` and `_defaults_`. -/
def GetFeature.fields1 : List FieldDecl := [⟨"FID", 4, some 8⟩, ⟨"SEL", 4, some 3⟩, ⟨"RSVD_0", 4, some 21⟩]

def GetFeature.defaults : Dict String Int := Dict.empty.set "OPC" 0x0A

/-- `__SetFeature._fields_1_` and `_defaults_`. -/
def SetFeature.fields1 : List FieldDecl := [⟨"FID", 4, some 8⟩, ⟨"RSVD_0", 4, some 23⟩, ⟨"SV", 4, some 1⟩]

def SetFeature.defaults : Dict String Int := Dict.empty.set "OPC" 0x09

/-- `_fields_2_` of both. -/
def featureFields2 : List FieldDecl := [⟨"UIDX", 4, some 7⟩, ⟨"RSVD_1", 4, some 25⟩, ⟨"DW15", 4, none⟩]

namespace FeatureInfo

variable (info : FeatureInfo)

/-- The class itself: a structure of the fields. -/
def cls : RegisterClass where
  name := info.name
  fields := info.fields
  valid d hd := (info.valid d (List.mem_append_left _ (List.mem_append_left _ hd))).1

/-- `FeatureFactory`: the class of the get command, and that of the set command. -/
def featureFactory : CommandClass × CommandClass :=
  ({ cls := {
       name := "Get" ++ info.name
       fields := sqeCommon ++ (GetFeature.fields1 ++ info.getFields ++ featureFields2)
       valid := by
         have hfixed : ∀ d ∈ sqeCommon ++ GetFeature.fields1 ++ featureFields2, d.Valid := by decide
         simp only [List.mem_append] at hfixed ⊢
         rintro d (hd | (hd | hd) | hd)
         · exact hfixed d (Or.inl (Or.inl hd))
         · exact hfixed d (Or.inl (Or.inr hd))
         · exact (info.valid d (by simp [hd])).1
         · exact hfixed d (Or.inr hd) }
     defaults := GetFeature.defaults.set "FID" info.fid },
   { cls := {
       name := "Set" ++ info.name
       fields := sqeCommon ++ (SetFeature.fields1 ++ info.fields ++ info.setFields ++ featureFields2)
       valid := by
         have hfixed : ∀ d ∈ sqeCommon ++ SetFeature.fields1 ++ featureFields2, d.Valid := by decide
         simp only [List.mem_append] at hfixed ⊢
         rintro d (hd | ((hd | hd) | hd) | hd)
         · exact hfixed d (Or.inl (Or.inl hd))
         · exact hfixed d (Or.inl (Or.inr hd))
         · exact (info.valid d (by simp [hd])).1
         · exact (info.valid d (by simp [hd])).1
         · exact hfixed d (Or.inr hd) }
     defaults := SetFeature.defaults.set "FID" info.fid })

def getCls : CommandClass := info.featureFactory.1

def setCls : CommandClass := info.featureFactory.2

/-- `response`: an object of the class over dword 0 of the completion. -/
def response (cqe : CQE) : RegisterClass × RegObject :=
  (info.cls, { buffer := Mem.toLE 4 cqe.CMD_SPEC.toNat })

/-- The names behind the fields of the feature in a set command. -/
def laterNames : List String := (info.setFields ++ featureFields2).map FieldDecl.name

variable {info}

theorem ownUnits_cls : info.cls.OwnUnits :=
  ownUnits_of_size (fun d hd =>
    (info.valid d (List.mem_append_left _ (List.mem_append_left _ hd))).2.2)
    fun u hu => absurd hu (Option.not_mem_none u)

theorem fields_setCls : info.setCls.cls.fields = (sqeCommon ++ SetFeature.fields1)
    ++ (info.fields ++ (info.setFields ++ featureFields2)) := by
  show sqeCommon ++ (SetFeature.fields1 ++ info.fields ++ info.setFields ++ featureFields2) = _
  simp only [List.append_assoc]

/-- The fixed fields before the feature end with a dword that is used up. -/
theorem placeEnd_fields1 : placeEnd 0 none (sqeCommon ++ SetFeature.fields1) = (44, some (4, 8 * 4)) :=
  rfl

/-- Dwords after a unit of four bytes. -/
theorem ownUnits_dwords {ds : List FieldDecl} (hds : ∀ d ∈ ds, d.size = 4) {offset used : Nat} :
    OwnUnits offset (some (4, used)) ds :=
  ownUnits_of_size hds fun _ hu => (Option.some.inj hu) ▸ rfl

theorem ownUnits_setCls : info.setCls.cls.OwnUnits := by
  unfold RegisterClass.OwnUnits
  rw [fields_setCls]
  refine ownUnits_append (by decide) (ownUnits_dwords fun d hd => ?_)
  have hfixed : ∀ d ∈ featureFields2, d.size = 4 := by decide
  simp only [List.mem_append] at hd
  rcases hd with hd | hd | hd
  · exact (info.valid d (by simp [hd])).2.2
  · exact (info.valid d (by simp [hd])).2.2
  · exact hfixed d hd

theorem ownUnits_getCls : info.getCls.cls.OwnUnits := by
  have hfields : info.getCls.cls.fields
      = (sqeCommon ++ GetFeature.fields1) ++ (info.getFields ++ featureFields2) := by
    show sqeCommon ++ (GetFeature.fields1 ++ info.getFields ++ featureFields2) = _
    simp only [List.append_assoc]
  unfold RegisterClass.OwnUnits
  rw [hfields]
  refine ownUnits_append (by decide) (ownUnits_dwords fun d hd => ?_)
  have hfixed : ∀ d ∈ featureFields2, d.size = 4 := by decide
  rcases List.mem_append.mp hd with hd | hd
  · exact (info.valid d (by simp [hd])).2.2
  · exact hfixed d hd

/-- **In a set command the fields of the feature start dword 11.** -/
theorem placed_setCls (hne : info.fields ≠ []) : ∃ ps qs, info.setCls.cls.placed
      = ps ++ (info.cls.placed.map (Placed.shift 44) ++ qs)
    ∧ qs.map Placed.decl = info.setFields ++ featureFields2 := by
  have hvalid : ∀ d ∈ info.fields, d.Valid ∧ 0 < d.width ∧ d.size = 4 := fun d hd =>
    info.valid d (List.mem_append_left _ (List.mem_append_left _ hd))
  have hmove := @place_shift 0 44 none info.fields (fun d hd => (hvalid d hd).1) ownUnits_cls trivial
  have hlast := place_append 44 (some (4, 8 * 4)) info.fields (info.setFields ++ featureFields2)
  have hmid : (place 44 (some (4, 8 * 4)) info.fields).1 = info.cls.placed.map (Placed.shift 44) := by
    rw [place_used_up (fun d hd => (hvalid d hd).2.2) (fun d hd => (hvalid d hd).2.1) hne,
      ← Nat.zero_add 44, hmove]
    rfl
  rw [hmid] at hlast
  have hall := place_append 0 none (sqeCommon ++ SetFeature.fields1)
    (info.fields ++ (info.setFields ++ featureFields2))
  rw [placeEnd_fields1, hlast, ← fields_setCls] at hall
  exact ⟨_, _, hall, map_decl_place _ _ _⟩

/-- An attribute of the class is one of the set command, unless a later field has its name. -/
theorem attr_setCls {name : String} {p : Placed} (hp : info.cls.attr name = some p)
    (hlater : name ∉ info.laterNames) : info.setCls.cls.attr name = some (p.shift 44) := by
  have hne : info.fields ≠ [] := by
    intro hnil
    have hname : name ∈ info.fields.map FieldDecl.name := RegsStructAccess.names_of_attr hp
    rw [hnil] at hname
    exact absurd hname (by simp)
  obtain ⟨ps, qs, hplaced, hdecl⟩ := placed_setCls hne
  have hqs : qs.reverse.find? (fun q => q.decl.name = name) = none := by
    refine List.find?_eq_none.mpr fun q hq hname => hlater ?_
    unfold laterNames
    rw [← hdecl, List.map_map]
    exact List.mem_map.mpr ⟨q, List.mem_reverse.mp hq, of_decide_eq_true hname⟩
  have hmid : (info.cls.placed.map (Placed.shift 44)).reverse.find? (fun q => q.decl.name = name)
      = some (p.shift 44) := by
    unfold RegisterClass.attr at hp
    rw [← List.map_reverse, List.find?_map]
    show Option.map _ (info.cls.placed.reverse.find? fun q => q.decl.name = name) = _
    rw [hp]
    rfl
  unfold RegisterClass.attr
  rw [hplaced, List.reverse_append, List.reverse_append, List.find?_append, List.find?_append, hqs,
    Option.none_or, hmid, Option.some_or]

/-! ## What is set is what is answered -/

/-- One dword of fields, and commands of 64 bytes. -/
structure Fits (info : FeatureInfo) : Prop where
  size : info.cls.size = 4
  getSize : info.getCls.cls.size = 64
  setSize : info.setCls.cls.size = 64

instance (info : FeatureInfo) : Decidable info.Fits :=
  decidable_of_iff (info.cls.size = 4 ∧ info.getCls.cls.size = 64 ∧ info.setCls.cls.size = 64)
    ⟨fun ⟨h₁, h₂, h₃⟩ => ⟨h₁, h₂, h₃⟩, fun ⟨h₁, h₂, h₃⟩ => ⟨h₁, h₂, h₃⟩⟩

/-- A dword as a field of its own. -/
def dwordAt (offset : Nat) : Placed := ⟨⟨"", 4, none⟩, offset, 0⟩

theorem fits_dwordAt (offset : Nat) : (dwordAt offset).Fits := ⟨Nat.le_refl 32, fun _ => rfl⟩

theorem get_dwordAt_toLE {v : Nat} (hv : v < 2 ^ 32) : (dwordAt 0).get (Mem.toLE 4 v) = v := by
  show (loadUnit (Mem.toLE 4 v) 0 4).toNat = v
  unfold loadUnit
  rw [List.drop_zero, List.take_of_length_le (by rw [Mem.length_toLE]), Mem.ofLE_toLE,
    BitVec.toNat_ofNat]
  omega

/-- Dword 11 of a command, from its bytes. -/
theorem get_dw11 {bs : List (BitVec 8)} (hlen : bs.length = 64) :
    (dwordAt 44).get bs = (Generic.codec.decode bs).DW11.toNat := by
  have hbytes : Generic.codec.encode (Generic.codec.decode bs) = bs :=
    Generic.codec.encode_decode bs hlen
  have hget := Generic.get_encode (Generic.codec.decode bs) (k := 12) rfl rfl
  rw [hbytes] at hget
  exact hget

/-- The fields of a feature lie in one dword. -/
theorem Fits.le_dword (hfits : info.Fits) {name : String} {p : Placed}
    (hp : info.cls.attr name = some p) : p.start + p.decl.width ≤ 32 := by
  have hbetween := RegisterClass.between_placed ownUnits_cls (RegsStructAccess.mem_placed_of_attr hp).1
  have hupper := hbetween.upper
  have hunit := hbetween.fits.1
  rw [hfits.size] at hupper
  unfold Placed.start
  omega

/-- What a field of the answer shows: its bits of dword 0. -/
theorem get_response (hfits : info.Fits) {name : String} {p : Placed}
    (hp : info.cls.attr name = some p) (cqe : CQE) : p.get (info.response cqe).2.buffer
      = (cqe.CMD_SPEC.toNat >>> p.start) % 2 ^ p.decl.width := by
  have hbetween := RegisterClass.between_placed ownUnits_cls (RegsStructAccess.mem_placed_of_attr hp).1
  rw [@Placed.get_inside p (dwordAt 0) (info.response cqe).2.buffer hbetween.fits (fits_dwordAt 0)
    p.start (Nat.zero_add _).symm (hfits.le_dword hp)]
  unfold response
  rw [get_dwordAt_toLE cqe.CMD_SPEC.isLt]

/--
**Whatever fields a feature has, the answer that repeats dword 11 shows what was set.** The class
of the answer and the part of the command in dword 11 are laid out from the same declarations, 44
bytes apart.
-/
theorem response_roundTrip (hfits : info.Fits) {name : String} {p : Placed}
    (hp : info.cls.attr name = some p) (hlater : name ∉ info.laterNames)
    (kwargs : List (String × Int)) {cqe : CQE}
    (hcqe : cqe.CMD_SPEC = (Generic.codec.decode (info.setCls.new kwargs).buffer).DW11) :
    RegsStructAccess.objectGetattribute (info.response cqe).1 (info.response cqe).2 name
      = .ok ((lastValue name (info.setCls.defaults.entries ++ kwargs)).elim 0
          fun v => v % 2 ^ p.decl.width) := by
  have hset := attr_setCls hp hlater
  have hlen : (info.setCls.new kwargs).buffer.length = 64 :=
    (info.setCls.length_new ownUnits_setCls kwargs).trans hfits.setSize
  have hbetween := RegisterClass.between_placed ownUnits_setCls
    (RegsStructAccess.mem_placed_of_attr hset).1
  -- both are the same bits of the dword
  have hanswer : p.get (info.response cqe).2.buffer
      = (p.shift 44).get (info.setCls.new kwargs).buffer := by
    rw [get_response hfits hp, hcqe, ← get_dw11 hlen,
      @Placed.get_inside (p.shift 44) (dwordAt 44) (info.setCls.new kwargs).buffer hbetween.fits
        (fits_dwordAt 44) p.start (Placed.start_shift 44 p) (hfits.le_dword hp)]
    rfl
  -- and the command holds what was assigned last
  unfold RegsStructAccess.objectGetattribute
  rw [show (info.response cqe).1.attr name = some p from hp]
  dsimp only
  rw [hanswer, info.setCls.get_new ownUnits_setCls hset kwargs]
  cases lastValue name (info.setCls.defaults.entries ++ kwargs) with
  | none => rfl
  | some v =>
      have hnonneg : 0 ≤ v % 2 ^ p.decl.width := Int.emod_nonneg v (by positivity)
      exact congrArg Except.ok (Int.toNat_of_nonneg hnonneg)

end FeatureInfo

end LoneNvme
