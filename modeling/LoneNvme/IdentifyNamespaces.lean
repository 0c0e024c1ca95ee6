import LoneNvme.Commands
import LoneNvme.Lib.Python
import LoneNvme.Lib.Bytes

/-!
# Finding the namespaces

`identify_namespaces` asks for the list of namespaces, then for the data of each, and keeps
what it learns in a list of 1024 places at the namespace's id. The format of a namespace is
found with the whole byte `FLBAS`, whose low four bits alone are an index.

The device's answers are a parameter here, any bytes of the right length. What the source
computes from them is arithmetic of its own: sizes in decimal units, a block size from an
exponent. `discoversNamespaces_iff` says for which answers the table that comes out describes
every namespace of the list: its ids have a place, and no `FLBAS` has a bit above its low four.
-/

namespace LoneNvme

open Lib

namespace IdentifyNamespaceList

/-- `IdentifyNamespaceList()`. -/
def command : Generic := { OPC := Identify.OPC, DW10 := 0x02 }

/-- `data_in.Identifiers`. -/
def identifiers (dataIn : List (BitVec 8)) : List Nat := scalars dataIn 4 1024

end IdentifyNamespaceList

/-- `LBAFormat`, as far as it is used. -/
structure LBAFormat where
  MS : Nat
  LBADS : Nat
  deriving DecidableEq, Repr

namespace IdentifyNamespace

/-- `IdentifyNamespace(NSID=ns_id)`. -/
def command (nsId : Nat) : Generic := { OPC := Identify.OPC, NSID := BitVec.ofNat 32 nsId }

section

variable (dataIn : List (BitVec 8))

def NSZE : Nat := scalar dataIn 0 8
def NUSE : Nat := scalar dataIn 16 8
def FLBAS : Nat := scalar dataIn 26 1

/-- The entry of `LBAF_TBL` at `i`. -/
def lbaFormat (i : Nat) : LBAFormat :=
  let unit := scalar dataIn (128 + 4 * i) 4
  ⟨unit % 2 ^ 16, unit / 2 ^ 16 % 2 ^ 8⟩

/-- `LBAF_TBL[i]`: an array of sixteen. -/
def getFormat (i : Nat) : Except Exc LBAFormat :=
  if i < 16 then .ok (lbaFormat dataIn i) else .error (.indexError "invalid index")

/-- The format that the namespace is formatted with. -/
def currentFormat : LBAFormat := lbaFormat dataIn (FLBAS dataIn % 16)

end

end IdentifyNamespace

/-- What is kept of a namespace. `Decimal` are the floating-point numbers. -/
structure NamespaceInfo (Decimal : Type) where
  NSID : Nat
  idNsData : List (BitVec 8)
  nsze : Nat
  nuse : Nat
  flbas : Nat
  lbaDs : Nat
  msBytes : Nat
  lbaDsBytes : Nat
  nsUsage : Decimal
  nsTotal : Decimal
  nsUnit : String
  lbaSize : Nat
  lbaUnit : String

namespace NVMeDeviceIdentifyData

open IdentifyNamespace

variable {Decimal σ : Type}

section

-- `round(x / y, 2)`
variable (roundedQuotient : Nat → Nat → Decimal)

/-- `ns_size`. -/
def nsSize (lbaDsBytes nsze nuse : Nat) : Decimal × Decimal × String :=
  let total := lbaDsBytes * nsze
  let (unit, divisor) :=
    if total < 10 ^ 3 then ("B", 1)
    else if total < 10 ^ 6 then ("KB", 10 ^ 3)
    else if total < 10 ^ 9 then ("MB", 10 ^ 6)
    else if total < 10 ^ 12 then ("GB", 10 ^ 9)
    else ("TB", 10 ^ 12)
  (roundedQuotient (lbaDsBytes * nuse) divisor, roundedQuotient (lbaDsBytes * nsze) divisor, unit)

/-- `lba_ds_size`. -/
def lbaDsSize (lbaDsBytes : Nat) : Nat × String :=
  let (unit, divisor) := if lbaDsBytes > 1024 then ("KiB", 1024) else ("B", 1)
  (lbaDsBytes / divisor, unit)

/-- What is kept, once the format is known. -/
def namespaceInfo (nsId : Nat) (dataIn : List (BitVec 8)) (format : LBAFormat) :
    NamespaceInfo Decimal :=
  let lbaDsBytes := 2 ^ format.LBADS
  let (nsUsage, nsTotal, nsUnit) := nsSize roundedQuotient lbaDsBytes (NSZE dataIn) (NUSE dataIn)
  let (lbaSize, lbaUnit) := lbaDsSize lbaDsBytes
  { NSID := nsId, idNsData := dataIn, nsze := NSZE dataIn, nuse := NUSE dataIn
    flbas := FLBAS dataIn, lbaDs := format.LBADS, msBytes := format.MS
    lbaDsBytes, nsUsage, nsTotal, nsUnit, lbaSize, lbaUnit }

/-- The units of sizes, with the bytes they are. -/
def decimalUnits : List (String × Nat) :=
  [("B", 1), ("KB", 10 ^ 3), ("MB", 10 ^ 6), ("GB", 10 ^ 9), ("TB", 10 ^ 12)]

/-- The unit for a size: the size is at least one of it, and less than one of the next. -/
structure DecimalUnit (total : Nat) (unit : String × Nat) : Prop where
  known : unit ∈ decimalUnits
  reached : unit.2 ≤ total ∨ unit.2 = 1
  exceeded : total < 1000 * unit.2 ∨ unit.2 = 10 ^ 12

/-- Usage and size come in the unit of the size. -/
theorem nsSize_spec (lbaDsBytes nsze nuse : Nat) : ∃ unit, DecimalUnit (lbaDsBytes * nsze) unit
    ∧ nsSize roundedQuotient lbaDsBytes nsze nuse
      = (roundedQuotient (lbaDsBytes * nuse) unit.2, roundedQuotient (lbaDsBytes * nsze) unit.2,
        unit.1) := by
  unfold nsSize
  dsimp only
  by_cases hB : lbaDsBytes * nsze < 10 ^ 3
  · rw [if_pos hB]
    exact ⟨("B", 1), ⟨by decide, Or.inr rfl, Or.inl hB⟩, rfl⟩
  rw [if_neg hB]
  by_cases hKB : lbaDsBytes * nsze < 10 ^ 6
  · rw [if_pos hKB]
    exact ⟨("KB", 10 ^ 3), ⟨by decide, Or.inl (Nat.le_of_not_lt hB), Or.inl hKB⟩, rfl⟩
  rw [if_neg hKB]
  by_cases hMB : lbaDsBytes * nsze < 10 ^ 9
  · rw [if_pos hMB]
    exact ⟨("MB", 10 ^ 6), ⟨by decide, Or.inl (Nat.le_of_not_lt hKB), Or.inl hMB⟩, rfl⟩
  rw [if_neg hMB]
  by_cases hGB : lbaDsBytes * nsze < 10 ^ 12
  · rw [if_pos hGB]
    exact ⟨("GB", 10 ^ 9), ⟨by decide, Or.inl (Nat.le_of_not_lt hMB), Or.inl hGB⟩, rfl⟩
  rw [if_neg hGB]
  exact ⟨("TB", 10 ^ 12), ⟨by decide, Or.inl (Nat.le_of_not_lt hGB), Or.inr rfl⟩, rfl⟩

-- what `alloc` and `sync_cmd` of a command leave in its `data_in`
variable (identify : Generic → EStateM Exc σ (List (BitVec 8)))

/-- The body of the loop. -/
def addNamespace (namespaces : List (Option (NamespaceInfo Decimal))) (nsId : Nat) :
    EStateM Exc σ (List (Option (NamespaceInfo Decimal))) := do
  let dataIn ← identify (command nsId)
  match getFormat dataIn (FLBAS dataIn) with
  | .error e => throw e
  | .ok format =>
      if format.LBADS = 0 then throw (.assertionError "Invalid LBADS = 0")
      else if nsId < namespaces.length then
        return namespaces.set nsId (some (namespaceInfo roundedQuotient nsId dataIn format))
      else throw (.indexError "list assignment index out of range")

/-- `identify_namespaces`. -/
def identifyNamespaces :
    EStateM Exc σ (List (BitVec 8) × List (Option (NamespaceInfo Decimal))) := do
  let listData ← identify IdentifyNamespaceList.command
  let nsIds := (IdentifyNamespaceList.identifiers listData).filter fun nsId => nsId ≠ 0
  let namespaces ← nsIds.foldlM (addNamespace roundedQuotient identify) (List.replicate 1024 none)
  return (listData, namespaces)

end

/-! ## What a device may answer, and what should be found -/

/-- The answers of a device with the namespaces `nsIds`, whatever state it is in. -/
structure Answers (identify : Generic → EStateM Exc σ (List (BitVec 8))) (listData : List (BitVec 8))
    (data : Nat → List (BitVec 8)) (nsIds : List Nat) : Prop where
  list : ∀ s, ∃ s', identify IdentifyNamespaceList.command s = .ok listData s'
  answer : ∀ nsId ∈ nsIds, ∀ s, ∃ s', identify (command nsId) s = .ok (data nsId) s'
  /-- The list is padded with zeros. -/
  padded : IdentifyNamespaceList.identifiers listData
    = nsIds ++ List.replicate (1024 - nsIds.length) 0
  ascending : nsIds.Pairwise (· < ·)
  nonzero : ∀ nsId ∈ nsIds, nsId ≠ 0
  lbads : ∀ nsId ∈ nsIds, (currentFormat (data nsId)).LBADS ≠ 0

/-- The entry of a namespace. -/
structure Describes (ns : NamespaceInfo Decimal) (nsId : Nat) (dataIn : List (BitVec 8)) : Prop where
  nsid : ns.NSID = nsId
  data : ns.idNsData = dataIn
  lbaDs : ns.lbaDs = (currentFormat dataIn).LBADS
  lbaDsBytes : ns.lbaDsBytes = 2 ^ (currentFormat dataIn).LBADS
  msBytes : ns.msBytes = (currentFormat dataIn).MS

/-- The table has an entry for each namespace, and no other. -/
structure Table (namespaces : List (Option (NamespaceInfo Decimal)))
    (data : Nat → List (BitVec 8)) (nsIds : List Nat) : Prop where
  listed : ∀ nsId ∈ nsIds, ∃ ns, namespaces[nsId]? = some (some ns) ∧ Describes ns nsId (data nsId)
  unlisted : ∀ nsId ∉ nsIds, ∀ ns, namespaces[nsId]? ≠ some (some ns)

/-- `identify_namespaces` returns, with the right table. -/
def Discovers (roundedQuotient : Nat → Nat → Decimal)
    (identify : Generic → EStateM Exc σ (List (BitVec 8))) (listData : List (BitVec 8))
    (data : Nat → List (BitVec 8)) (nsIds : List Nat) (s : σ) : Prop :=
  ∃ namespaces s', identifyNamespaces roundedQuotient identify s = .ok (listData, namespaces) s'
    ∧ Table namespaces data nsIds

/-- A namespace that fits the two tables: its id the one of 1024, `FLBAS` the one of sixteen. -/
def Small (data : Nat → List (BitVec 8)) (nsId : Nat) : Prop :=
  nsId < 1024 ∧ FLBAS (data nsId) < 16

/-! ## The loop -/

section

variable {roundedQuotient : Nat → Nat → Decimal}
  {identify : Generic → EStateM Exc σ (List (BitVec 8))} {listData : List (BitVec 8)}
  {data : Nat → List (BitVec 8)} {nsId : Nat} {nsIds : List Nat}
  {namespaces : List (Option (NamespaceInfo Decimal))} {s : σ}

/-- The entry that is made. -/
def entry (roundedQuotient : Nat → Nat → Decimal) (data : Nat → List (BitVec 8)) (nsId : Nat) :
    NamespaceInfo Decimal :=
  namespaceInfo roundedQuotient nsId (data nsId) (currentFormat (data nsId))

theorem entry_sizes : ((entry roundedQuotient data nsId).nsUsage,
      (entry roundedQuotient data nsId).nsTotal, (entry roundedQuotient data nsId).nsUnit)
    = nsSize roundedQuotient (2 ^ (currentFormat (data nsId)).LBADS) (NSZE (data nsId))
        (NUSE (data nsId)) := rfl

theorem entry_lba : ((entry roundedQuotient data nsId).lbaSize,
      (entry roundedQuotient data nsId).lbaUnit)
    = lbaDsSize (2 ^ (currentFormat (data nsId)).LBADS) := rfl

theorem describes_entry : Describes (entry roundedQuotient data nsId) nsId (data nsId) :=
  ⟨rfl, rfl, rfl, rfl, rfl⟩

/-- **One namespace that fits** is entered at its id. -/
theorem addNamespace_of_small (hdata : ∀ s, ∃ s', identify (command nsId) s = .ok (data nsId) s')
    (hlbads : (currentFormat (data nsId)).LBADS ≠ 0) (hlen : namespaces.length = 1024)
    (hsmall : Small data nsId) : ∃ s', addNamespace roundedQuotient identify namespaces nsId s
      = .ok (namespaces.set nsId (some (entry roundedQuotient data nsId))) s' := by
  obtain ⟨s', hs'⟩ := hdata s
  have hformat : getFormat (data nsId) (FLBAS (data nsId)) = .ok (currentFormat (data nsId)) := by
    rw [getFormat, if_pos hsmall.2, currentFormat, Nat.mod_eq_of_lt hsmall.2]
  refine ⟨s', ?_⟩
  rw [addNamespace, run_bind_ok hs', hformat]
  dsimp only
  rw [if_neg hlbads, if_pos (hlen ▸ hsmall.1)]
  rfl

/-- One that does not raises. -/
theorem addNamespace_of_not_small (hdata : ∀ s, ∃ s', identify (command nsId) s = .ok (data nsId) s')
    (hlen : namespaces.length = 1024) (hsmall : ¬ Small data nsId) :
    ∃ e s', addNamespace roundedQuotient identify namespaces nsId s = .error e s' := by
  obtain ⟨s', hs'⟩ := hdata s
  rw [addNamespace, run_bind_ok hs', getFormat]
  by_cases hflbas : FLBAS (data nsId) < 16
  · have hnsId : ¬ nsId < namespaces.length := fun h => hsmall ⟨hlen ▸ h, hflbas⟩
    rw [if_pos hflbas]
    dsimp only
    rw [if_neg hnsId]
    split
    · exact ⟨_, _, rfl⟩
    · exact ⟨_, _, rfl⟩
  · rw [if_neg hflbas]
    exact ⟨_, _, rfl⟩

theorem addNamespaces_of_small
    (hdata : ∀ nsId ∈ nsIds, ∀ s, ∃ s', identify (command nsId) s = .ok (data nsId) s')
    (hlbads : ∀ nsId ∈ nsIds, (currentFormat (data nsId)).LBADS ≠ 0)
    (hlen : namespaces.length = 1024) (hsmall : ∀ nsId ∈ nsIds, Small data nsId) :
    ∃ namespaces' s', nsIds.foldlM (addNamespace roundedQuotient identify) namespaces s
        = .ok namespaces' s'
      ∧ (∀ nsId ∈ nsIds, namespaces'[nsId]? = some (some (entry roundedQuotient data nsId)))
      ∧ ∀ nsId ∉ nsIds, namespaces'[nsId]? = namespaces[nsId]? := by
  induction nsIds generalizing namespaces s with
  | nil => exact ⟨namespaces, s, rfl, fun _ h => absurd h (by simp), fun _ _ => rfl⟩
  | cons nsId nsIds ih =>
      have hhead := hsmall nsId List.mem_cons_self
      obtain ⟨s₁, hs₁⟩ := @addNamespace_of_small _ _ roundedQuotient _ _ _ _ s
        (hdata nsId List.mem_cons_self) (hlbads nsId List.mem_cons_self) hlen hhead
      obtain ⟨namespaces', s', hrun, hlisted, hothers⟩ :=
        @ih (namespaces.set nsId (some (entry roundedQuotient data nsId))) s₁
          (fun i hi => hdata i (List.mem_cons_of_mem nsId hi))
          (fun i hi => hlbads i (List.mem_cons_of_mem nsId hi))
          (by rw [List.length_set, hlen]) (fun i hi => hsmall i (List.mem_cons_of_mem nsId hi))
      refine ⟨namespaces', s', ?_, fun i hi => ?_, fun i hi => ?_⟩
      · rw [List.foldlM_cons, run_bind_ok hs₁, hrun]
      · -- a namespace listed again later is looked at again, with the same outcome
        by_cases hrest : i ∈ nsIds
        · exact hlisted i hrest
        · have heq : i = nsId := (List.mem_cons.mp hi).resolve_right hrest
          rw [hothers i hrest, heq, List.getElem?_set_self (hlen ▸ hhead.1)]
      · rw [List.mem_cons, not_or] at hi
        rw [hothers i hi.2, List.getElem?_set_ne (Ne.symm hi.1)]

theorem addNamespaces_of_not_small
    (hdata : ∀ nsId ∈ nsIds, ∀ s, ∃ s', identify (command nsId) s = .ok (data nsId) s')
    (hlbads : ∀ nsId ∈ nsIds, (currentFormat (data nsId)).LBADS ≠ 0)
    (hlen : namespaces.length = 1024) (hnot : ∃ nsId ∈ nsIds, ¬ Small data nsId) :
    ∃ e s', nsIds.foldlM (addNamespace roundedQuotient identify) namespaces s = .error e s' := by
  induction nsIds generalizing namespaces s with
  | nil =>
      obtain ⟨_, h, _⟩ := hnot
      exact absurd h (by simp)
  | cons nsId nsIds ih =>
      have hhead := hdata nsId List.mem_cons_self
      rw [List.foldlM_cons]
      by_cases hsmall : Small data nsId
      · obtain ⟨s₁, hs₁⟩ := @addNamespace_of_small _ _ roundedQuotient _ _ _ _ s hhead
          (hlbads nsId List.mem_cons_self) hlen hsmall
        obtain ⟨bad, hbad, hnotSmall⟩ := hnot
        -- the bad one comes later
        have hrest : bad ∈ nsIds :=
          (List.mem_cons.mp hbad).resolve_left fun he => hnotSmall (he ▸ hsmall)
        rw [run_bind_ok hs₁]
        exact ih (fun i hi => hdata i (List.mem_cons_of_mem nsId hi))
          (fun i hi => hlbads i (List.mem_cons_of_mem nsId hi))
          (by rw [List.length_set, hlen]) ⟨bad, hrest, hnotSmall⟩
      · obtain ⟨e, s', he⟩ := @addNamespace_of_not_small _ _ roundedQuotient _ _ _ _ s hhead hlen
          hsmall
        exact ⟨e, s', run_bind_error he⟩

/-- The ids that the loop goes over are those of the namespaces. -/
theorem Answers.filter_identifiers (h : Answers identify listData data nsIds) :
    ((IdentifyNamespaceList.identifiers listData).filter fun nsId => nsId ≠ 0) = nsIds := by
  have hkept : (nsIds.filter fun nsId => nsId ≠ 0) = nsIds :=
    List.filter_eq_self.mpr fun nsId hnsId => by simpa using h.nonzero nsId hnsId
  have hzeros : ∀ k, ((List.replicate k 0).filter fun nsId => nsId ≠ 0) = [] := fun k =>
    List.filter_eq_nil_iff.mpr fun _ hi => by simp [List.eq_of_mem_replicate hi]
  rw [h.padded, List.filter_append, hkept, hzeros, List.append_nil]

/-- A namespace that does not fit makes the whole call raise. -/
theorem Answers.raises (h : Answers identify listData data nsIds)
    (hnot : ∃ nsId ∈ nsIds, ¬ Small data nsId) (s : σ) :
    ∃ e s', identifyNamespaces roundedQuotient identify s = .error e s' := by
  obtain ⟨s₁, hs₁⟩ := h.list s
  obtain ⟨e, s', he⟩ := @addNamespaces_of_not_small _ _ roundedQuotient identify data nsIds _ s₁
    h.answer h.lbads List.length_replicate hnot
  refine ⟨e, s', ?_⟩
  rw [identifyNamespaces, run_bind_ok hs₁, h.filter_identifiers, run_bind_error he]

/--
**All namespaces are found exactly if each fits the two tables**: no id from 1024 on, and no
bit of `FLBAS` set above the four of the index.

The host's table has an entry for id 0 and none for id 1024, and the whole byte of `FLBAS` is
the index of the format. Either raises out of the loop, so one namespace spoils all.
-/
theorem discoversNamespaces_iff (roundedQuotient : Nat → Nat → Decimal)
    (h : Answers identify listData data nsIds) (s : σ) :
    Discovers roundedQuotient identify listData data nsIds s ↔
      ∀ nsId ∈ nsIds, nsId < 1024 ∧ FLBAS (data nsId) < 16 := by
  constructor
  · rintro ⟨namespaces, s', hrun, -⟩
    intro nsId hmem
    by_contra hnot
    obtain ⟨e, s'', he⟩ := @Answers.raises _ _ roundedQuotient _ _ _ _ h ⟨nsId, hmem, hnot⟩ s
    rw [he] at hrun
    exact nomatch hrun
  · intro hsmall
    obtain ⟨s₁, hs₁⟩ := h.list s
    obtain ⟨namespaces, s', hrun, hlisted, hothers⟩ :=
      @addNamespaces_of_small Decimal _ roundedQuotient identify data nsIds _ s₁ h.answer h.lbads
        List.length_replicate hsmall
    refine ⟨namespaces, s', ?_, fun nsId hmem => ?_, fun nsId hmem ns => ?_⟩
    · rw [identifyNamespaces, run_bind_ok hs₁, h.filter_identifiers, run_bind_ok hrun]
      rfl
    · exact ⟨_, hlisted nsId hmem, describes_entry⟩
    · rw [hothers nsId hmem, List.getElem?_replicate]
      split <;> simp

/-- The bytes of a list of namespaces. -/
def listBytes (nsIds : List Nat) : List (BitVec 8) :=
  nsIds.flatMap (Mem.toLE 4) ++ List.replicate (4096 - 4 * nsIds.length) 0

/-- Namespace data with one format, in the first place of the table. -/
def withFormat (flbas : BitVec 8) (ms lbads : Nat) : List (BitVec 8) :=
  List.replicate 26 0 ++ [flbas] ++ List.replicate 101 0 ++ Mem.toLE 2 ms ++ Mem.toLE 2 lbads
    ++ List.replicate 3964 0

/-- A device whose namespaces all have the same data. -/
def uniform (nsIds : List Nat) (dataIn : List (BitVec 8)) (command : Generic) :
    EStateM Exc Unit (List (BitVec 8)) :=
  return if command.DW10 = 0x02 then listBytes nsIds else dataIn

theorem answers_uniform {dataIn : List (BitVec 8)} (hlen : nsIds.length ≤ 1024)
    (hascending : nsIds.Pairwise (· < ·)) (hrange : ∀ nsId ∈ nsIds, nsId ≠ 0 ∧ nsId < 2 ^ 32)
    (hlbads : (currentFormat dataIn).LBADS ≠ 0) :
    Answers (uniform nsIds dataIn) (listBytes nsIds) (fun _ => dataIn) nsIds where
  list s := ⟨s, rfl⟩
  answer _ _ s := ⟨s, rfl⟩
  padded := by
    have hbytes : ∀ nsId ∈ nsIds, nsId < 256 ^ 4 := fun nsId h => (hrange nsId h).2
    have hfilled := scalars_flatMap hbytes (4096 - 4 * nsIds.length) (1024 - nsIds.length)
    rwa [Nat.add_sub_cancel' hlen] at hfilled
  ascending := hascending
  nonzero nsId h := (hrange nsId h).1
  lbads _ _ := hlbads

theorem discovers_two : Discovers (fun x y => x / y) (uniform [1, 1000] (withFormat 0 8 9))
    (listBytes [1, 1000]) (fun _ => withFormat 0 8 9) [1, 1000] () :=
  (discoversNamespaces_iff _ (answers_uniform (by decide) (by decide) (by decide) (by decide)) ()).mpr
    fun nsId hmem => ⟨(show ∀ i ∈ [1, 1000], i < 1024 by decide) nsId hmem, by decide⟩

/-- One namespace with metadata behind its data: bit 4 of `FLBAS` is set. -/
theorem not_discovers_extended :
    Answers (uniform [1] (withFormat 0x10 8 9)) (listBytes [1]) (fun _ => withFormat 0x10 8 9) [1]
      ∧ ¬ Discovers (fun x y => x / y) (uniform [1] (withFormat 0x10 8 9)) (listBytes [1])
        (fun _ => withFormat 0x10 8 9) [1] () := by
  have hanswers : Answers (uniform [1] (withFormat 0x10 8 9)) (listBytes [1])
      (fun _ => withFormat 0x10 8 9) [1] :=
    answers_uniform (by decide) (by decide) (by decide) (by decide)
  refine ⟨hanswers, fun ⟨namespaces, s', hrun, _⟩ => ?_⟩
  obtain ⟨e, s'', he⟩ := hanswers.raises ⟨1, by decide, fun hsmall => absurd hsmall.2 (by decide)⟩ ()
  rw [he] at hrun
  exact nomatch hrun

end

end NVMeDeviceIdentifyData

end LoneNvme
