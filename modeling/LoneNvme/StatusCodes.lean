import LoneNvme.Commands
import LoneNvme.Complete
import LoneNvme.Lib.Dict
import Mathlib.Logic.Relation

/-!
# Status codes

A code is registered under its value and the class of the commands it belongs to. The
simulator puts the value of a code into `SC` and leaves `SCT` alone; the host looks a
status with `SCT = 0` up among the generic codes only. So the host decodes what the
simulator meant for generic codes, and for no other.

Command classes are a parameter: what the decoder asks of one is its direct bases.
-/

namespace LoneNvme

open Lib

/-- The classes of commands. -/
structure CommandClasses (C : Type*) where
  generic : C
  bases : C → List C
  name : C → String

structure NVMeStatusCode (C : Type*) where
  value : Nat
  name : String
  cmdType : C
  deriving DecidableEq, Repr

/-- What the decoder returns: an object that was registered, or a new one. -/
inductive DecodedStatus (C : Type*) where
  | registered (code : NVMeStatusCode C)
  | unknown (code : NVMeStatusCode C)
  deriving DecidableEq, Repr

/-- What the decoder sees of a command. -/
structure CompletedCommand (C : Type*) where
  type : C
  cqe : CQE

structure NVMeStatusCodes (C : Type*) where
  codes : Dict (Nat × C) (NVMeStatusCode C)

/-- The codes of the base specification. -/
def genericStatusCodes : List (Nat × String) :=
  [(0x00, "Successful Completion"), (0x01, "Invalid Command Opcode"),
    (0x02, "Invalid Field in Command"), (0x03, "Command ID Conflict"),
    (0x04, "Data Transfer Error"), (0x05, "Commands Aborted due to Power Loss Notification"),
    (0x06, "Internal Error"), (0x07, "Command Abort Requested"),
    (0x08, "Command Aborted due to SQ Deletion"),
    (0x09, "Command Aborted due to Failed Fused Command"),
    (0x0A, "Command Aborted due to Missing Fused Command"),
    (0x0B, "Invalid Namespace or Format"), (0x0C, "Command Sequence Error"),
    (0x0D, "Invalid SGL Segment Descriptor"), (0x0E, "Invalid Number of SGL Descriptors"),
    (0x0F, "Data SGL Length Invalid"), (0x10, "Metadata SGL Length Invalid"),
    (0x11, "SGL Descriptor Type Invalid"), (0x12, "Invalid Use of Controller Memory Buffer"),
    (0x13, "PRP Offset Invalid"), (0x14, "Atomic Write Unit Exceeded"),
    (0x15, "Operation Denied"), (0x16, "SGL Offset Invalid"),
    (0x18, "Host Identifier Inconsistent Format"), (0x19, "Keep Alive Timer Expired"),
    (0x1A, "Keep Alive Timeout Invalid"), (0x1B, "Command Aborted due to Preempt and Abort"),
    (0x1C, "Sanitize Failed"), (0x1D, "Sanitize In Progress"),
    (0x1E, "SGL Data Block Granularity Invalid"),
    (0x1F, "Command Not Supported for Queue in CMB"), (0x20, "Namespace is Write Protected"),
    (0x21, "Command Interrupted"), (0x22, "Transient Transport Error"),
    (0x23, "Command Prohibited by Command and Feature Lockdown"),
    (0x24, "Admin Command Media Not Ready"), (0x80, "LBA Out of Range"),
    (0x81, "Capacity Exceeded"), (0x82, "Namespace Not Ready"), (0x83, "Reservation Conflict"),
    (0x84, "Format In Progress"), (0x85, "Invalid Value Size"), (0x86, "Invalid Key Size"),
    (0x87, "KV Key Does Not Exist"), (0x88, "Unrecovered Error"), (0x89, "Key Exists")]

namespace DecodedStatus

def code {C : Type*} : DecodedStatus C → NVMeStatusCode C
  | registered code => code
  | unknown code => code

end DecodedStatus

namespace NVMeStatusCode

/-- `"{:02x}"`, of a byte. -/
def hex (n : Nat) : String :=
  let digits := String.ofList (Nat.toDigits 16 n)
  if digits.length < 2 then "0" ++ digits else digits

/-- `NVMeStatusCodeException(code)`. -/
def exception {C : Type*} (cls : CommandClasses C) (code : NVMeStatusCode C) : Exc :=
  .custom "NVMeStatusCodeException"
    ("SF.SC: 0x" ++ hex code.value ++ " \"" ++ code.name ++ "\" cmd: " ++ cls.name code.cmdType)

end NVMeStatusCode

namespace NVMeStatusCodes

variable {C : Type*} [DecidableEq C]

/-- `add`, of a list of codes. -/
def add (s : NVMeStatusCodes C) (codes : List (NVMeStatusCode C)) : NVMeStatusCodes C :=
  ⟨codes.foldl (fun d code => d.set (code.value, code.cmdType) code) s.codes⟩

/-- The constructor: all generic codes. -/
def new (cls : CommandClasses C) : NVMeStatusCodes C :=
  add ⟨Dict.empty⟩ (genericStatusCodes.map fun c => ⟨c.1, c.2, cls.generic⟩)

/-- The registry after calls of `add`. -/
def addAll (cls : CommandClasses C) (adds : List (List (NVMeStatusCode C))) : NVMeStatusCodes C :=
  adds.foldl add (new cls)

def values (s : NVMeStatusCodes C) : List (NVMeStatusCode C) := s.codes.entries.map Prod.snd

/-- Whether a code is the status of the command. -/
def isStatus (cls : CommandClasses C) (command : CompletedCommand C) (v : NVMeStatusCode C) : Bool :=
  if command.cqe.SF.SCT = 0 then
    v.value = command.cqe.SF.SC.toNat ∧ v.cmdType = cls.generic
  else
    v.value = command.cqe.SF.SC.toNat ∧ (v.cmdType = command.type ∨ v.cmdType ∈ cls.bases command.type)

/-- `get`. -/
def get (cls : CommandClasses C) (s : NVMeStatusCodes C) (command : CompletedCommand C) :
    DecodedStatus C :=
  match s.values.find? (isStatus cls command) with
  | some code => .registered code
  | none => .unknown ⟨command.cqe.SF.SC.toNat, "Unknown", command.type⟩

/-- `check`. -/
def check (cls : CommandClasses C) (s : NVMeStatusCodes C) (command : CompletedCommand C)
    (raiseExc : Bool := true) : Except Exc Unit :=
  if command.cqe.SF.SCT = 0 ∧ command.cqe.SF.SC = 0 then
    .ok ()
  else if raiseExc then
    .error ((s.get cls command).code.exception cls)
  else
    .ok ()

/-- `status_codes[name, cmd_type]`: the first code of that name, if there is one. -/
def getItem (s : NVMeStatusCodes C) (name : String) (cmdType : C) : Option (NVMeStatusCode C) :=
  s.values.find? fun v => v.name = name ∧ v.cmdType = cmdType

/-! ## The registry -/

variable {cls : CommandClasses C} {s : NVMeStatusCodes C}

/-- Every code is registered under its own value and class. -/
def Keyed (s : NVMeStatusCodes C) : Prop :=
  ∀ k code, (k, code) ∈ s.codes.entries → k = (code.value, code.cmdType)

theorem Keyed.add (h : Keyed s) (codes : List (NVMeStatusCode C)) : Keyed (s.add codes) := by
  induction codes generalizing s with
  | nil => exact h
  | cons new codes ih =>
      refine @ih ⟨s.codes.set (new.value, new.cmdType) new⟩ fun k code hm => ?_
      rcases Dict.mem_entries_set.mp hm with ⟨rfl, rfl⟩ | ⟨_, hold⟩
      · rfl
      · exact h k code hold

theorem keyed_addAll (adds : List (List (NVMeStatusCode C))) : Keyed (addAll cls adds) := by
  have hnew : Keyed (new cls) := by
    refine Keyed.add (fun k code hm => ?_) _
    exact absurd hm (by simp [Dict.empty])
  unfold addAll
  generalize new cls = s at hnew
  induction adds generalizing s with
  | nil => exact hnew
  | cons codes adds ih => exact ih (s.add codes) (hnew.add codes)

omit [DecidableEq C] in
/-- Two registered codes of one value and class are the same. -/
theorem Keyed.unique (h : Keyed s) {v w : NVMeStatusCode C} (hv : v ∈ s.values) (hw : w ∈ s.values)
    (hvalue : v.value = w.value) (htype : v.cmdType = w.cmdType) : v = w := by
  obtain ⟨⟨k, _⟩, hm, rfl⟩ := List.mem_map.mp hv
  obtain ⟨⟨k', _⟩, hm', rfl⟩ := List.mem_map.mp hw
  have hk := h k _ hm
  have hk' := h k' _ hm'
  dsimp only at hvalue htype
  rw [hvalue, htype, ← hk'] at hk
  subst hk
  exact Dict.entries_inj hm hm'

/-! ## What the host decodes -/

/-- The host gets the object the simulator meant, and raises unless it is the generic success. -/
def Decodes (cls : CommandClasses C) (s : NVMeStatusCodes C) (command : CompletedCommand C)
    (code : NVMeStatusCode C) : Prop :=
  s.get cls command = .registered code
    ∧ ((∃ e, s.check cls command = .error e) ↔ ¬ (code.cmdType = cls.generic ∧ code.value = 0))

/-- A status of type zero is decoded as the generic code of its value. -/
theorem get_of_generic (h : Keyed s) {command : CompletedCommand C} {code : NVMeStatusCode C}
    (hcode : code ∈ s.values) (hsct : command.cqe.SF.SCT = 0)
    (hsc : command.cqe.SF.SC.toNat = code.value) :
    s.get cls command = .registered code ↔ code.cmdType = cls.generic := by
  -- a status code type of 0 is looked for among the generic codes
  have hiff : ∀ v, isStatus cls command v = true ↔ v.value = code.value ∧ v.cmdType = cls.generic := by
    intro v
    unfold isStatus
    rw [if_pos hsct, hsc, decide_eq_true_eq]
  unfold get
  constructor
  · intro hget
    split at hget
    · rename_i found hfind
      injection hget with hget
      rw [← hget]
      exact ((hiff found).mp (List.find?_some hfind)).2
    · exact absurd hget (by simp)
  · intro hgeneric
    cases hfind : s.values.find? (isStatus cls command) with
    | none => exact absurd ((hiff code).mpr ⟨rfl, hgeneric⟩) (List.find?_eq_none.mp hfind code hcode)
    | some found =>
        obtain ⟨hvalue, htype⟩ := (hiff found).mp (List.find?_some hfind)
        have hsame := h.unique (List.mem_of_find?_eq_some hfind) hcode hvalue (htype.trans hgeneric.symm)
        rw [hsame]

theorem check_raises_iff {command : CompletedCommand C} :
    (∃ e, s.check cls command = .error e)
      ↔ ¬ (command.cqe.SF.SCT = 0 ∧ command.cqe.SF.SC = 0) := by
  unfold check
  by_cases h : command.cqe.SF.SCT = 0 ∧ command.cqe.SF.SC = 0
  · rw [if_pos h]
    exact iff_of_false (fun ⟨_, he⟩ => absurd he (by simp)) fun hn => hn h
  · rw [if_neg h]
    exact iff_of_true ⟨_, rfl⟩ h

/-- What `complete` left in the ring. -/
theorem complete_status {cid : BitVec 16} {sq : NVMeSubmissionQueue} {cq cq' : NVMeCompletionQueue}
    {cqhead statusCode : Nat} {ring ring' : Nat → CQE} {cmdSpecValue : BitVec 32}
    (h : NVSimCmdHandlerInterface.complete cid sq cq cqhead ring statusCode cmdSpecValue
      = .ok (cq', ring')) :
    (ring' cq.tail).SF.SCT = 0 ∧ (ring' cq.tail).SF.SC = BitVec.ofNat 8 statusCode := by
  unfold NVSimCmdHandlerInterface.complete at h
  rw [NVMeCompletionQueue.postCompletion_ok (NVMeCompletionQueue.postCompletion_room h)] at h
  injection h with h
  injection h with _ hring
  rw [← hring, Function.update_self]
  exact ⟨rfl, rfl⟩

/--
**Generic codes only.** After any calls of `add`, a handler completes a command with a
registered code of a byte's value, and the host copies the entry: it decodes that code
exactly if the code is generic.

`complete` sets the code and never its type, and for type 0 the host looks among the generic
codes only.
-/
theorem decodes_iff {adds : List (List (NVMeStatusCode C))} {code : NVMeStatusCode C}
    (hcode : code ∈ (addAll cls adds).values) (hvalue : code.value ≤ 255)
    {cid : BitVec 16} {sq : NVMeSubmissionQueue} {cq cq' : NVMeCompletionQueue} {cqhead : Nat}
    {ring ring' : Nat → CQE} {cmdSpecValue : BitVec 32}
    (hcomplete : NVSimCmdHandlerInterface.complete cid sq cq cqhead ring code.value cmdSpecValue
      = .ok (cq', ring')) (type : C) :
    Decodes cls (addAll cls adds) ⟨type, ring' cq.tail⟩ code ↔ code.cmdType = cls.generic := by
  obtain ⟨hsct, hsc⟩ := complete_status hcomplete
  -- the code fits its byte
  have hvalue' : (ring' cq.tail).SF.SC.toNat = code.value := by
    rw [hsc, BitVec.toNat_ofNat]
    exact Nat.mod_eq_of_lt (Nat.lt_succ_of_le hvalue)
  have hget := @get_of_generic C _ cls _ (keyed_addAll adds) ⟨type, ring' cq.tail⟩ code hcode hsct hvalue'
  constructor
  · exact fun h => hget.mp h.1
  · intro hgeneric
    refine ⟨hget.mpr hgeneric, ?_⟩
    rw [check_raises_iff, not_iff_not]
    show (ring' cq.tail).SF.SCT = 0 ∧ (ring' cq.tail).SF.SC = 0 ↔ _
    refine ⟨fun h => ⟨hgeneric, ?_⟩, fun h => ⟨hsct, ?_⟩⟩
    · rw [← hvalue', h.2]
      rfl
    · rw [hsc, h.2]
      rfl

end NVMeStatusCodes

/-! ## The commands of the log pages -/

/-- The classes between `SQECommon` and the log pages, and those the factory makes. -/
inductive LogPageClass where
  | sqeCommon
  | generic
  | adminCommand
  | getLogPage
  | factory (name : String) (lid : Nat)
  deriving DecidableEq, Repr

namespace LogPageClass

/-- `__bases__`. `GetLogPageFactory` derives its classes from `ADMINCommand`. -/
def bases : LogPageClass → List LogPageClass
  | sqeCommon => []
  | generic => [sqeCommon]
  | adminCommand => [sqeCommon]
  | getLogPage => [adminCommand]
  | factory _ _ => [adminCommand]

/-- `__name__`. -/
def name : LogPageClass → String
  | sqeCommon => "SQECommon"
  | generic => "Generic"
  | adminCommand => "ADMINCommand"
  | getLogPage => "GetLogPage"
  | factory name _ => name

def classes : CommandClasses LogPageClass := ⟨generic, bases, name⟩

/-- The codes registered for `GetLogPage`. -/
def statusCodes : List (NVMeStatusCode LogPageClass) :=
  [⟨0x09, "Invalid Log Page", getLogPage⟩, ⟨0x29, "I/O Command Set Not Supported", getLogPage⟩]

/-- No command the factory made is decoded with a code of `GetLogPage`, whatever the status type. -/
theorem get_factory (s : NVMeStatusCodes LogPageClass) {name : String} {lid : Nat} {cqe : CQE}
    {code : NVMeStatusCode LogPageClass} (hcode : code.cmdType = getLogPage) :
    s.get classes ⟨factory name lid, cqe⟩ ≠ .registered code := by
  intro hget
  unfold NVMeStatusCodes.get at hget
  split at hget
  · rename_i found hfind
    injection hget with hget
    have hstatus := List.find?_some hfind
    rw [hget, NVMeStatusCodes.isStatus] at hstatus
    split at hstatus
    · rw [decide_eq_true_eq, hcode] at hstatus
      exact absurd hstatus.2 (by decide)
    · rw [decide_eq_true_eq, hcode] at hstatus
      rcases hstatus.2 with htype | hbase
      · exact absurd htype (by simp)
      · exact absurd hbase (by simp [classes, bases])
  · exact absurd hget (by simp)

end LogPageClass

namespace NVMeStatusCodes

/-- A queue with room for one entry. -/
def emptyQueue : NVMeCompletionQueue where
  baseAddress := 0
  entries := 2
  entrySize := 16
  qid := 0

/-- `LBA Out of Range` is generic, and decoded for any command. -/
theorem decodes_iff_lbaOutOfRange :
    ∃ cq' ring', NVSimCmdHandlerInterface.complete 7 default emptyQueue 0 (fun _ => {}) 0x80
        = .ok (cq', ring')
      ∧ Decodes LogPageClass.classes (addAll LogPageClass.classes [LogPageClass.statusCodes])
        ⟨.getLogPage, ring' 0⟩ ⟨0x80, "LBA Out of Range", .generic⟩ :=
  ⟨_, _, rfl, (@decodes_iff LogPageClass _ LogPageClass.classes [LogPageClass.statusCodes]
    ⟨0x80, "LBA Out of Range", .generic⟩ (by decide +kernel) (by decide) 7 default emptyQueue _ 0
    (fun _ => {}) _ 0 rfl .getLogPage).mpr rfl⟩

/-- The codes the simulator's handlers look up. -/
example : [("Successful Completion", StatusCodes.successfulCompletion),
      ("Invalid Field in Command", StatusCodes.invalidFieldInCommand),
      ("Invalid Namespace or Format", StatusCodes.invalidNamespaceOrFormat),
      ("LBA Out of Range", StatusCodes.lbaOutOfRange)].all (fun c =>
    ((new LogPageClass.classes).getItem c.1 .generic).map NVMeStatusCode.value == some c.2) = true := by
  decide +kernel

/-- The class of a command is, or derives from, that of the code, or the code is generic. -/
def Applies {C : Type*} (cls : CommandClasses C) (type : C) (code : NVMeStatusCode C) : Prop :=
  code.cmdType = cls.generic ∨ Relation.ReflTransGen (fun t b => b ∈ cls.bases t) type code.cmdType

/-- `Invalid Log Page`: the host reports a failed fused command. -/
theorem not_decodes_invalidLogPage :
    ¬ ∀ (adds : List (List (NVMeStatusCode LogPageClass))) (code : NVMeStatusCode LogPageClass),
      code ∈ (addAll LogPageClass.classes adds).values → code.value ≤ 255 →
      ∀ (cid : BitVec 16) (sq : NVMeSubmissionQueue) (cq cq' : NVMeCompletionQueue) (cqhead : Nat)
        (ring ring' : Nat → CQE), NVSimCmdHandlerInterface.complete cid sq cq cqhead ring code.value
          = .ok (cq', ring') →
      ∀ type, Applies LogPageClass.classes type code →
        Decodes LogPageClass.classes (addAll LogPageClass.classes adds) ⟨type, ring' cq.tail⟩ code := by
  intro hall
  have h := hall [LogPageClass.statusCodes] ⟨0x09, "Invalid Log Page", .getLogPage⟩ (by decide +kernel)
    (by decide) 7 default emptyQueue _ 0 (fun _ => {}) _ rfl .getLogPage
    (Or.inr Relation.ReflTransGen.refl)
  have hget := h.1
  have hgeneric : get LogPageClass.classes (addAll LogPageClass.classes [LogPageClass.statusCodes])
      ⟨.getLogPage, { CID := 7, SF := { P := 1, SC := 0x09 } }⟩
      = .registered ⟨0x09, "Command Aborted due to Failed Fused Command", .generic⟩ := by
    decide +kernel
  have hsame := hgeneric.symm.trans hget
  injection hsame with hsame
  injection hsame with _ _ htype
  exact absurd htype (by decide)

end NVMeStatusCodes

end LoneNvme
