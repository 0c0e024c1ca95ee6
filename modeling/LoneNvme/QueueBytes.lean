import LoneNvme.QueueMemory

/-!
# The bytes of the queues carry the queues

Where the areas of the queues and the doorbells do not overlap, memory is a table of
cells: a slot of a submission queue, a slot of a completion queue, a tail, a head. Every
operation replaces one or two cells, as the operation on rings replaces entries and
positions. So the two run in step, and what is true of rings is true of bytes.

`run_represents` is that statement for every list of operations, and it holds step for step:
an operation that returns on one side returns on the other, with the same result. What is
proved about rings under every schedule is then true of the bytes (`delivered_of_reachable`),
with the commands and completions logged as they were handed in.
-/

namespace LoneNvme

open Lib

/-! ## The memory map -/

/-- What the queues keep in memory: the slots of a queue, and the array of doorbells. -/
inductive QueueArea where
  | sq (i : Nat)
  | cq (c : Nat)
  | doorbells
  deriving DecidableEq, Repr

namespace QueueArea

def start (cfg : RingsConfig) (sqndbs : Nat) : QueueArea → Nat
  | sq i => cfg.sqBase i
  | cq c => cfg.cqBase c
  | doorbells => sqndbs

/-- The bytes of the area. `SQNDBS` has 1024 elements. -/
def size (cfg : RingsConfig) : QueueArea → Nat
  | sq i => cfg.sqEntries i * 64
  | cq c => cfg.cqEntries c * 16
  | doorbells => 1024 * 8

def Used (cfg : RingsConfig) : QueueArea → Prop
  | sq i => i ∈ cfg.sqs
  | cq c => c ∈ cfg.cqs
  | doorbells => True

end QueueArea

/-- No two areas overlap, and every id has its doorbells. -/
structure Layout (cfg : RingsConfig) (sqndbs : Nat) : Prop where
  sqid_lt : ∀ i ∈ cfg.sqs, i < 1024
  cqid_lt : ∀ c ∈ cfg.cqs, c < 1024
  apart : ∀ a b : QueueArea, a.Used cfg → b.Used cfg → a ≠ b →
    a.start cfg sqndbs + a.size cfg ≤ b.start cfg sqndbs
      ∨ b.start cfg sqndbs + b.size cfg ≤ a.start cfg sqndbs

/-- The memory of the queues, cell by cell. -/
inductive QueueCell where
  | sqe (i slot : Nat)
  | cqe (c slot : Nat)
  | sqtail (i : Nat)
  | cqhead (c : Nat)
  deriving DecidableEq, Repr

namespace QueueCell

def addr (cfg : RingsConfig) (sqndbs : Nat) : QueueCell → Nat
  | sqe i slot => cfg.sqBase i + slot * 64
  | cqe c slot => cfg.cqBase c + slot * 16
  | sqtail i => sqtailAddr sqndbs i
  | cqhead c => cqheadAddr sqndbs c

def size : QueueCell → Nat
  | sqe _ _ => 64
  | cqe _ _ => 16
  | sqtail _ => 4
  | cqhead _ => 4

def Used (cfg : RingsConfig) : QueueCell → Prop
  | sqe i slot => i ∈ cfg.sqs ∧ slot < cfg.sqEntries i
  | cqe c slot => c ∈ cfg.cqs ∧ slot < cfg.cqEntries c
  | sqtail i => i ∈ cfg.sqs
  | cqhead c => c ∈ cfg.cqs

def area : QueueCell → QueueArea
  | sqe i _ => .sq i
  | cqe c _ => .cq c
  | sqtail _ => .doorbells
  | cqhead _ => .doorbells

variable {cfg : RingsConfig} {sqndbs : Nat} {k l : QueueCell}

/-- A cell lies in its area. -/
theorem inside (h : Layout cfg sqndbs) (hk : k.Used cfg) : k.area.Used cfg
    ∧ k.area.start cfg sqndbs ≤ k.addr cfg sqndbs
    ∧ k.addr cfg sqndbs + k.size ≤ k.area.start cfg sqndbs + k.area.size cfg := by
  cases k with
  | sqe i slot =>
      have hslot := hk.2
      refine ⟨hk.1, Nat.le_add_right _ _, ?_⟩
      dsimp only [addr, size, area, QueueArea.start, QueueArea.size]
      omega
  | cqe c slot =>
      have hslot := hk.2
      refine ⟨hk.1, Nat.le_add_right _ _, ?_⟩
      dsimp only [addr, size, area, QueueArea.start, QueueArea.size]
      omega
  | sqtail i =>
      have hlt := h.sqid_lt i hk
      refine ⟨trivial, Nat.le_add_right _ _, ?_⟩
      dsimp only [addr, size, area, QueueArea.start, QueueArea.size, sqtailAddr]
      omega
  | cqhead c =>
      have hlt := h.cqid_lt c hk
      refine ⟨trivial, Nat.le_add_right _ _, ?_⟩
      dsimp only [addr, size, area, QueueArea.start, QueueArea.size, cqheadAddr]
      omega

/-- Two cells of one area do not overlap. -/
theorem apart_of_area (harea : k.area = l.area) (hne : k ≠ l) :
    k.addr cfg sqndbs + k.size ≤ l.addr cfg sqndbs
      ∨ l.addr cfg sqndbs + l.size ≤ k.addr cfg sqndbs := by
  cases k <;> cases l <;> cases harea <;>
    simp only [ne_eq, sqe.injEq, cqe.injEq, sqtail.injEq, cqhead.injEq, true_and] at hne <;>
    dsimp only [addr, size, sqtailAddr, cqheadAddr] <;> omega

/-- **No two cells share a byte.** -/
theorem apart (h : Layout cfg sqndbs) (k l : QueueCell) (hk : k.Used cfg) (hl : l.Used cfg)
    (hne : k ≠ l) : k.addr cfg sqndbs + k.size ≤ l.addr cfg sqndbs
      ∨ l.addr cfg sqndbs + l.size ≤ k.addr cfg sqndbs := by
  by_cases harea : k.area = l.area
  · exact apart_of_area harea hne
  · obtain ⟨hku, hks, hke⟩ := inside h hk
    obtain ⟨hlu, hls, hle⟩ := inside h hl
    have hareas := h.apart _ _ hku hlu harea
    omega

end QueueCell

/-- The memory of the queues as a table. -/
def queueCells {cfg : RingsConfig} {sqndbs : Nat} (h : Layout cfg sqndbs) : Cells QueueCell where
  addr := QueueCell.addr cfg sqndbs
  size := QueueCell.size
  used := QueueCell.Used cfg
  apart := QueueCell.apart h

/-- Storing to a cell replaces its entry. -/
theorem QueueCell.holds_store {cfg : RingsConfig} {sqndbs : Nat} {hlay : Layout cfg sqndbs} {m : Mem}
    {t : QueueCell → List (BitVec 8)} (h : (queueCells hlay).Holds m t) {k : QueueCell}
    (hk : k.Used cfg) {bs : List (BitVec 8)} (hlen : bs.length = k.size) :
    (queueCells hlay).Holds (m.store (k.addr cfg sqndbs) bs) (Function.update t k bs) :=
  Cells.Holds.put h hk hlen

namespace QueueMemory

variable {cfg : RingsConfig} {sqndbs : Nat} {hlay : Layout cfg sqndbs}

/-! ## What the table holds -/

/-- The bytes of the cells, as the rings have them. -/
def contents (cfg : RingsConfig) (r : Rings) : QueueCell → List (BitVec 8)
  | .sqe i slot => Generic.codec.encode (r.sqRing (cfg.sqBase i) slot)
  | .cqe c slot => CQE.codec.encode (r.cqRing (cfg.cqBase c) slot)
  | .sqtail i => Mem.toLE 4 (r.SQTAIL i)
  | .cqhead c => Mem.toLE 4 (r.CQHEAD c)

/-- **Memory, objects and histories stand for a state of the rings.** -/
structure Represents (hlay : Layout cfg sqndbs) (x : QueueMemory) (r : Rings) : Prop where
  inv : Rings.Inv cfg r
  memory : (queueCells hlay).Holds x.mem (contents cfg r)
  hostSq : ∀ i ∈ cfg.sqs, x.hostSq i = ⟨r.hostSq i, sqtailAddr sqndbs i⟩
    ∧ (r.hostSq i).entrySize = 64
  simSq : ∀ i ∈ cfg.sqs, x.simSq i = ⟨r.simSq i, sqtailAddr sqndbs i⟩ ∧ (r.simSq i).entrySize = 64
  hostCq : ∀ c ∈ cfg.cqs, x.hostCq c = ⟨r.hostCq c, cqheadAddr sqndbs c⟩
    ∧ (r.hostCq c).entrySize = 16
  simCq : ∀ c ∈ cfg.cqs, x.simCq c = ⟨r.simCq c, cqheadAddr sqndbs c⟩ ∧ (r.simCq c).entrySize = 16
  sent : ∀ i ∈ cfg.sqs, x.sent i = (r.posted i).map Generic.codec.encode
  received : ∀ i ∈ cfg.sqs, x.received i
    = ((r.posted i).take (r.fetched i)).map Generic.codec.encode
  acked : ∀ i ∈ cfg.sqs, x.acked i = r.acked i
  answered : ∀ c ∈ cfg.cqs, x.answered c = (r.cposted c).map CQE.codec.encode
  seen : ∀ c ∈ cfg.cqs, x.seen c = ((r.cposted c).take (r.consumed c)).map CQE.codec.encode

namespace Represents

variable {x : QueueMemory} {r : Rings} {i c : Nat}

theorem sqtail_lt (h : Represents hlay x r) (hi : i ∈ cfg.sqs) : r.SQTAIL i < cfg.sqEntries i := by
  rw [(h.inv.sq i hi).tail]
  exact Nat.mod_lt _ (cfg.sqEntries_pos i hi)

theorem cqhead_lt (h : Represents hlay x r) (hc : c ∈ cfg.cqs) : r.CQHEAD c < cfg.cqEntries c := by
  rw [(h.inv.cq c hc).head]
  exact Nat.mod_lt _ (h.inv.cq c hc).pos

/-- The doorbells hold the positions. -/
theorem cellValue_sqtail (h : Represents hlay x r) (hi : i ∈ cfg.sqs) :
    NVMeHeadTail.cellValue x.mem (sqtailAddr sqndbs i) = r.SQTAIL i :=
  NVMeHeadTail.cellValue_eq (h.memory (.sqtail i) hi)
    (Nat.lt_of_lt_of_le (h.sqtail_lt hi) (cfg.sqEntries_le i hi))

theorem cellValue_cqhead (h : Represents hlay x r) (hc : c ∈ cfg.cqs) :
    NVMeHeadTail.cellValue x.mem (cqheadAddr sqndbs c) = r.CQHEAD c :=
  NVMeHeadTail.cellValue_eq (h.memory (.cqhead c) hc)
    (Nat.lt_of_lt_of_le (h.cqhead_lt hc) (RingsConfig.cqEntries_le_of_mem hc))

/-- The address of a slot is that of its cell. -/
theorem slotAddr_sq (sqndbs : Nat) {sq : NVMeSubmissionQueue} (hb : sq.baseAddress = cfg.sqBase i)
    (hs : sq.entrySize = 64) (dbt slot : Nat) :
    MappedSubmissionQueue.slotAddr ⟨sq, dbt⟩ slot = QueueCell.addr cfg sqndbs (.sqe i slot) := by
  unfold MappedSubmissionQueue.slotAddr
  rw [hb, hs]
  rfl

theorem slotAddr_cq (sqndbs : Nat) {cq : NVMeCompletionQueue} (hb : cq.baseAddress = cfg.cqBase c)
    (hs : cq.entrySize = 16) (dbh slot : Nat) :
    MappedCompletionQueue.slotAddr ⟨cq, dbh⟩ slot = QueueCell.addr cfg sqndbs (.cqe c slot) := by
  unfold MappedCompletionQueue.slotAddr
  rw [hb, hs]
  rfl

/-! ## Posting -/

/-- A post replaces two entries of the table. -/
theorem contents_withPost (h : Represents hlay x r) (hi : i ∈ cfg.sqs) (sqtail slot : Nat)
    (command : Generic) (k : QueueCell) (hk : k.Used cfg) :
    Function.update (Function.update (contents cfg r) (.sqe i slot) (Generic.codec.encode command))
        (.sqtail i) (Mem.toLE 4 sqtail) k
      = contents cfg (r.withPost i sqtail
          (Function.update (r.sqRing (r.hostSq i).baseAddress) slot command) command) k := by
  obtain ⟨hqid, hbase⟩ := h.inv.hostSqAt i hi
  unfold Rings.withPost
  rw [hqid, hbase]
  cases k with
  -- a post writes one slot and one doorbell
  | sqe j s =>
      rw [Function.update_of_ne (by simp)]
      by_cases hji : j = i
      · subst hji
        by_cases hs : s = slot
        · subst hs
          simp only [contents, Function.update_self]
        · rw [Function.update_of_ne (by simpa using hs)]
          simp only [contents, Function.update_self, Function.update_of_ne hs]
      · have hne : cfg.sqBase j ≠ cfg.sqBase i := fun he => hji (cfg.sqBase_inj j hk.1 i hi he)
        rw [Function.update_of_ne (by simp [hji])]
        simp only [contents, Function.update_of_ne hne]
  | cqe c s => rw [Function.update_of_ne (by simp), Function.update_of_ne (by simp)]; rfl
  | sqtail j =>
      by_cases hji : j = i
      · subst hji
        simp only [contents, Function.update_self]
      · rw [Function.update_of_ne (by simpa using hji), Function.update_of_ne (by simp)]
        simp only [contents, Function.update_of_ne hji]
  | cqhead c => rw [Function.update_of_ne (by simp), Function.update_of_ne (by simp)]; rfl

/-- The memory after a post. -/
theorem memory_post (h : Represents hlay x r) (hi : i ∈ cfg.sqs) (command : Generic) :
    (queueCells hlay).Holds
      (NVMeHeadTail.cellAdvance
        (x.mem.store ((x.hostSq i).slotAddr (r.SQTAIL i))
          ((Generic.codec.encode command).take (x.hostSq i).entrySize))
        (x.hostSq i).dbtAddr (x.hostSq i).entries)
      (contents cfg (r.withPost i (NVMeHeadTail.advance (r.hostSq i).entries (r.SQTAIL i))
        (Function.update (r.sqRing (r.hostSq i).baseAddress) (r.SQTAIL i) command) command)) := by
  obtain ⟨hobj, hsize⟩ := h.hostSq i hi
  obtain ⟨-, hbase⟩ := h.inv.hostSqAt i hi
  have hlen := Generic.codec.length_encode command
  have hslot : QueueCell.Used cfg (.sqe i (r.SQTAIL i)) := ⟨hi, h.sqtail_lt hi⟩
  have hcopy := QueueCell.holds_store h.memory hslot hlen
  -- the doorbell still reads the old tail, and then the new one
  have hold : NVMeHeadTail.cellValue
      (x.mem.store (QueueCell.addr cfg sqndbs (.sqe i (r.SQTAIL i))) (Generic.codec.encode command))
      (sqtailAddr sqndbs i) = r.SQTAIL i := by
    refine NVMeHeadTail.cellValue_eq ?_ (Nat.lt_of_lt_of_le (h.sqtail_lt hi) (cfg.sqEntries_le i hi))
    have hcell := hcopy (.sqtail i) hi
    rw [Function.update_of_ne (by simp)] at hcell
    exact hcell
  have hdbt : QueueCell.Used cfg (.sqtail i) := hi
  have hmove := QueueCell.holds_store hcopy hdbt
    (Mem.length_toLE 4 (NVMeHeadTail.advance (r.hostSq i).entries (r.SQTAIL i)))
  rw [hobj, slotAddr_sq sqndbs hbase hsize, List.take_of_length_le (by rw [hlen, hsize]; rfl)]
  dsimp only
  rw [NVMeHeadTail.cellAdvance_eq hold]
  exact hmove.congr fun k hk => h.contents_withPost hi _ _ command k hk

/-- **Posting bytes posts the command.** -/
theorem postCommand (h : Represents hlay x r) (hi : i ∈ cfg.sqs) (command : Generic) :
    Option.Rel (Represents hlay) (x.postCommand i command).toOption
      (r.postCommand i command).toOption := by
  obtain ⟨hobj, hsize⟩ := h.hostSq i hi
  have hqid := (h.inv.hostSqAt i hi).1
  have htail : NVMeHeadTail.cellValue x.mem (x.hostSq i).dbtAddr = r.SQTAIL i := by
    rw [hobj]; exact h.cellValue_sqtail hi
  cases hf : (r.hostSq i).isFull (r.SQTAIL i) with
  | true =>
      -- both find the queue full
      have hbytes := MappedSubmissionQueue.postCommand_full htail (by rw [hobj]; exact hf)
        (Generic.codec.encode command)
      have hring := @NVMeSubmissionQueue.postCommand_full _ _
        (r.sqRing (r.hostSq i).baseAddress) command hf
      unfold QueueMemory.postCommand Rings.postCommand
      dsimp only
      rw [hbytes, hqid, hring]
      exact Option.Rel.none
  | false =>
      -- both have room, and write the slot at the tail and the doorbell
      have hbytes := MappedSubmissionQueue.postCommand_ok htail (by rw [hobj]; exact hf)
        (Generic.codec.encode command)
      have hring : r.postCommand i command = .ok (r.withPost i
          (NVMeHeadTail.advance (r.hostSq i).entries (r.SQTAIL i))
          (Function.update (r.sqRing (r.hostSq i).baseAddress) (r.SQTAIL i) command) command) := by
        unfold Rings.postCommand
        dsimp only
        rw [hqid, NVMeSubmissionQueue.postCommand_ok hf]
      have hinv := h.inv.postCommand hi hring
      unfold QueueMemory.postCommand
      dsimp only
      rw [hbytes, hring]
      refine Option.Rel.some ⟨hinv, h.memory_post hi command, h.hostSq, h.simSq, h.hostCq, h.simCq,
        ?_, ?_, h.acked, h.answered, h.seen⟩
      · intro j hj
        show Function.update x.sent i _ j = (Function.update r.posted i _ j).map _
        by_cases hji : j = i
        · subst hji
          rw [Function.update_self, Function.update_self, List.map_append, h.sent j hj]
          rfl
        · rw [Function.update_of_ne hji, Function.update_of_ne hji]
          exact h.sent j hj
      · intro j hj
        show x.received j = ((Function.update r.posted i _ j).take (r.fetched j)).map _
        by_cases hji : j = i
        · subst hji
          rw [Function.update_self, List.take_append_of_le_length (h.inv.sq j hj).fetchLe]
          exact h.received j hj
        · rw [Function.update_of_ne hji]
          exact h.received j hj

/-! ## Fetching and completing -/

/-- The entry in a slot, read as the structure it is. -/
theorem read_sqe (h : Represents hlay x r) (hi : i ∈ cfg.sqs) {slot : Nat}
    (hslot : slot < cfg.sqEntries i) :
    Generic.codec.read x.mem (QueueCell.addr cfg sqndbs (.sqe i slot)) = r.sqRing (cfg.sqBase i) slot :=
  Generic.codec.read_eq (h.memory (.sqe i slot) ⟨hi, hslot⟩)

theorem read_cqe (h : Represents hlay x r) (hc : c ∈ cfg.cqs) {slot : Nat}
    (hslot : slot < cfg.cqEntries c) :
    CQE.codec.read x.mem (QueueCell.addr cfg sqndbs (.cqe c slot)) = r.cqRing (cfg.cqBase c) slot :=
  CQE.codec.read_eq (h.memory (.cqe c slot) ⟨hc, hslot⟩)

/-- A completion replaces one entry of the table. -/
theorem contents_withCompletion (h : Represents hlay x r) (hc : c ∈ cfg.cqs) (i slot : Nat)
    (sq : NVMeSubmissionQueue) (cq : NVMeCompletionQueue) (cqe given : CQE) (k : QueueCell)
    (hk : k.Used cfg) :
    Function.update (contents cfg r) (.cqe c slot) (CQE.codec.encode cqe) k
      = contents cfg (r.withCompletion i c sq cq
          (Function.update (r.cqRing (r.simCq c).baseAddress) slot cqe) given) k := by
  unfold Rings.withCompletion
  rw [(h.inv.simCqAt c hc).2]
  cases k with
  | sqe j s => rw [Function.update_of_ne (by simp)]; rfl
  | cqe d s =>
      by_cases hdc : d = c
      · subst hdc
        by_cases hs : s = slot
        · subst hs
          simp only [contents, Function.update_self]
        · rw [Function.update_of_ne (by simpa using hs)]
          simp only [contents, Function.update_self, Function.update_of_ne hs]
      · have hne : cfg.cqBase d ≠ cfg.cqBase c := fun he => hdc (RingsConfig.cqBase_eq hk.1 hc he)
        rw [Function.update_of_ne (by simp [hdc])]
        simp only [contents, Function.update_of_ne hne]
  | sqtail j => rw [Function.update_of_ne (by simp)]; rfl
  | cqhead d => rw [Function.update_of_ne (by simp)]; rfl

/-- What the simulator finds in a slot it fetches from. -/
theorem getCommand (h : Represents hlay x r) (hi : i ∈ cfg.sqs) {slot : Nat}
    {sq : NVMeSubmissionQueue} (hget : (r.simSq i).getCommand (r.SQTAIL i) = some (slot, sq)) :
    (x.simSq i).getCommand x.mem
        = some (QueueCell.addr cfg sqndbs (.sqe i slot), ⟨sq, sqtailAddr sqndbs i⟩)
      ∧ slot < cfg.sqEntries i ∧ ∃ hlt : r.fetched i < (r.posted i).length,
        r.sqRing (cfg.sqBase i) slot = (r.posted i)[r.fetched i] := by
  obtain ⟨hobj, hsize⟩ := h.simSq i hi
  have hsq := h.inv.sq i hi
  obtain ⟨hlt, rfl, -, -, -⟩ := hsq.fetch (cfg.sqEntries_le i hi) hget
  have htail : NVMeHeadTail.cellValue x.mem (x.simSq i).dbtAddr = r.SQTAIL i := by
    rw [hobj]; exact h.cellValue_sqtail hi
  refine ⟨?_, Nat.mod_lt _ hsq.pos, hlt, hsq.slot hlt hsq.ackLe⟩
  have hfetch := MappedSubmissionQueue.getCommand_eq htail
  rw [hobj] at hfetch ⊢
  rw [hfetch, hget]
  simp only [Option.map_some, slotAddr_sq sqndbs (h.inv.simSqAt i hi).2 hsize]

/-- A post to a completion queue, in bytes: the same object, and its entry in its cell. -/
theorem postCompletion (h : Represents hlay x r) (hc : c ∈ cfg.cqs) (cqe : CQE) :
    (x.simCq c).postCompletion x.mem cqe
      = ((r.simCq c).postCompletion (r.CQHEAD c) (r.cqRing (cfg.cqBase c)) cqe).map fun after =>
        (⟨after.1, cqheadAddr sqndbs c⟩,
          x.mem.store (QueueCell.addr cfg sqndbs (.cqe c (r.simCq c).tail))
            (CQE.codec.encode (after.2 (r.simCq c).tail))) := by
  obtain ⟨hobj, hsize⟩ := h.simCq c hc
  have hbase := (h.inv.simCqAt c hc).2
  have htail : (r.simCq c).tail < cfg.cqEntries c := by
    rw [(h.inv.cq c hc).tail]; exact Nat.mod_lt _ (h.inv.cq c hc).pos
  have hhead : NVMeHeadTail.cellValue x.mem (x.simCq c).dbhAddr = r.CQHEAD c := by
    rw [hobj]; exact h.cellValue_cqhead hc
  rw [hobj] at hhead ⊢
  have haddr := slotAddr_cq sqndbs hbase hsize (cqheadAddr sqndbs c) (r.simCq c).tail
  have hslot := h.read_cqe hc htail
  rw [← haddr] at hslot
  rw [MappedCompletionQueue.postCompletion_eq hhead hslot, haddr]
  dsimp only
  rw [hsize]
  refine congrArg (fun f => Except.map f _) (funext fun after => ?_)
  have hlen : (CQE.codec.encode (after.2 (r.simCq c).tail)).length ≤ 16 :=
    Nat.le_of_eq (CQE.codec.length_encode _)
  rw [List.take_of_length_le hlen]

/-- The two histories have the same of an entry. -/
theorem logged_eq (h : Represents hlay x r) (hc : c ∈ cfg.cqs) (cqe : CQE) :
    x.logged c cqe = r.logged c cqe := by
  obtain ⟨hobj, hsize⟩ := h.simCq c hc
  have hbase := (h.inv.simCqAt c hc).2
  have htail : (r.simCq c).tail < cfg.cqEntries c := by
    rw [(h.inv.cq c hc).tail]; exact Nat.mod_lt _ (h.inv.cq c hc).pos
  unfold QueueMemory.logged Rings.logged NVMeCompletionQueue.nextPhase
  dsimp only
  rw [hobj, slotAddr_cq sqndbs hbase hsize, h.read_cqe hc htail, hbase]

/-- The state after a fetch and its completion. -/
theorem withCompletion (h : Represents hlay x r) (hi : i ∈ cfg.sqs) {slot : Nat}
    {sq : NVMeSubmissionQueue} {cq : NVMeCompletionQueue} {cqe : CQE}
    (hget : (r.simSq i).getCommand (r.SQTAIL i) = some (slot, sq))
    (hsq : sq.entrySize = 64) (hcq : cq.entrySize = 16) {given : CQE}
    (hinv : Rings.Inv cfg (r.withCompletion i (cfg.cqOf i) sq cq
      (Function.update (r.cqRing (r.simCq (cfg.cqOf i)).baseAddress) (r.simCq (cfg.cqOf i)).tail cqe)
      given)) :
    Represents hlay
      { x with
        mem := x.mem.store (QueueCell.addr cfg sqndbs (.cqe (cfg.cqOf i) (r.simCq (cfg.cqOf i)).tail))
          (CQE.codec.encode cqe)
        simSq := Function.update x.simSq i ⟨sq, sqtailAddr sqndbs i⟩
        simCq := Function.update x.simCq (cfg.cqOf i) ⟨cq, cqheadAddr sqndbs (cfg.cqOf i)⟩
        received := Function.update x.received i (x.received i
          ++ [x.mem.load (QueueCell.addr cfg sqndbs (.sqe i slot)) Generic.codec.size])
        answered := Function.update x.answered (cfg.cqOf i)
          (x.answered (cfg.cqOf i) ++ [CQE.codec.encode (x.logged (cfg.cqOf i) given)]) }
      (r.withCompletion i (cfg.cqOf i) sq cq
        (Function.update (r.cqRing (r.simCq (cfg.cqOf i)).baseAddress) (r.simCq (cfg.cqOf i)).tail
          cqe) given) := by
  have hc := RingsConfig.cqOf_mem hi
  obtain ⟨-, hslot, hlt, hentry⟩ := h.getCommand hi hget
  have htail : (r.simCq (cfg.cqOf i)).tail < cfg.cqEntries (cfg.cqOf i) := by
    rw [(h.inv.cq _ hc).tail]; exact Nat.mod_lt _ (h.inv.cq _ hc).pos
  have hused : QueueCell.Used cfg (.cqe (cfg.cqOf i) (r.simCq (cfg.cqOf i)).tail) := ⟨hc, htail⟩
  -- memory by its cells, the objects and the logs by the queue they are of
  refine ⟨hinv, ?_, h.hostSq, ?_, h.hostCq, ?_, h.sent, ?_, h.acked, ?_, ?_⟩
  · exact (QueueCell.holds_store h.memory hused (CQE.codec.length_encode cqe)).congr fun k hk =>
      h.contents_withCompletion hc i _ sq cq cqe given k hk
  · intro j hj
    show Function.update x.simSq i _ j = ⟨Function.update r.simSq i sq j, _⟩
      ∧ (Function.update r.simSq i sq j).entrySize = 64
    by_cases hji : j = i
    · subst hji
      rw [Function.update_self, Function.update_self]
      exact ⟨rfl, hsq⟩
    · rw [Function.update_of_ne hji, Function.update_of_ne hji]
      exact h.simSq j hj
  · intro d hd
    show Function.update x.simCq (cfg.cqOf i) _ d = ⟨Function.update r.simCq (cfg.cqOf i) cq d, _⟩
      ∧ (Function.update r.simCq (cfg.cqOf i) cq d).entrySize = 16
    by_cases hdc : d = cfg.cqOf i
    · subst hdc
      rw [Function.update_self, Function.update_self]
      exact ⟨rfl, hcq⟩
    · rw [Function.update_of_ne hdc, Function.update_of_ne hdc]
      exact h.simCq d hd
  · intro j hj
    show Function.update x.received i _ j
      = ((r.posted j).take (Function.update r.fetched i (r.fetched i + 1) j)).map _
    by_cases hji : j = i
    · subst hji
      -- the command read is the cell of its slot, and the ring has the command posted there
      have hcell : x.mem.load (QueueCell.addr cfg sqndbs (.sqe j slot)) Generic.codec.size
          = Generic.codec.encode (r.sqRing (cfg.sqBase j) slot) := h.memory (.sqe j slot) ⟨hj, hslot⟩
      rw [Function.update_self, Function.update_self, List.take_succ_eq_append_getElem hlt,
        List.map_append, ← h.received j hj, hcell, hentry]
      rfl
    · rw [Function.update_of_ne hji, Function.update_of_ne hji]
      exact h.received j hj
  · intro d hd
    show Function.update x.answered (cfg.cqOf i) _ d = (Function.update r.cposted (cfg.cqOf i) _ d).map _
    by_cases hdc : d = cfg.cqOf i
    · subst hdc
      rw [Function.update_self, Function.update_self, List.map_append, h.answered _ hd,
        h.logged_eq hd]
      rfl
    · rw [Function.update_of_ne hdc, Function.update_of_ne hdc]
      exact h.answered d hd
  · intro d hd
    show x.seen d = ((Function.update r.cposted _ _ d).take (r.consumed d)).map _
    by_cases hdc : d = cfg.cqOf i
    · subst hdc
      rw [Function.update_self, List.take_append_of_le_length (h.inv.cq _ hd).le]
      exact h.seen _ hd
    · rw [Function.update_of_ne hdc]
      exact h.seen d hd

/-- A fetch leaves the entry size of the object. -/
theorem getCommand_entrySize {sq sq' : NVMeSubmissionQueue} {sqtail slot : Nat}
    (hget : sq.getCommand sqtail = some (slot, sq')) : sq'.entrySize = sq.entrySize := by
  unfold NVMeSubmissionQueue.getCommand at hget
  split at hget
  · cases hget
  · cases hget
    rfl

/-- A fetch-and-complete that finds a command, as one post. -/
theorem fetchComplete_of_get (h : Rings.Inv cfg r) (hi : i ∈ cfg.sqs) {slot : Nat}
    {sq : NVMeSubmissionQueue} (hget : (r.simSq i).getCommand (r.SQTAIL i) = some (slot, sq))
    (statusCode : Nat) (cmdSpec : BitVec 32) :
    r.fetchComplete i (cfg.cqOf i) statusCode cmdSpec
      = some (((r.simCq (cfg.cqOf i)).postCompletion (r.CQHEAD (cfg.cqOf i))
          (r.cqRing (cfg.cqBase (cfg.cqOf i)))
          (NVSimCmdHandlerInterface.completionEntry (r.sqRing (cfg.sqBase i) slot).CID sq statusCode
            cmdSpec)).map fun after => r.withCompletion i (cfg.cqOf i) sq after.1 after.2
          (NVSimCmdHandlerInterface.completionEntry (r.sqRing (cfg.sqBase i) slot).CID sq statusCode
            cmdSpec)) := by
  obtain ⟨hcqid, hcbase⟩ := h.simCqAt _ (RingsConfig.cqOf_mem hi)
  have hget' : (r.simSq i).getCommand (r.SQTAIL (r.simSq i).qid) = some (slot, sq) := by
    rw [(h.simSqAt i hi).1]
    exact hget
  rw [Rings.fetchComplete_eq hget' rfl, (h.simSqAt i hi).2, hcqid, hcbase]
  rfl

/-- The same in bytes: the same post, and the entry it puts into its cell. -/
theorem fetchComplete_bytes (h : Represents hlay x r) (hi : i ∈ cfg.sqs) {slot : Nat}
    {sq : NVMeSubmissionQueue} (hget : (r.simSq i).getCommand (r.SQTAIL i) = some (slot, sq))
    (statusCode : Nat) (cmdSpec : BitVec 32) :
    x.fetchComplete i (cfg.cqOf i) statusCode cmdSpec
      = some (((r.simCq (cfg.cqOf i)).postCompletion (r.CQHEAD (cfg.cqOf i))
          (r.cqRing (cfg.cqBase (cfg.cqOf i)))
          (NVSimCmdHandlerInterface.completionEntry (r.sqRing (cfg.sqBase i) slot).CID sq statusCode
            cmdSpec)).map fun after =>
        { x with
          mem := x.mem.store (QueueCell.addr cfg sqndbs (.cqe (cfg.cqOf i) (r.simCq (cfg.cqOf i)).tail))
            (CQE.codec.encode (after.2 (r.simCq (cfg.cqOf i)).tail))
          simSq := Function.update x.simSq i ⟨sq, sqtailAddr sqndbs i⟩
          simCq := Function.update x.simCq (cfg.cqOf i) ⟨after.1, cqheadAddr sqndbs (cfg.cqOf i)⟩
          received := Function.update x.received i (x.received i
            ++ [x.mem.load (QueueCell.addr cfg sqndbs (.sqe i slot)) Generic.codec.size])
          answered := Function.update x.answered (cfg.cqOf i) (x.answered (cfg.cqOf i)
            ++ [CQE.codec.encode (x.logged (cfg.cqOf i)
              (NVSimCmdHandlerInterface.completionEntry (r.sqRing (cfg.sqBase i) slot).CID sq
                statusCode cmdSpec))]) }) := by
  have hc := RingsConfig.cqOf_mem hi
  obtain ⟨hbytes, hslot, -, -⟩ := h.getCommand hi hget
  unfold QueueMemory.fetchComplete
  rw [hbytes]
  dsimp only
  rw [h.read_sqe hi hslot, h.postCompletion hc]
  refine congrArg some ?_
  cases (r.simCq (cfg.cqOf i)).postCompletion (r.CQHEAD (cfg.cqOf i))
      (r.cqRing (cfg.cqBase (cfg.cqOf i))) (NVSimCmdHandlerInterface.completionEntry
        (r.sqRing (cfg.sqBase i) slot).CID sq statusCode cmdSpec) <;> rfl

/-- **Fetching bytes fetches the command**, and completing it completes it. -/
theorem fetchComplete (hfit : cfg.HeadsFit) (h : Represents hlay x r) (hi : i ∈ cfg.sqs)
    (statusCode : Nat) (cmdSpec : BitVec 32) :
    Option.Rel (Represents hlay)
      ((x.fetchComplete i (cfg.cqOf i) statusCode cmdSpec).bind Except.toOption)
      ((r.fetchComplete i (cfg.cqOf i) statusCode cmdSpec).bind Except.toOption) := by
  have hc := RingsConfig.cqOf_mem hi
  cases hget : (r.simSq i).getCommand (r.SQTAIL i) with
  | none =>
      -- nothing to fetch, on either side
      obtain ⟨hobj, -⟩ := h.simSq i hi
      have htail : NVMeHeadTail.cellValue x.mem (x.simSq i).dbtAddr = r.SQTAIL i := by
        rw [hobj]; exact h.cellValue_sqtail hi
      have hbytes : (x.simSq i).getCommand x.mem = none := by
        rw [MappedSubmissionQueue.getCommand_eq htail, hobj, hget]
        rfl
      unfold QueueMemory.fetchComplete Rings.fetchComplete
      dsimp only
      rw [hbytes, (h.inv.simSqAt i hi).1, hget]
      exact Option.Rel.none
  | some found =>
      obtain ⟨slot, sq⟩ := found
      have hring := fetchComplete_of_get h.inv hi hget statusCode cmdSpec
      rw [h.fetchComplete_bytes hi hget, hring]
      cases hpost : (r.simCq (cfg.cqOf i)).postCompletion (r.CQHEAD (cfg.cqOf i))
          (r.cqRing (cfg.cqBase (cfg.cqOf i))) (NVSimCmdHandlerInterface.completionEntry
            (r.sqRing (cfg.sqBase i) slot).CID sq statusCode cmdSpec) with
      | error e => exact Option.Rel.none
      | ok after =>
          obtain ⟨cq, ring⟩ := after
          have hroom := NVMeCompletionQueue.postCompletion_room hpost
          rw [hpost] at hring
          have hinv := h.inv.fetchComplete hfit hi hring
          rw [NVMeCompletionQueue.postCompletion_ok hroom, ← (h.inv.simCqAt _ hc).2] at hpost
          cases hpost
          dsimp only [Except.map, Option.bind_some, Except.toOption]
          rw [Function.update_self]
          have hsize := getCommand_entrySize hget
          rw [(h.simSq i hi).2] at hsize
          refine Option.Rel.some (h.withCompletion hi hget hsize ?_ hinv)
          exact (h.simCq _ hc).2

/-! ## Consuming -/

/-- What the host looks at. -/
theorem nextCompletion_eq (h : Rings.Inv cfg r) (hc : c ∈ cfg.cqs) :
    r.nextCompletion c = r.cqRing (cfg.cqBase c) (r.CQHEAD c) := by
  obtain ⟨hqid, hbase⟩ := h.hostCqAt c hc
  unfold Rings.nextCompletion
  dsimp only
  rw [hqid, hbase]
  rfl

/-- Consuming replaces one entry of the table. -/
theorem contents_consume (h : Represents hlay x r) (hc : c ∈ cfg.cqs) (i value : Nat)
    (k : QueueCell) :
    Function.update (contents cfg r) (.cqhead c)
        (Mem.toLE 4 ((r.hostCq c).consumeCompletion (r.CQHEAD c)).2) k
      = contents cfg ((r.consumeCompletion c).setHead i value) k := by
  unfold Rings.setHead Rings.consumeCompletion
  dsimp only
  rw [(h.inv.hostCqAt c hc).1]
  cases k with
  | sqe j s => rw [Function.update_of_ne (by simp)]; rfl
  | cqe d s => rw [Function.update_of_ne (by simp)]; rfl
  | sqtail j => rw [Function.update_of_ne (by simp)]; rfl
  | cqhead d =>
      by_cases hdc : d = c
      · subst hdc
        simp only [contents, Function.update_self]
      · rw [Function.update_of_ne (by simpa using hdc)]
        simp only [contents, Function.update_of_ne hdc]

/-- The memory after the doorbell of a completion queue moved. -/
theorem memory_consume (h : Represents hlay x r) (hc : c ∈ cfg.cqs) :
    (queueCells hlay).Holds (x.mem.store (cqheadAddr sqndbs c)
        (Mem.toLE 4 ((r.hostCq c).consumeCompletion (r.CQHEAD c)).2))
      (Function.update (contents cfg r) (.cqhead c)
        (Mem.toLE 4 ((r.hostCq c).consumeCompletion (r.CQHEAD c)).2)) := by
  have hused : QueueCell.Used cfg (.cqhead c) := hc
  exact QueueCell.holds_store h.memory hused (Mem.length_toLE 4 _)

/-- What the host does with a new entry, in bytes. -/
theorem getCompletion_bytes (h : Represents hlay x r) (hc : c ∈ cfg.cqs) :
    x.getCompletion c = if r.phaseMatch c then
        some { x with
          mem := x.mem.store (cqheadAddr sqndbs c)
            (Mem.toLE 4 ((r.hostCq c).consumeCompletion (r.CQHEAD c)).2)
          hostCq := Function.update x.hostCq c
            ⟨((r.hostCq c).consumeCompletion (r.CQHEAD c)).1, cqheadAddr sqndbs c⟩
          hostSq := Function.update x.hostSq (r.nextCompletion c).SQID.toNat
            ((x.hostSq (r.nextCompletion c).SQID.toNat).setHead (r.nextCompletion c).SQHD.toNat)
          acked := Function.update x.acked (r.nextCompletion c).SQID.toNat
            (x.acked (r.nextCompletion c).SQID.toNat + 1)
          seen := Function.update x.seen c (x.seen c ++ [CQE.codec.encode (r.nextCompletion c)]) }
      else none := by
  obtain ⟨hobj, hsize⟩ := h.hostCq c hc
  have hbase := (h.inv.hostCqAt c hc).2
  have hnext := nextCompletion_eq h.inv hc
  have hlt := h.cqhead_lt hc
  have hhead : NVMeHeadTail.cellValue x.mem (x.hostCq c).dbhAddr = r.CQHEAD c := by
    rw [hobj]; exact h.cellValue_cqhead hc
  have hview : (x.hostCq c).getNextCompletion x.mem
      = QueueCell.addr cfg sqndbs (.cqe c (r.CQHEAD c)) := by
    unfold MappedCompletionQueue.getNextCompletion
    rw [hhead, hobj, slotAddr_cq sqndbs hbase hsize]
  have hread := h.read_cqe hc hlt
  rw [← hnext] at hread
  -- the entry stays where it is when the doorbell moves
  have hmoved := h.memory_consume hc
  have hstill : CQE.codec.read (x.mem.store (cqheadAddr sqndbs c)
      (Mem.toLE 4 ((r.hostCq c).consumeCompletion (r.CQHEAD c)).2))
      (QueueCell.addr cfg sqndbs (.cqe c (r.CQHEAD c))) = r.nextCompletion c := by
    refine CQE.codec.read_eq ?_
    have hcell := hmoved (.cqe c (r.CQHEAD c)) ⟨hc, hlt⟩
    rw [Function.update_of_ne (by simp)] at hcell
    rw [hnext]
    exact hcell
  have hbytes : x.mem.load (QueueCell.addr cfg sqndbs (.cqe c (r.CQHEAD c))) CQE.codec.size
      = CQE.codec.encode (r.nextCompletion c) := by
    rw [hnext]
    exact h.memory (.cqe c (r.CQHEAD c)) ⟨hc, hlt⟩
  unfold QueueMemory.getCompletion
  dsimp only
  rw [MappedCompletionQueue.consumeCompletion_eq hhead, hview, hread, hbytes, hobj]
  dsimp only
  rw [hstill]
  rfl

/-- **Consuming bytes consumes the completion.** -/
theorem getCompletion (h : Represents hlay x r) (hc : c ∈ cfg.cqs) :
    Option.Rel (Represents hlay) (x.getCompletion c) (r.getCompletion c) := by
  have hqid := (h.inv.hostCqAt c hc).1
  rw [h.getCompletion_bytes hc]
  unfold Rings.getCompletion
  dsimp only
  cases hm : r.phaseMatch c with
  | false => exact Option.Rel.none
  | true =>
      have hget : r.getCompletion c = some ((r.consumeCompletion c).setHead
          (r.nextCompletion c).SQID.toNat (r.nextCompletion c).SQHD.toNat) := by
        unfold Rings.getCompletion
        dsimp only
        rw [hm]
        rfl
      have hinv := h.inv.getCompletion hc hget
      -- the entry is the oldest one the host has not seen
      have hcq := h.inv.cq c hc
      have hlt : r.consumed c < (r.cposted c).length := by
        rw [← hcq.match_iff]
        have hp : (r.nextCompletion c).SF.P = (r.hostCq c).phase := by
          simpa [Rings.phaseMatch] using hm
        rw [nextCompletion_eq h.inv hc] at hp
        exact hp
      have hentry : r.nextCompletion c = (r.cposted c)[r.consumed c] := by
        rw [nextCompletion_eq h.inv hc]
        exact hcq.entry_head hlt
      rw [if_pos rfl, if_pos rfl]
      refine Option.Rel.some ⟨hinv, ?_, ?_, h.simSq, ?_, h.simCq, h.sent, h.received, ?_, h.answered,
        ?_⟩
      · exact (h.memory_consume hc).congr fun k _ => h.contents_consume hc _ _ k
      · intro j hj
        show Function.update x.hostSq (r.nextCompletion c).SQID.toNat _ j
            = ⟨Function.update r.hostSq (r.nextCompletion c).SQID.toNat _ j, _⟩
          ∧ (Function.update r.hostSq (r.nextCompletion c).SQID.toNat _ j).entrySize = 64
        by_cases hji : j = (r.nextCompletion c).SQID.toNat
        · obtain ⟨hsq, hsize⟩ := h.hostSq j hj
          rw [← hji, Function.update_self, Function.update_self, hsq]
          exact ⟨rfl, hsize⟩
        · rw [Function.update_of_ne hji, Function.update_of_ne hji]
          exact h.hostSq j hj
      · intro d hd
        show Function.update x.hostCq c _ d = ⟨Function.update r.hostCq c _ d, _⟩
          ∧ (Function.update r.hostCq c _ d).entrySize = 16
        by_cases hdc : d = c
        · subst hdc
          rw [Function.update_self, Function.update_self, hqid]
          refine ⟨rfl, ?_⟩
          rw [NVMeCompletionQueue.consumeCompletion_object]
          exact (h.hostCq d hd).2
        · rw [Function.update_of_ne hdc, Function.update_of_ne hdc]
          exact h.hostCq d hd
      · intro j hj
        show Function.update x.acked (r.nextCompletion c).SQID.toNat _ j
          = Function.update r.acked (r.nextCompletion c).SQID.toNat _ j
        by_cases hji : j = (r.nextCompletion c).SQID.toNat
        · rw [← hji, Function.update_self, Function.update_self, h.acked j hj]
          rfl
        · rw [Function.update_of_ne hji, Function.update_of_ne hji]
          exact h.acked j hj
      · intro d hd
        show Function.update x.seen c _ d
          = ((r.cposted d).take (Function.update r.consumed c (r.consumed c + 1) d)).map _
        by_cases hdc : d = c
        · subst hdc
          rw [Function.update_self, Function.update_self, List.take_succ_eq_append_getElem hlt,
            List.map_append, ← h.seen d hd, hentry]
          rfl
        · rw [Function.update_of_ne hdc, Function.update_of_ne hdc]
          exact h.seen d hd

/-- **Every operation on bytes is the operation on rings**, and fails when it fails. -/
theorem step (hfit : cfg.HeadsFit) (h : Represents hlay x r) (a : RingsOp) :
    Option.Rel (Represents hlay) (QueueMemory.step cfg x a) (Rings.step cfg r a) := by
  cases a with
  -- each operation on a queue of the layout is its own simulation; no other queue is served
  | post i command =>
      unfold QueueMemory.step Rings.step
      dsimp only
      by_cases hi : i ∈ cfg.sqs
      · rw [if_pos hi, if_pos hi]
        exact h.postCommand hi command
      · rw [if_neg hi, if_neg hi]
        exact Option.Rel.none
  | fetchComplete i statusCode cmdSpec =>
      unfold QueueMemory.step Rings.step
      dsimp only
      by_cases hi : i ∈ cfg.sqs
      · rw [if_pos hi, if_pos hi]
        exact h.fetchComplete hfit hi statusCode cmdSpec
      · rw [if_neg hi, if_neg hi]
        exact Option.Rel.none
  | consume c =>
      unfold QueueMemory.step Rings.step
      dsimp only
      by_cases hc : c ∈ cfg.cqs
      · rw [if_pos hc, if_pos hc]
        exact h.getCompletion hc
      · rw [if_neg hc, if_neg hc]
        exact Option.Rel.none

end Represents

/-! ## Starting -/

/-- A submission queue object as both sides create it. -/
def createdSq (cfg : RingsConfig) (sqndbs i : Nat) : MappedSubmissionQueue where
  baseAddress := cfg.sqBase i
  entries := cfg.sqEntries i
  entrySize := 64
  qid := i
  dbtAddr := sqtailAddr sqndbs i

/-- A completion queue object; the sides may differ in the vector. -/
def createdCq (cfg : RingsConfig) (sqndbs c : Nat) (intVector : Option Int) :
    MappedCompletionQueue where
  baseAddress := cfg.cqBase c
  entries := cfg.cqEntries c
  entrySize := 16
  qid := c
  intVector := intVector
  dbhAddr := cqheadAddr sqndbs c

/--
Fresh objects, cleared doorbells, completion areas that were allocated, which zeroes them,
and checked for access. What a submission area holds does not matter.
-/
structure Init (cfg : RingsConfig) (sqndbs : Nat) (x : QueueMemory) : Prop where
  hostSq : ∀ i ∈ cfg.sqs, x.hostSq i = createdSq cfg sqndbs i
  simSq : ∀ i ∈ cfg.sqs, x.simSq i = createdSq cfg sqndbs i
  hostCq : ∀ c ∈ cfg.cqs, ∃ intVector, x.hostCq c = createdCq cfg sqndbs c intVector
  simCq : ∀ c ∈ cfg.cqs, ∃ intVector, x.simCq c = createdCq cfg sqndbs c intVector
  doorbells : ∀ k, k < 1024 * 8 → x.mem (sqndbs + k) = 0
  cqAreas : ∀ c ∈ cfg.cqs, ∀ k, k < cfg.cqEntries c * 16 → x.mem (cfg.cqBase c + k)
    = checkMemAccess (fun _ => 0) (cfg.cqBase c) (cfg.cqEntries c * 16) (cfg.cqBase c + k)
  history : ∀ i, x.sent i = [] ∧ x.received i = [] ∧ x.acked i = 0
  chistory : ∀ c, x.answered c = [] ∧ x.seen c = []

/-- The rings that fresh memory stands for. -/
def rings (x : QueueMemory) : Rings where
  sqRing base slot := Generic.codec.read x.mem (base + slot * 64)
  cqRing base slot := CQE.codec.read x.mem (base + slot * 16)
  SQTAIL _ := 0
  CQHEAD _ := 0
  hostSq i := (x.hostSq i).toNVMeSubmissionQueue
  hostCq c := (x.hostCq c).toNVMeCompletionQueue
  simSq i := (x.simSq i).toNVMeSubmissionQueue
  simCq c := (x.simCq c).toNVMeCompletionQueue
  posted _ := []
  fetched _ := 0
  acked _ := 0
  cposted _ := []
  consumed _ := 0

/-- The check of access writes to the two ends only. -/
theorem checkMemAccess_inside (m : Mem) (vaddr : Nat) {size k : Nat} (h0 : k ≠ 0)
    (h1 : k + 1 ≠ size) : checkMemAccess m vaddr size (vaddr + k) = m (vaddr + k) := by
  show (if _ then _ else if _ then _ else _) = _
  rw [if_neg (by omega), if_neg (by omega)]

/-- The phase bit of a completion is the lowest bit of its byte 14. -/
def phaseField : Placed := ⟨⟨"P", 2, some 1⟩, 14, 0⟩

theorem decode_P {bs : List (BitVec 8)} (h : bs[14]? = some 0) : (CQE.codec.decode bs).SF.P = 0 := by
  have hfits : phaseField.Fits := ⟨by decide, fun hno => by cases hno⟩
  have hbyte : bitAt bs 112 = false := by
    show (bs[14]?.getD 0).getLsbD 0 = false
    rw [h]
    rfl
  have hbit : (phaseField.get bs).testBit 0 = false :=
    (Placed.testBit_get hfits bs 0).trans (by rw [show phaseField.start + 0 = 112 from rfl, hbyte]; rfl)
  have hlt : phaseField.get bs < 2 := phaseField.get_lt bs
  have hzero : phaseField.get bs = 0 := by
    rw [Nat.testBit_zero] at hbit
    have hodd := of_decide_eq_false hbit
    omega
  show BitVec.ofNat 1 (phaseField.get bs) = 0
  rw [hzero]
  rfl

/-- **Checking a completion area for access leaves every phase bit 0.** -/
theorem Init.blank {x : QueueMemory} (h : Init cfg sqndbs x) {c j : Nat} (hc : c ∈ cfg.cqs)
    (hj : j < cfg.cqEntries c) : (x.rings.cqRing (cfg.cqBase c) j).SF.P = 0 := by
  refine decode_P ?_
  -- the check writes the first byte and the last one, and this is neither
  have hzero := @checkMemAccess_inside (fun _ => 0) (cfg.cqBase c) (cfg.cqEntries c * 16)
    (j * 16 + 14) (by omega) (by omega)
  have hbyte := (h.cqAreas c hc (j * 16 + 14) (by omega)).trans hzero
  rw [Mem.getElem?_load _ (show 14 < CQE.codec.size by decide), Nat.add_assoc, hbyte]

theorem init_rings {x : QueueMemory} (h : Init cfg sqndbs x) : Rings.Init cfg x.rings := by
  have hsq : ∀ i ∈ cfg.sqs, x.rings.hostSq i = (createdSq cfg sqndbs i).toNVMeSubmissionQueue
      ∧ x.rings.simSq i = (createdSq cfg sqndbs i).toNVMeSubmissionQueue := fun i hi =>
    ⟨congrArg MappedSubmissionQueue.toNVMeSubmissionQueue (h.hostSq i hi),
      congrArg MappedSubmissionQueue.toNVMeSubmissionQueue (h.simSq i hi)⟩
  -- the vector of a completion queue is of no account for the rings
  have hhostCq : ∀ c ∈ cfg.cqs, ∃ v, x.rings.hostCq c
      = (createdCq cfg sqndbs c v).toNVMeCompletionQueue := fun c hc =>
    (h.hostCq c hc).imp fun _ he =>
      congrArg MappedCompletionQueue.toNVMeCompletionQueue he
  have hsimCq : ∀ c ∈ cfg.cqs, ∃ v, x.rings.simCq c
      = (createdCq cfg sqndbs c v).toNVMeCompletionQueue := fun c hc =>
    (h.simCq c hc).imp fun _ he =>
      congrArg MappedCompletionQueue.toNVMeCompletionQueue he
  refine ⟨fun i hi => ?_, fun i hi => ?_, fun c hc => ?_, fun c hc => ?_, fun i hi => ?_,
    fun c hc => ?_, fun i hi => ?_, fun c hc => ?_, fun _ => ⟨rfl, rfl⟩, fun c hc j hj => h.blank hc hj,
    fun _ => ⟨rfl, rfl, rfl⟩, fun _ => ⟨rfl, rfl⟩⟩
  · rw [(hsq i hi).1]; exact ⟨rfl, rfl⟩
  · rw [(hsq i hi).2]; exact ⟨rfl, rfl⟩
  · obtain ⟨v, he⟩ := hhostCq c hc
    rw [he]; exact ⟨rfl, rfl⟩
  · obtain ⟨v, he⟩ := hsimCq c hc
    rw [he]; exact ⟨rfl, rfl⟩
  · rw [(hsq i hi).1, (hsq i hi).2]; exact ⟨rfl, rfl⟩
  · obtain ⟨v, he⟩ := hhostCq c hc
    obtain ⟨w, he'⟩ := hsimCq c hc
    rw [he, he']; exact ⟨rfl, rfl⟩
  · rw [(hsq i hi).1, (hsq i hi).2]; exact ⟨rfl, rfl⟩
  · obtain ⟨v, he⟩ := hhostCq c hc
    obtain ⟨w, he'⟩ := hsimCq c hc
    rw [he, he']; exact ⟨rfl, rfl⟩

/-- A cleared doorbell holds the bytes of position 0. -/
theorem Init.load_doorbell {x : QueueMemory} (h : Init cfg sqndbs x) {k : Nat} (hk : k + 4 ≤ 1024 * 8) :
    x.mem.load (sqndbs + k) 4 = Mem.toLE 4 0 := by
  have hbyte : ∀ j, j < 4 → x.mem (sqndbs + k + j) = 0 := fun j hj => by
    rw [Nat.add_assoc]
    exact h.doorbells (k + j) (by omega)
  rw [@Mem.load_congr _ (fun _ => 0) _ _ hbyte]
  rfl

/-- **Fresh memory stands for fresh rings.** -/
theorem represents_init (hlay : Layout cfg sqndbs) {x : QueueMemory} (h : Init cfg sqndbs x) :
    Represents hlay x x.rings := by
  refine ⟨Rings.inv_init (init_rings h), fun k hk => ?_, fun i hi => ?_, fun i hi => ?_, fun c hc => ?_,
    fun c hc => ?_, fun i _ => (h.history i).1, fun i _ => (h.history i).2.1,
    fun i _ => (h.history i).2.2, fun c _ => (h.chistory c).1, fun c _ => (h.chistory c).2⟩
  · cases k with
    | sqe i slot => exact (Generic.codec.encode_read x.mem _).symm
    | cqe c slot => exact (CQE.codec.encode_read x.mem _).symm
    | sqtail i =>
        have hlt := hlay.sqid_lt i hk
        exact h.load_doorbell (by omega)
    | cqhead c =>
        have hlt := hlay.cqid_lt c hk
        exact h.load_doorbell (by omega)
  · show x.hostSq i = ⟨(x.hostSq i).toNVMeSubmissionQueue, _⟩ ∧ (x.hostSq i).entrySize = 64
    rw [h.hostSq i hi]; exact ⟨rfl, rfl⟩
  · show x.simSq i = ⟨(x.simSq i).toNVMeSubmissionQueue, _⟩ ∧ (x.simSq i).entrySize = 64
    rw [h.simSq i hi]; exact ⟨rfl, rfl⟩
  · obtain ⟨v, he⟩ := h.hostCq c hc
    show x.hostCq c = ⟨(x.hostCq c).toNVMeCompletionQueue, _⟩ ∧ (x.hostCq c).entrySize = 16
    rw [he]; exact ⟨rfl, rfl⟩
  · obtain ⟨v, he⟩ := h.simCq c hc
    show x.simCq c = ⟨(x.simCq c).toNVMeCompletionQueue, _⟩ ∧ (x.simCq c).entrySize = 16
    rw [he]; exact ⟨rfl, rfl⟩

/-! ## Whole runs -/

/-- The queues in memory, under every interleaving. -/
def machine (cfg : RingsConfig) (sqndbs : Nat) : Machine QueueMemory RingsOp :=
  ⟨Init cfg sqndbs, step cfg⟩

theorem inStep (hfit : cfg.HeadsFit) (hlay : Layout cfg sqndbs) :
    Machine.InStep (machine cfg sqndbs) (Rings.machine cfg) (Represents hlay) :=
  fun _ _ a h => h.step hfit a

/--
**The bytes refine the rings.** From fresh memory, the bytes go through any list of
operations exactly if the rings do, and then still stand for them.

So whatever holds of the rings in every run holds of the bytes. Slots and doorbells are cells
that do not overlap, and each operation writes the cells its counterpart writes.
-/
theorem run_represents (hfit : cfg.HeadsFit) (hlay : Layout cfg sqndbs) {x : QueueMemory}
    (h : Init cfg sqndbs x) : ∃ r, Rings.Init cfg r ∧ ∀ ops, Option.Rel (Represents hlay)
      ((machine cfg sqndbs).run x ops) ((Rings.machine cfg).run r ops) :=
  ⟨x.rings, init_rings h, fun ops => (inStep hfit hlay).run (represents_init hlay h) ops⟩

/-! ### One pair of queues in memory -/

/-- Two slots for commands and three for completions. -/
def pairConfig : RingsConfig where
  sqs := {2}
  cqOf _ := 1
  sqEntries _ := 2
  cqEntries _ := 3
  sqBase _ := 0x4000
  cqBase _ := 0x5000
  sqEntries_pos := by decide
  cqEntries_pos := by decide
  sqEntries_le := by decide
  cqEntries_le := by decide
  sqid_lt := by decide
  sqBase_inj := by decide
  cqBase_inj := by decide

theorem used_pair : ∀ {a : QueueArea}, a.Used pairConfig → a = .sq 2 ∨ a = .cq 1 ∨ a = .doorbells
  | .sq _, h => Or.inl (congrArg _ (Finset.mem_singleton.mp h))
  | .cq _, h => Or.inr (Or.inl (congrArg _ (Finset.mem_singleton.mp h)))
  | .doorbells, _ => Or.inr (Or.inr rfl)

/-- The doorbells lie below the queues. -/
theorem layout_pair : Layout pairConfig 0x1000 := by
  refine ⟨by decide, by decide, fun a b ha hb hne => ?_⟩
  rcases used_pair ha with rfl | rfl | rfl <;> rcases used_pair hb with rfl | rfl | rfl <;>
    first | exact absurd rfl hne | decide

/-- The pair as both sides create it, over memory that was checked for access. -/
def startPair : QueueMemory where
  mem := checkMemAccess (fun _ => 0) 0x5000 48
  hostSq := createdSq pairConfig 0x1000
  hostCq c := createdCq pairConfig 0x1000 c (some 1)
  simSq := createdSq pairConfig 0x1000
  simCq c := createdCq pairConfig 0x1000 c none
  sent _ := []
  received _ := []
  acked _ := 0
  answered _ := []
  seen _ := []

theorem init_startPair : Init pairConfig 0x1000 startPair := by
  refine ⟨fun _ _ => rfl, fun _ _ => rfl, fun _ _ => ⟨_, rfl⟩, fun _ _ => ⟨_, rfl⟩, fun k hk => ?_,
    fun _ _ _ _ => rfl, fun _ => ⟨rfl, rfl, rfl⟩, fun _ => ⟨rfl, rfl⟩⟩
  show (if _ then _ else if _ then _ else _) = _
  rw [if_neg (by omega), if_neg (by omega)]

theorem run_represents_pair : ∃ r, Rings.Init pairConfig r ∧ ∀ ops,
    Option.Rel (Represents layout_pair) ((machine pairConfig 0x1000).run startPair ops)
      ((Rings.machine pairConfig).run r ops) :=
  run_represents (by decide) layout_pair init_startPair

/-! ### Nothing lost, nothing changed -/

/-- **What host and simulator may rely on**, in bytes. -/
structure Delivered (cfg : RingsConfig) (x : QueueMemory) : Prop where
  /-- Commands arrive as they were posted, in order. -/
  received : ∀ i ∈ cfg.sqs, x.received i <+: x.sent i
  /-- Completions arrive as they were posted, in order. -/
  seen : ∀ c ∈ cfg.cqs, x.seen c <+: x.answered c
  /-- The simulator works on views: a command stays in its slot until its completion is consumed. -/
  kept : ∀ i ∈ cfg.sqs, ∀ k command, x.acked i ≤ k → (x.sent i)[k]? = some command →
    x.mem.load (cfg.sqBase i + k % cfg.sqEntries i * 64) 64 = command
  /-- A completion stays in its slot until the host has consumed it. -/
  held : ∀ c ∈ cfg.cqs, ∀ k cqe, (x.seen c).length ≤ k → (x.answered c)[k]? = some cqe →
    x.mem.load (cfg.cqBase c + k % cfg.cqEntries c * 16) 16 = cqe
  /-- The host never runs ahead of the simulator, and the simulator never ahead of the host. -/
  order : ∀ i ∈ cfg.sqs, x.acked i ≤ (x.received i).length

theorem Represents.delivered {x : QueueMemory} {r : Rings} (h : Represents hlay x r) :
    Delivered cfg x := by
  refine ⟨fun i hi => ?_, fun c hc => ?_, fun i hi k command hack hk => ?_,
    fun c hc k cqe hseen hk => ?_, fun i hi => ?_⟩
  · rw [h.sent i hi, h.received i hi]
    exact (List.take_prefix _ _).map _
  · rw [h.answered c hc, h.seen c hc]
    exact (List.take_prefix _ _).map _
  · have hsq := h.inv.sq i hi
    rw [h.sent i hi, List.getElem?_map] at hk
    obtain ⟨g, hg, rfl⟩ := Option.map_eq_some_iff.mp hk
    obtain ⟨hlt, rfl⟩ := List.getElem?_eq_some_iff.mp hg
    rw [h.acked i hi] at hack
    -- not acknowledged yet, so its slot is not written again
    rw [← hsq.slot hlt hack]
    exact h.memory (.sqe i (k % cfg.sqEntries i)) ⟨hi, Nat.mod_lt _ hsq.pos⟩
  · have hcq := h.inv.cq c hc
    have hle := hcq.le
    have hgap := hcq.gap
    rw [h.seen c hc, List.length_map, List.length_take, Nat.min_eq_left hle] at hseen
    rw [h.answered c hc, List.getElem?_map] at hk
    obtain ⟨g, hg, rfl⟩ := Option.map_eq_some_iff.mp hk
    obtain ⟨hlt, rfl⟩ := List.getElem?_eq_some_iff.mp hg
    rw [← hcq.entry hlt (by omega)]
    exact h.memory (.cqe c (k % cfg.cqEntries c)) ⟨hc, Nat.mod_lt _ hcq.pos⟩
  · rw [h.acked i hi, h.received i hi, List.length_map, List.length_take,
      Nat.min_eq_left (h.inv.sq i hi).fetchLe]
    exact (h.inv.sq i hi).ackLe

/--
**In every run, bytes are delivered**: through the refinement, from the invariant of the rings,
whose positions never wrap.
-/
theorem delivered_of_reachable (hfit : cfg.HeadsFit) (hlay : Layout cfg sqndbs) {x : QueueMemory}
    (h : (machine cfg sqndbs).Reachable x) : Delivered cfg x := by
  obtain ⟨r, -, hr⟩ := (inStep hfit hlay).reachable
    (fun x hx => ⟨x.rings, init_rings hx, represents_init hlay hx⟩) h
  exact hr.delivered

theorem delivered_of_reachable_pair : ∃ x, (machine pairConfig 0x1000).run startPair
      [.post 2 { CID := 7 }, .fetchComplete 2 0 0, .consume 1] = some x ∧ Delivered pairConfig x :=
  ⟨_, rfl, delivered_of_reachable (by decide) layout_pair
    ((Machine.Reachable.start init_startPair).run
      [.post 2 { CID := 7 }, .fetchComplete 2 0 0, .consume 1] rfl)⟩

end QueueMemory

end LoneNvme
