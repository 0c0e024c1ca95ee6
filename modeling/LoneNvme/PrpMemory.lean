import LoneNvme.Lib.Sweep
import LoneNvme.MemMgr
import LoneNvme.PrpEnds

/-!
# A PRP and the memory manager

Here the pages of a `PRP` come from a memory manager and go back to it. `alloc` finds out
that a transfer is too large only when the list page is full: what it allocated until then
stays allocated, in an object the caller never gets. `free_all_memory` removes from the
list it walks, so it frees every other page.

The manager is any lawful one. `Took` says that pages went from it to an object: they were not
live before, and now stand at the end of both lists. If the call raises then, its object is
lost, and they are live pages that nobody holds.
-/

namespace LoneNvme

open Lib

variable {σ H : Type} [DevMemMgr σ H]

/-- A `PRP` object with the pages it holds by name, its manager, and the memory. -/
structure ManagedPRP (σ H : Type) where
  memMgr : σ
  mem : Mem
  numBytes : Nat
  mps : Nat
  prp1 : Nat := 0
  prp2 : Nat := 0
  memList : List H := []

namespace ManagedPRP

/-- The object, its pages being where the manager says they are. -/
def prp (o : ManagedPRP σ H) : PRP where
  numBytes := o.numBytes
  mps := o.mps
  prp1 := o.prp1
  prp2 := o.prp2
  memList := o.memList.map (DevMemMgr.location o.memMgr)

/-- `malloc_page`. -/
def mallocPage (direction : DMADirection) : EStateM Exc (ManagedPRP σ H) MemoryLocation := do
  let o ← get
  match DevMemMgr.malloc o.memMgr o.mps direction with
  | .error e => throw e
  | .ok (h, memMgr) =>
      let page := DevMemMgr.location memMgr h
      set { o with
        memMgr
        memList := o.memList ++ [h]
        mem := o.mem.store page.vaddr (List.replicate o.mps 0) }
      return page

/-- The loop of `alloc` over the entries of the page `list`, `left` of which are free. -/
def allocList (direction : DMADirection) (list : MemoryLocation) :
    (left i : Nat) → (remBytes : Int) → EStateM Exc (ManagedPRP σ H) Unit
  | 0, _, _ => throw (.assertionError "Support for PRPs larger than 2M not implemented!")
  | left + 1, i, remBytes => do
      let segment ← mallocPage direction
      modify fun o => { o with mem := o.mem.storeWord (list.vaddr + 8 * i) segment.iova }
      let o ← get
      let remBytes := remBytes - o.mps
      if remBytes ≤ 0 then return ()
      else allocList direction list left (i + 1) remBytes

/-- `alloc`. The device reads the list page whatever it does with the data. -/
def alloc (direction : DMADirection) : EStateM Exc (ManagedPRP σ H) Unit := do
  let prp1Mem ← mallocPage direction
  modify fun o => { o with prp1 := prp1Mem.iova }
  let o ← get
  if o.prp.pagesNeeded = 1 then
    return ()
  else
    let prp2Mem ← mallocPage (if o.prp.pagesNeeded = 2 then direction else .hostToDevice)
    modify fun o => { o with prp2 := prp2Mem.iova }
    if o.prp.pagesNeeded = 2 then
      return ()
    else
      allocList direction prp2Mem (PRP.prpsPerPage o.mps) 0 ((o.numBytes : Int) - o.mps)

/-- The constructor with `alloc=True`: if it raises, the object is lost. -/
def construct (numBytes mps : Nat) (direction : DMADirection) (mem : Mem) :
    EStateM Exc σ (ManagedPRP σ H) := fun memMgr =>
  match PRP.new numBytes mps with
  | .error e => .error e memMgr
  | .ok _ =>
      match alloc direction { memMgr, mem, numBytes, mps } with
      | .error e o => .error e o.memMgr
      | .ok () o => .ok o o.memMgr

/-- `free_all_memory`, with the objects it frees in that order. -/
def freeAllMemory [DecidableEq H] (o : ManagedPRP σ H) : Except Exc (ManagedPRP σ H × List H) := do
  let ((memMgr, freed), memList) ← forRemoving (fun s mem => do
    let memMgr ← DevMemMgr.free s.1 mem
    .ok (memMgr, s.2 ++ [mem])) (o.memMgr, []) o.memList 0
  .ok ({ o with memMgr, memList }, freed)

/-- `free_prps` of a command. -/
def freePrps [DecidableEq H] :
    Option (ManagedPRP σ H) → Except Exc (Option (ManagedPRP σ H) × List H)
  | none => .ok (none, [])
  | some prp => do
      let (prp, freed) ← prp.freeAllMemory
      .ok (some prp, freed)

/-! ## What an allocation does to the manager -/

/-- The pages `taken` went from the manager to the object. -/
structure Took (o o' : ManagedPRP σ H) (taken : List H) : Prop where
  memList : o'.memList = o.memList ++ taken
  live : DevMemMgr.allocatedMemList o'.memMgr = DevMemMgr.allocatedMemList o.memMgr ++ taken
  location : ∀ g ∈ DevMemMgr.allocatedMemList o.memMgr,
    DevMemMgr.location o'.memMgr g = DevMemMgr.location o.memMgr g
  fresh : ∀ h ∈ taken, h ∉ DevMemMgr.allocatedMemList o.memMgr
  nodup : taken.Nodup
  numBytes : o'.numBytes = o.numBytes
  mps : o'.mps = o.mps

/-- The object's pages are live. -/
def Held (o : ManagedPRP σ H) : Prop := ∀ h ∈ o.memList, h ∈ DevMemMgr.allocatedMemList o.memMgr

theorem Took.held {o o' : ManagedPRP σ H} {taken : List H} (h : Took o o' taken) (ho : o.Held) :
    o'.Held := by
  intro g hg
  rw [h.memList] at hg
  rw [h.live]
  rcases List.mem_append.mp hg with hg | hg
  · exact List.mem_append_left _ (ho g hg)
  · exact List.mem_append_right _ hg

theorem Took.mem_live {o o' : ManagedPRP σ H} {taken : List H} (h : Took o o' taken) {g : H}
    (hg : g ∈ taken) : g ∈ DevMemMgr.allocatedMemList o'.memMgr := by
  rw [h.live]
  exact List.mem_append_right _ hg

/-- What is written into the object later is its own affair. -/
theorem Took.update {o o' o'' : ManagedPRP σ H} {taken : List H} (h : Took o o' taken)
    (hmgr : o''.memMgr = o'.memMgr) (hlist : o''.memList = o'.memList)
    (hnum : o''.numBytes = o'.numBytes) (hmps : o''.mps = o'.mps) : Took o o'' taken where
  memList := hlist.trans h.memList
  live := by rw [hmgr, h.live]
  location g hg := by rw [hmgr, h.location g hg]
  fresh := h.fresh
  nodup := h.nodup
  numBytes := hnum.trans h.numBytes
  mps := hmps.trans h.mps

theorem Took.trans {o₁ o₂ o₃ : ManagedPRP σ H} {as bs : List H} (h : Took o₁ o₂ as)
    (h' : Took o₂ o₃ bs) : Took o₁ o₃ (as ++ bs) where
  memList := by rw [h'.memList, h.memList, List.append_assoc]
  live := by rw [h'.live, h.live, List.append_assoc]
  location g hg := by
    rw [h'.location g (by rw [h.live]; exact List.mem_append_left _ hg), h.location g hg]
  fresh g hg := by
    rcases List.mem_append.mp hg with hg | hg
    · exact h.fresh g hg
    · intro hin
      exact h'.fresh g hg (by rw [h.live]; exact List.mem_append_left _ hin)
  nodup := by
    refine List.nodup_append.mpr ⟨h.nodup, h'.nodup, fun a ha b hb he => h'.fresh b hb ?_⟩
    rw [h.live, ← he]
    exact List.mem_append_right _ ha
  numBytes := h'.numBytes.trans h.numBytes
  mps := h'.mps.trans h.mps

/-- The pages needed depend on the sizes only. -/
theorem Took.pagesNeeded {o o' : ManagedPRP σ H} {taken : List H} (h : Took o o' taken) :
    o'.prp.pagesNeeded = o.prp.pagesNeeded := by
  unfold PRP.pagesNeeded prp
  dsimp only
  rw [h.numBytes, h.mps]

variable [DecidableEq H] [LawfulDevMemMgr σ]

/-- **One page.** -/
theorem mallocPage_run {o : ManagedPRP σ H} {direction d : DMADirection} {n : Nat}
    (hs : Supplies o.mps direction (n + 1) o.memMgr) (hd : d = direction ∨ d = .hostToDevice)
    (ho : o.Held) :
    ∃ h o', mallocPage d o = .ok (DevMemMgr.location o'.memMgr h) o' ∧ Took o o' [h]
      ∧ Supplies o.mps direction n o'.memMgr
      ∧ o.prp.mallocPage o.mem (DevMemMgr.location o'.memMgr h) = (o'.prp, o'.mem) := by
  obtain ⟨h, memMgr, hmalloc, hsupplies⟩ := hs d hd
  have hlocation := fun g => @LawfulDevMemMgr.malloc_location σ H _ _ _ _ _ _ _ _ g hmalloc
  refine ⟨h, { o with
    memMgr
    memList := o.memList ++ [h]
    mem := o.mem.store (DevMemMgr.location memMgr h).vaddr (List.replicate o.mps 0) },
    ?_, ⟨rfl, LawfulDevMemMgr.malloc_live hmalloc, hlocation, ?_, List.nodup_singleton h, rfl, rfl⟩,
    hsupplies, ?_⟩
  · unfold mallocPage
    rw [run_get_bind, hmalloc]
    rfl
  · intro g hg
    rw [List.mem_singleton.mp hg]
    exact LawfulDevMemMgr.malloc_fresh hmalloc
  · -- the pages the object has stay where they are
    have hsame : o.memList.map (DevMemMgr.location memMgr)
        = o.memList.map (DevMemMgr.location o.memMgr) :=
      List.map_congr_left fun g hg => hlocation g (ho g hg)
    unfold prp PRP.mallocPage
    dsimp only
    rw [List.map_append, hsame]
    rfl

/-- **One page, and what the object records of it**: nothing of the pages and the sizes. -/
theorem mallocPage_record {o : ManagedPRP σ H} {direction d : DMADirection} {n : Nat}
    (hs : Supplies o.mps direction (n + 1) o.memMgr) (hd : d = direction ∨ d = .hostToDevice)
    (ho : o.Held) (record : MemoryLocation → ManagedPRP σ H → ManagedPRP σ H)
    (hrecord : ∀ l o, (record l o).memMgr = o.memMgr ∧ (record l o).memList = o.memList
      ∧ (record l o).numBytes = o.numBytes ∧ (record l o).mps = o.mps) :
    ∃ h o', (∀ k : MemoryLocation → EStateM Exc (ManagedPRP σ H) Unit,
        (do let page ← mallocPage d; modify (record page); k page) o
          = k (DevMemMgr.location o'.memMgr h) o')
      ∧ Took o o' [h] ∧ Supplies o'.mps direction n o'.memMgr
      ∧ ∃ o₁, o.prp.mallocPage o.mem (DevMemMgr.location o'.memMgr h) = (o₁.prp, o₁.mem)
        ∧ o' = record (DevMemMgr.location o'.memMgr h) o₁ := by
  obtain ⟨h, o₁, hrun, htook, hsupplies, hpage⟩ := mallocPage_run hs hd ho
  obtain ⟨hmgr, hlist, hnum, hmps⟩ := hrecord (DevMemMgr.location o₁.memMgr h) o₁
  refine ⟨h, record (DevMemMgr.location o₁.memMgr h) o₁, fun k => ?_,
    htook.update hmgr hlist hnum hmps, ?_, o₁, ?_, ?_⟩
  · rw [run_bind_ok hrun, run_modify_bind, hmgr]
  · rw [hmps, htook.mps, hmgr]
    exact hsupplies
  · rw [hmgr]
    exact hpage
  · rw [hmgr]

/-- How a run ends, with the object as it is then. -/
def ended (o : ManagedPRP σ H) : Except Exc Unit → EStateM.Result Exc (ManagedPRP σ H) Unit
  | .ok u => .ok u o
  | .error e => .error e o

/-- Where the `k`-th page taken is. -/
def pageOf (o : ManagedPRP σ H) (taken : List H) (k : Nat) : MemoryLocation :=
  (taken[k]?.map (DevMemMgr.location o.memMgr)).getD ⟨0, 0, 0⟩

/-- **The loop**, on a manager with a page for every entry, does what it does on given pages. -/
theorem allocList_run {direction : DMADirection} {list : MemoryLocation} :
    ∀ {left i : Nat} {remBytes : Int} {o : ManagedPRP σ H}, o.Held →
      Supplies o.mps direction left o.memMgr →
      ∃ o' taken res, allocList direction list left i remBytes o = ended o' res ∧ Took o o' taken
        ∧ ∀ page : Nat → MemoryLocation, page 1 = list →
            (∀ k h, taken[k]? = some h → page (i + 2 + k) = DevMemMgr.location o'.memMgr h) →
            PRP.allocList page left i remBytes o.prp o.mem = (o'.prp, o'.mem, res) := by
  intro left
  induction left with
  | zero =>
      intro i remBytes o _ _
      refine ⟨o, [], _, rfl, ⟨(List.append_nil _).symm, (List.append_nil _).symm, fun _ _ => rfl,
        by simp, List.nodup_nil, rfl, rfl⟩, fun page _ _ => rfl⟩
  | succ left ih =>
      intro i remBytes o ho hs
      -- one page from the manager, entered in the list, before either run goes on
      obtain ⟨h, o₂, hrun, htook, hsupplies, o₁, hpage, ho₂⟩ := mallocPage_record hs (Or.inl rfl) ho
        (fun l o => { o with mem := o.mem.storeWord (list.vaddr + 8 * i) l.iova })
        fun _ _ => ⟨rfl, rfl, rfl, rfl⟩
      have hstep : allocList direction list (left + 1) i remBytes o
          = if remBytes - o.mps ≤ 0 then .ok () o₂
            else allocList direction list left (i + 1) (remBytes - o.mps) o₂ := by
        rw [allocList, hrun, run_get_bind, htook.mps]
        split
        · rfl
        · rfl
      have hpure : ∀ page : Nat → MemoryLocation, page 1 = list →
          page (i + 2) = DevMemMgr.location o₂.memMgr h →
          PRP.allocList page (left + 1) i remBytes o.prp o.mem
            = if remBytes - o.mps ≤ 0 then (o₂.prp, o₂.mem, .ok ())
              else PRP.allocList page left (i + 1) (remBytes - o.mps) o₂.prp o₂.mem := by
        intro page hlist hsegment
        have hprp : o₂.prp = o₁.prp := (congrArg prp ho₂).trans rfl
        have hmem : o₂.mem = _ := congrArg ManagedPRP.mem ho₂
        have hmps : o₁.prp.mps = o.mps := (congrArg PRP.mps hprp).symm.trans htook.mps
        rw [PRP.allocList, hsegment, hlist, hpage, hprp, hmem]
        dsimp only
        rw [hmps]
      rw [hstep]
      by_cases hdone : remBytes - o.mps ≤ 0
      · rw [if_pos hdone]
        refine ⟨o₂, [h], .ok (), rfl, htook, fun page hlist hpages => ?_⟩
        rw [hpure page hlist (hpages 0 h rfl), if_pos hdone]
      · rw [if_neg hdone]
        obtain ⟨o', taken, res, hrest, htaken, hsame⟩ :=
          @ih (i + 1) (remBytes - o.mps) o₂ (htook.held ho) hsupplies
        refine ⟨o', h :: taken, res, hrest, htook.trans htaken, fun page hlist hpages => ?_⟩
        have hlive := htook.mem_live List.mem_cons_self
        rw [hpure page hlist ((hpages 0 h rfl).trans (htaken.location h hlive)), if_neg hdone]
        refine hsame page hlist fun k g hk => ?_
        rw [show i + 1 + 2 + k = i + 2 + (k + 1) by omega]
        exact hpages (k + 1) g hk

/--
**`alloc` on a manager with enough memory** does what it does on given pages: those the
manager handed out.
-/
theorem alloc_run {direction : DMADirection} {o : ManagedPRP σ H} (ho : o.Held) (hm : 8 ≤ o.mps)
    (hs : Supplies o.mps direction (o.mps / 8 + 1) o.memMgr) :
    ∃ o' taken res, alloc direction o = ended o' res ∧ Took o o' taken
      ∧ ∀ page : Nat → MemoryLocation,
          (∀ k h, taken[k]? = some h → page k = DevMemMgr.location o'.memMgr h) →
          PRP.alloc o.prp o.mem page = (o'.prp, o'.mem, res) := by
  obtain ⟨h₁, o₂, hrun₂, htook₂, hs₂, o₁, hpage₁, hrec₂⟩ := mallocPage_record hs (Or.inl rfl) ho
    (fun l o => { o with prp1 := l.iova }) fun _ _ => ⟨rfl, rfl, rfl, rfl⟩
  have hlive₁ := htook₂.mem_live (List.mem_singleton_self h₁)
  unfold alloc
  rw [hrun₂, run_get_bind, htook₂.pagesNeeded]
  -- `alloc` on given pages, with the first page made
  have hpure₂ : ∀ page : Nat → MemoryLocation, page 0 = DevMemMgr.location o₂.memMgr h₁ →
      PRP.alloc o.prp o.mem page = if o.prp.pagesNeeded = 1 then (o₂.prp, o₂.mem, .ok ())
        else
          let made := o₂.prp.mallocPage o₂.mem (page 1)
          let prp := { made.1 with prp2 := (page 1).iova }
          if o.prp.pagesNeeded = 2 then (prp, made.2, .ok ())
          else PRP.allocList page (PRP.prpsPerPage o.mps) 0 ((o.numBytes : Int) - o.mps)
            prp made.2 := by
    intro page hp
    have hprp : o₂.prp = { o₁.prp with prp1 := (DevMemMgr.location o₂.memMgr h₁).iova } :=
      congrArg prp hrec₂
    have hmem : o₂.mem = o₁.mem := (congrArg ManagedPRP.mem hrec₂).trans rfl
    rw [PRP.alloc, hp, hpage₁]
    dsimp only
    rw [← hprp, ← hmem, htook₂.pagesNeeded]
    split
    · rfl
    · rw [← htook₂.pagesNeeded, ← htook₂.mps, ← htook₂.numBytes]
      rfl
  by_cases hone : o.prp.pagesNeeded = 1
  · rw [if_pos hone]
    refine ⟨o₂, [h₁], .ok (), rfl, htook₂, fun page hpages => ?_⟩
    rw [hpure₂ page (hpages 0 h₁ rfl), if_pos hone]
  · rw [if_neg hone]
    rw [show o.mps / 8 = o.mps / 8 - 1 + 1 by omega] at hs₂
    -- the second page is a data page or the list, so its direction may differ
    obtain ⟨h₂, o₄, hrun₄, htook₄, hs₄, o₃, hpage₃, hrec₄⟩ :=
      mallocPage_record (d := if o.prp.pagesNeeded = 2 then direction else .hostToDevice) hs₂
        (by split <;> simp) (htook₂.held ho) (fun l o => { o with prp2 := l.iova })
        fun _ _ => ⟨rfl, rfl, rfl, rfl⟩
    have hlive₂ := htook₄.mem_live (List.mem_singleton_self h₂)
    have hfirst := htook₄.location h₁ hlive₁
    rw [hrun₄]
    have hpure₄ : ∀ page : Nat → MemoryLocation, page 0 = DevMemMgr.location o₂.memMgr h₁ →
        page 1 = DevMemMgr.location o₄.memMgr h₂ →
        PRP.alloc o.prp o.mem page = if o.prp.pagesNeeded = 2 then (o₄.prp, o₄.mem, .ok ())
          else PRP.allocList page (PRP.prpsPerPage o.mps) 0 ((o.numBytes : Int) - o.mps)
            o₄.prp o₄.mem := by
      intro page hp hp'
      have hprp : o₄.prp = { o₃.prp with prp2 := (DevMemMgr.location o₄.memMgr h₂).iova } :=
        congrArg prp hrec₄
      have hmem : o₄.mem = o₃.mem := (congrArg ManagedPRP.mem hrec₄).trans rfl
      rw [hpure₂ page hp, if_neg hone, hp', hpage₃, hprp, hmem]
    by_cases htwo : o.prp.pagesNeeded = 2
    · rw [if_pos htwo]
      refine ⟨o₄, [h₁, h₂], .ok (), rfl, htook₂.trans htook₄, fun page hpages => ?_⟩
      rw [hpure₄ page ((hpages 0 h₁ rfl).trans hfirst) (hpages 1 h₂ rfl), if_pos htwo]
    · rw [if_neg htwo]
      have hs₄' : Supplies o₄.mps direction (PRP.prpsPerPage o.mps) o₄.memMgr := hs₄
      obtain ⟨o', taken, res, hrun, htaken, hsame⟩ := @allocList_run _ _ _ _ _ direction
        (DevMemMgr.location o₄.memMgr h₂) (PRP.prpsPerPage o.mps) 0 ((o.numBytes : Int) - o.mps) o₄
        (htook₄.held (htook₂.held ho)) hs₄'
      refine ⟨o', h₁ :: h₂ :: taken, res, ?_, (htook₂.trans htook₄).trans htaken,
        fun page hpages => ?_⟩
      · rw [htook₂.mps, htook₂.numBytes]
        exact hrun
      · -- later pages leave the first two where they are
        have hlive₁' := (htook₂.trans htook₄).mem_live (List.mem_cons_self (a := h₁))
        have hp0 : page 0 = DevMemMgr.location o₂.memMgr h₁ :=
          ((hpages 0 h₁ rfl).trans (htaken.location h₁ hlive₁')).trans hfirst
        have hp1 : page 1 = DevMemMgr.location o₄.memMgr h₂ :=
          (hpages 1 h₂ rfl).trans (htaken.location h₂ hlive₂)
        rw [hpure₄ page hp0 hp1, if_neg htwo]
        refine hsame page hp1 fun k g hk => ?_
        rw [show 0 + 2 + k = k + 2 by omega]
        exact hpages (k + 2) g hk

section Construct

variable {numBytes mps : Nat} {direction : DMADirection} {s : σ}

/-- The constructor's run, and the same allocation on the pages it took. -/
theorem construct_run (hm : 32 ≤ mps) (hs : Supplies mps direction (mps / 8 + 1) s) (mem : Mem) :
    ∃ o' taken res, alloc direction { memMgr := s, mem, numBytes, mps } = ended o' res
      ∧ Took ({ memMgr := s, mem, numBytes, mps } : ManagedPRP σ H) o' taken
      ∧ PRP.alloc { numBytes, mps } mem (pageOf o' taken) = (o'.prp, o'.mem, res) := by
  obtain ⟨o', taken, res, hrun, htook, hpure⟩ := @alloc_run σ H _ _ _ direction
    { memMgr := s, mem, numBytes, mps } (fun h hh => absurd hh (by simp)) (by show 8 ≤ mps; omega) hs
  refine ⟨o', taken, res, hrun, htook, hpure _ fun k h hk => ?_⟩
  unfold pageOf
  rw [hk]
  rfl

/-- **What the constructor builds**: an object with all the pages it took. -/
theorem construct_ok (hm : 32 ≤ mps) (hn : 0 < numBytes) (hcap : numBytes ≤ mps / 8 * mps)
    (hs : Supplies mps direction (mps / 8 + 1) s) (mem : Mem) :
    ∃ o : ManagedPRP σ H, construct numBytes mps direction mem s = .ok o o.memMgr
      ∧ DevMemMgr.allocatedMemList o.memMgr = DevMemMgr.allocatedMemList s ++ o.memList
      ∧ (∀ h ∈ o.memList, h ∉ DevMemMgr.allocatedMemList s) ∧ o.memList.Nodup
      ∧ o.memList.length = PRP.pagesNeeded { numBytes, mps } := by
  obtain ⟨o, taken, res, hrun, htook, hpure⟩ := @construct_run σ H _ _ _ numBytes _ _ _ hm hs mem
  obtain ⟨mem', heq⟩ := PRP.alloc_eq (by omega) hn hcap (pageOf o taken) mem
  rw [heq] at hpure
  injection hpure with hprp hpure
  injection hpure with _ hres
  have hlist : o.memList = taken := htook.memList
  have hlen : o.memList.length = PRP.pagesNeeded { numBytes, mps } := by
    have hpages := congrArg (fun prp => prp.memList.length) hprp
    dsimp only [PRP.allocated, prp] at hpages
    rw [List.length_map, List.length_map, List.length_range] at hpages
    exact hpages.symm
  refine ⟨o, ?_, by rw [hlist]; exact htook.live, by rw [hlist]; exact htook.fresh,
    by rw [hlist]; exact htook.nodup, hlen⟩
  unfold construct
  rw [PRP.new_ok (by omega) hn, hrun, ← hres]
  rfl

/-- **What is lost** when it raises: two pages, and a page for every entry of the list. -/
theorem construct_full (hm : 32 ≤ mps) (hn : 0 < numBytes) (hcap : mps / 8 * mps < numBytes)
    (hs : Supplies mps direction (mps / 8 + 1) s) (mem : Mem) :
    ∃ s' taken, construct (H := H) numBytes mps direction mem s = .error
        (.assertionError "Support for PRPs larger than 2M not implemented!") s'
      ∧ DevMemMgr.allocatedMemList s' = DevMemMgr.allocatedMemList s ++ taken
      ∧ (∀ h ∈ taken, h ∉ DevMemMgr.allocatedMemList s) ∧ taken.length = mps / 8 + 1 := by
  obtain ⟨o, taken, res, hrun, htook, hpure⟩ := @construct_run σ H _ _ _ numBytes _ _ _ hm hs mem
  obtain ⟨prp', mem', heq, hpages⟩ := PRP.alloc_full hm hcap (pageOf o taken) mem
  rw [heq] at hpure
  injection hpure with hprp hpure
  injection hpure with _ hres
  have hlist : o.memList = taken := htook.memList
  refine ⟨o.memMgr, taken, ?_, htook.live, htook.fresh, ?_⟩
  · unfold construct
    rw [PRP.new_ok (by omega) hn, hrun, ← hres]
    rfl
  · have hlen := congrArg List.length hpages
    rw [hprp] at hlen
    dsimp only [prp] at hlen
    rw [List.length_map, List.length_map, List.length_range, hlist] at hlen
    exact hlen

/-- What a successful construction says. -/
theorem construct_inv (hm : 32 ≤ mps) (hs : Supplies mps direction (mps / 8 + 1) s) {mem : Mem}
    {o : ManagedPRP σ H} {s' : σ} (hok : construct numBytes mps direction mem s = .ok o s') :
    0 < numBytes
      ∧ DevMemMgr.allocatedMemList o.memMgr = DevMemMgr.allocatedMemList s ++ o.memList
      ∧ (∀ h ∈ o.memList, h ∉ DevMemMgr.allocatedMemList s) ∧ o.memList.Nodup
      ∧ o.memList.length = PRP.pagesNeeded { numBytes, mps } := by
  have hn : 0 < numBytes := by
    cases hnew : PRP.new numBytes mps with
    | ok prp => exact (PRP.new_eq_ok (by omega) hnew).1
    | error e =>
        unfold construct at hok
        rw [hnew] at hok
        exact absurd hok (by simp)
  have hcap : numBytes ≤ mps / 8 * mps := by
    by_contra hcap
    obtain ⟨_, _, herr, _⟩ := construct_full (H := H) hm hn (Nat.lt_of_not_le hcap) hs mem
    exact absurd (herr.symm.trans hok) (by simp)
  obtain ⟨o', hok', hbuilt⟩ := construct_ok (H := H) hm hn hcap hs mem
  have ho : o = o' := by
    injection hok.symm.trans hok'
  rw [ho]
  exact ⟨hn, hbuilt⟩

/-- What an exception leaves: no page of the failed object stays allocated. -/
def LeaksNothing (numBytes mps : Nat) (direction : DMADirection) (mem : Mem) (s : σ) : Prop :=
  ∀ e s', construct (H := H) numBytes mps direction mem s = .error e s' →
    ∀ h : H, h ∈ DevMemMgr.allocatedMemList s' ↔ h ∈ DevMemMgr.allocatedMemList s

/--
**Construction**, on a manager with enough memory: it succeeds up to the capacity of a
list page, and beyond that never without a leak.

The pages are allocated before the list is found too small, and the exception takes the
only object with it that names them.
-/
theorem construct_iff (hm : 32 ≤ mps) (hn : 0 < numBytes)
    (hs : Supplies mps direction (mps / 8 + 1) s) (mem : Mem) :
    ((∃ (o : ManagedPRP σ H) (s' : σ), construct numBytes mps direction mem s = .ok o s')
        ↔ numBytes ≤ mps / 8 * mps)
      ∧ (LeaksNothing (H := H) numBytes mps direction mem s ↔ numBytes ≤ mps / 8 * mps) := by
  by_cases hcap : numBytes ≤ mps / 8 * mps
  · obtain ⟨o, hok, _⟩ := construct_ok hm hn hcap hs mem
    refine ⟨iff_of_true ⟨o, _, hok⟩ hcap, iff_of_true (fun e s' herr => ?_) hcap⟩
    exact absurd (hok.symm.trans herr) (by simp)
  · obtain ⟨s', taken, herr, hlive, hfresh, hlen⟩ :=
      construct_full hm hn (Nat.lt_of_not_le hcap) hs mem
    refine ⟨iff_of_false (fun hok => ?_) hcap, iff_of_false (fun hnone => ?_) hcap⟩
    · obtain ⟨o, s'', hok⟩ := hok
      exact absurd (herr.symm.trans hok) (by simp)
    · obtain ⟨h, hh⟩ := List.exists_mem_of_length_pos (show 0 < taken.length by omega)
      refine hfresh h hh ((hnone _ s' herr h).mp ?_)
      rw [hlive]
      exact List.mem_append_right _ hh

/-- Four pages, the data of three of them listed. -/
theorem leaksNothing_four_pages :
    LeaksNothing (H := Nat) 100 32 .hostToDevice (fun _ => 0)
      (SimMemMgr.new fun k => 32 * (k + 1)) :=
  (construct_iff (by decide) (by decide) SimMemMgr.supplies _).2.mpr (by decide)

/-- A byte more than a list page can list. -/
theorem not_leaksNothing_beyond :
    ¬ ∀ (mps numBytes : Nat) (direction : DMADirection) (mem : Mem)
      (s : SimMemMgr fun k => 4096 * (k + 1)), 8 ∣ mps → 32 ≤ mps → 0 < numBytes →
      ((∃ (o : ManagedPRP _ Nat) (s' : _), construct numBytes mps direction mem s = .ok o s')
          ↔ numBytes ≤ mps / 8 * mps)
        ∧ LeaksNothing (H := Nat) numBytes mps direction mem s := by
  intro hall
  obtain ⟨s', taken, herr, hlive, hfresh, hlen⟩ := @construct_full _ Nat _ _ _ 2097153 4096
    .hostToDevice (SimMemMgr.new fun k => 4096 * (k + 1)) (by decide) (by decide) (by decide)
    SimMemMgr.supplies fun _ => 0
  have hnone := (hall 4096 2097153 .hostToDevice (fun _ => 0) _ (by decide) (by decide)
    (by decide)).2 _ s' herr
  obtain ⟨h, hh⟩ := List.exists_mem_of_length_pos (show 0 < taken.length by omega)
  refine hfresh h hh ((hnone h).mp ?_)
  rw [hlive]
  exact List.mem_append_right _ hh

end Construct

/-! ## Giving the pages back -/

/-- Frees of different live objects all succeed. -/
theorem foldlM_free : ∀ {mems acc : List H} {s : σ}, mems.Nodup →
    (∀ h ∈ mems, h ∈ DevMemMgr.allocatedMemList s) →
    ∃ s', mems.foldlM (fun (s : σ × List H) mem => do
        let memMgr ← DevMemMgr.free s.1 mem
        (.ok (memMgr, s.2 ++ [mem]) : Except Exc (σ × List H))) (s, acc) = .ok (s', acc ++ mems)
      ∧ DevMemMgr.allocatedMemList s' = (DevMemMgr.allocatedMemList s).diff mems := by
  intro mems
  induction mems with
  | nil =>
      intro acc s _ _
      exact ⟨s, by rw [List.append_nil]; rfl, (List.diff_nil _).symm⟩
  | cons mem mems ih =>
      intro acc s hnodup hlive
      obtain ⟨hnot, hnodup⟩ := List.nodup_cons.mp hnodup
      -- the objects are distinct, so the others are still live
      obtain ⟨s₁, hfree, hlive₁⟩ := LawfulDevMemMgr.free_live (hlive mem List.mem_cons_self)
      obtain ⟨s', hrest, hlive'⟩ := @ih (acc ++ [mem]) s₁ hnodup fun h hh => by
        rw [hlive₁]
        exact (List.mem_erase_of_ne (ne_of_mem_of_not_mem hh hnot)).mpr
          (hlive h (List.mem_cons_of_mem _ hh))
      refine ⟨s', ?_, by rw [hlive', hlive₁, List.diff_cons]⟩
      rw [List.foldlM_cons]
      show ((DevMemMgr.free s mem).bind _).bind _ = _
      rw [hfree]
      rw [List.append_assoc] at hrest
      exact hrest

/-- **What `free_all_memory` frees**: every other page. -/
theorem freeAllMemory_run {o : ManagedPRP σ H} (hnodup : o.memList.Nodup) (ho : o.Held) :
    ∃ o', o.freeAllMemory = .ok (o', everyOther o.memList)
      ∧ o'.memList = (sweep o.memList 0).2
      ∧ DevMemMgr.allocatedMemList o'.memMgr
        = (DevMemMgr.allocatedMemList o.memMgr).diff (everyOther o.memList) := by
  have hsub : (everyOther o.memList).Sublist o.memList := everyOther_sublist
  obtain ⟨memMgr, hfold, hlive⟩ := @foldlM_free σ H _ _ _ _ [] o.memMgr (hnodup.sublist hsub)
    fun h hh => ho h (hsub.subset hh)
  refine ⟨{ o with memMgr, memList := (sweep o.memList 0).2 }, ?_, rfl, hlive⟩
  unfold freeAllMemory
  rw [forRemoving_eq, sweep_visited, List.drop_zero, hfold]
  rfl

/--
All of it is given back: no page is left in the object, the manager's live allocations
are those it had before the object was made, and every page was freed once; and so
through a command.
-/
def FreesAll (s : σ) (o : ManagedPRP σ H) : Prop :=
  ∃ o' freed, o.freeAllMemory = .ok (o', freed) ∧ o'.memList = []
    ∧ DevMemMgr.allocatedMemList o'.memMgr = DevMemMgr.allocatedMemList s ∧ freed.Perm o.memList
    ∧ freePrps (some o) = .ok (some o', freed)

/--
**When freeing frees all**: a single page. The loop walks the list that it removes from, so it
comes to every other page.
-/
theorem freesAll_iff {numBytes mps : Nat} {direction : DMADirection} {s s' : σ} (hm : 32 ≤ mps)
    (hs : Supplies mps direction (mps / 8 + 1) s) {mem : Mem} {o : ManagedPRP σ H}
    (hok : construct numBytes mps direction mem s = .ok o s') :
    FreesAll s o ↔ numBytes ≤ mps := by
  obtain ⟨hn, hlive, hfresh, hnodup, hlen⟩ := construct_inv hm hs hok
  have hheld : o.Held := by
    intro h hh
    rw [hlive]
    exact List.mem_append_right _ hh
  obtain ⟨o', hrun, hleft, hlive'⟩ := freeAllMemory_run hnodup hheld
  have hcases := @PRP.pagesNeeded_cases { numBytes, mps } (by show 0 < mps; omega) hn
  dsimp only at hcases
  constructor
  · rintro ⟨o'', freed, hrun', hnil, _⟩
    rw [hrun] at hrun'
    injection hrun' with hrun'
    injection hrun' with ho _
    rw [← ho, hleft, sweep_left_eq_nil, hlen] at hnil
    omega
  · intro hle
    -- a list of one page is the only one the shrinking walk empties
    obtain ⟨h, hone⟩ := List.length_eq_one_iff.mp (show o.memList.length = 1 by omega)
    refine ⟨o', everyOther o.memList, hrun, ?_, ?_, ?_, ?_⟩
    · rw [hleft, sweep_left_eq_nil, hone]
      exact Nat.le_refl 1
    · rw [hlive', hlive, hone]
      show (DevMemMgr.allocatedMemList s ++ [h]).diff [h] = _
      have hnew : h ∉ DevMemMgr.allocatedMemList s := hfresh h (hone ▸ List.mem_cons_self)
      rw [List.diff_cons, List.diff_nil, List.erase_append_right _ hnew, List.erase_cons_head,
        List.append_nil]
    · rw [hone]
      exact List.Perm.refl _
    · show (o.freeAllMemory.bind _) = _
      rw [hrun]
      rfl

/-- A page of the simulator's manager. -/
theorem freesAll_one_page :
    ∃ o s', construct 4000 4096 .hostToDevice (fun _ => 0) (SimMemMgr.new fun k => 4096 * (k + 1))
        = .ok o s' ∧ FreesAll (SimMemMgr.new fun k => 4096 * (k + 1)) o := by
  obtain ⟨o, hok, _⟩ := @construct_ok _ Nat _ _ _ 4000 4096 .hostToDevice
    (SimMemMgr.new fun k => 4096 * (k + 1)) (by decide) (by decide) (by decide)
    SimMemMgr.supplies fun _ => 0
  exact ⟨o, _, hok, (freesAll_iff (by decide) SimMemMgr.supplies hok).mpr (by decide)⟩

/-- Of two pages the second stays allocated. -/
theorem not_freesAll_two_pages :
    ¬ ∀ (mps numBytes : Nat) (direction : DMADirection) (mem : Mem)
      (s s' : SimMemMgr fun k => 4096 * (k + 1)) (o : ManagedPRP _ Nat), 8 ∣ mps → 32 ≤ mps →
      construct numBytes mps direction mem s = .ok o s' → FreesAll s o := by
  intro hall
  obtain ⟨o, hok, hlive, _, hnodup, hlen⟩ := @construct_ok _ Nat _ _ _ 8192 4096
    .hostToDevice (SimMemMgr.new fun k => 4096 * (k + 1)) (by decide) (by decide) (by decide)
    SimMemMgr.supplies fun _ => 0
  have hheld : o.Held := by
    intro h hh
    rw [hlive]
    exact List.mem_append_right _ hh
  obtain ⟨o', freed, hrun, hnil, _⟩ := hall 4096 8192 _ _ _ _ o (by decide) (by decide) hok
  obtain ⟨o'', hrun', hleft, _⟩ := freeAllMemory_run hnodup hheld
  rw [hrun] at hrun'
  injection hrun' with hrun'
  injection hrun' with ho _
  rw [ho, hleft, sweep_left_eq_nil, hlen] at hnil
  exact absurd hnil (by decide)

end ManagedPRP

end LoneNvme
