import LoneNvme.PageOwnership

/-!
# Memory managers

`DevMemMgr` is the interface both memory managers implement, and `LawfulDevMemMgr` what
its callers rely on: an allocation adds one new object to the live ones and moves none of
them, and freeing a live object removes it and nothing else. The simulator's manager
obeys it, and so does the hugepage manager in every state that keeps its invariant.

What is proved about a `PRP` or about making a queue pair is proved over the class, and so for
both managers. The class asks for no more than these proofs use: nothing is said of where an
object lies, or of how large it is.
-/

namespace LoneNvme

open Lib

/-- `DevMemMgr`; `H` names the objects handed out. -/
class DevMemMgr (σ : Type) (H : outParam Type) where
  malloc : σ → (size : Nat) → DMADirection → Except Exc (H × σ)
  free : σ → H → Except Exc σ
  allocatedMemList : σ → List H
  location : σ → H → MemoryLocation

class LawfulDevMemMgr (σ : Type) {H : outParam Type} [DecidableEq H] [DevMemMgr σ H] : Prop where
  malloc_fresh {s s' : σ} {size : Nat} {direction : DMADirection} {h : H} :
    DevMemMgr.malloc s size direction = .ok (h, s') → h ∉ DevMemMgr.allocatedMemList s
  malloc_live {s s' : σ} {size : Nat} {direction : DMADirection} {h : H} :
    DevMemMgr.malloc s size direction = .ok (h, s') →
    DevMemMgr.allocatedMemList s' = DevMemMgr.allocatedMemList s ++ [h]
  /-- Live objects stay where they are. -/
  malloc_location {s s' : σ} {size : Nat} {direction : DMADirection} {h g : H} :
    DevMemMgr.malloc s size direction = .ok (h, s') → g ∈ DevMemMgr.allocatedMemList s →
    DevMemMgr.location s' g = DevMemMgr.location s g
  free_live {s : σ} {h : H} : h ∈ DevMemMgr.allocatedMemList s →
    ∃ s', DevMemMgr.free s h = .ok s'
      ∧ DevMemMgr.allocatedMemList s' = (DevMemMgr.allocatedMemList s).erase h

/-- Enough memory for `n` more objects of a size, in a direction or to be read by the device. -/
def Supplies {σ H : Type} [DevMemMgr σ H] (size : Nat) (direction : DMADirection) : Nat → σ → Prop
  | 0, _ => True
  | n + 1, s => ∀ d, d = direction ∨ d = .hostToDevice →
      ∃ h s', DevMemMgr.malloc s size d = .ok (h, s') ∧ Supplies size direction n s'

/-! ## The simulator's manager -/

/--
`SimMemMgr`. An object is named by its place among all that were ever made, and
`address k` is where the language puts the `k`-th of them.
-/
structure SimMemMgr (address : Nat → Nat) where
  made : List MemoryLocation := []
  allocatedMemList : List Nat := []
  lt : ∀ h ∈ allocatedMemList, h < made.length := by simp
  nodup : allocatedMemList.Nodup := by simp

namespace SimMemMgr

variable {address : Nat → Nat}

/-- The constructor. -/
def new (address : Nat → Nat) : SimMemMgr address := {}

/-- `malloc`: program and device address memory alike. -/
def malloc (mgr : SimMemMgr address) (size : Nat) : Nat × SimMemMgr address :=
  let h := mgr.made.length
  (h, { made := mgr.made ++ [⟨address h, address h, size⟩]
        allocatedMemList := mgr.allocatedMemList ++ [h]
        lt := by
          intro g hg
          rw [List.length_append, List.length_singleton]
          rcases List.mem_append.mp hg with hg | hg
          · exact Nat.lt_succ_of_lt (mgr.lt g hg)
          · rw [List.mem_singleton.mp hg]
            exact Nat.lt_succ_self h
        nodup := by
          refine List.nodup_append.mpr ⟨mgr.nodup, List.nodup_singleton h, fun g hg g' hg' he => ?_⟩
          have hlt := mgr.lt g hg
          rw [he, List.mem_singleton.mp hg'] at hlt
          exact Nat.lt_irrefl _ hlt })

/-- The loop of `free`, which removes from the list it walks. -/
def freeLoop (memory : Nat) (l : List Nat) (i : Nat) : List Nat :=
  if h : i < l.length then
    if l[i] = memory then freeLoop memory (l.erase l[i]) (i + 1) else freeLoop memory l (i + 1)
  else
    l
termination_by l.length - i
decreasing_by
  · rw [List.length_erase_of_mem (List.getElem_mem h)]
    omega
  · omega

/-- The list holds an object once, so the loop removes it and skips nothing else of it. -/
theorem freeLoop_eq {memory : Nat} {l : List Nat} {i : Nat} (hnodup : l.Nodup)
    (hbefore : memory ∉ l.take i) : freeLoop memory l i = l.erase memory := by
  induction l, i using freeLoop.induct memory with
  | case1 l i h hi ih =>
      have hgone : memory ∉ l.erase memory := hnodup.not_mem_erase
      rw [hi] at ih
      rw [freeLoop, dif_pos h, if_pos hi, hi,
        ih (hnodup.erase memory) fun hm => hgone (List.mem_of_mem_take hm),
        List.erase_of_not_mem hgone]
  | case2 l i h hi ih =>
      rw [freeLoop, dif_pos h, if_neg hi]
      refine ih hnodup fun hm => ?_
      rw [List.take_succ_eq_append_getElem h] at hm
      rcases List.mem_append.mp hm with hm | hm
      · exact hbefore hm
      · exact hi (List.mem_singleton.mp hm).symm
  | case3 l i h =>
      rw [List.take_of_length_le (Nat.le_of_not_lt h)] at hbefore
      rw [freeLoop, dif_neg h, List.erase_of_not_mem hbefore]

/-- `free`. -/
def free (mgr : SimMemMgr address) (memory : Nat) : SimMemMgr address :=
  { mgr with
    allocatedMemList := freeLoop memory mgr.allocatedMemList 0
    lt := by
      rw [freeLoop_eq mgr.nodup (by simp)]
      exact fun h hh => mgr.lt h (List.mem_of_mem_erase hh)
    nodup := by
      rw [freeLoop_eq mgr.nodup (by simp)]
      exact mgr.nodup.erase memory }

instance : DevMemMgr (SimMemMgr address) Nat where
  malloc mgr size _ := .ok (mgr.malloc size)
  free mgr h := .ok (mgr.free h)
  allocatedMemList := allocatedMemList
  location mgr h := (mgr.made[h]?).getD ⟨0, 0, 0⟩

instance : LawfulDevMemMgr (SimMemMgr address) where
  malloc_fresh {s s' size direction h} hok := by
    injection hok with hok
    injection hok with hh _
    rw [← hh]
    exact fun hin => Nat.lt_irrefl _ (s.lt _ hin)
  malloc_live {s s' size direction h} hok := by
    injection hok with hok
    injection hok with hh hs
    rw [← hh, ← hs]
    rfl
  malloc_location {s s' size direction h g} hok hg := by
    injection hok with hok
    injection hok with _ hs
    rw [← hs]
    show ((s.made ++ _)[g]?).getD _ = (s.made[g]?).getD _
    rw [List.getElem?_append_left (s.lt g hg)]
  free_live {s h} _ := ⟨s.free h, rfl, freeLoop_eq s.nodup (by simp)⟩

/-- It never runs out. -/
theorem supplies {size : Nat} {direction : DMADirection} :
    ∀ {n : Nat} {mgr : SimMemMgr address}, Supplies size direction n mgr := by
  intro n
  induction n with
  | zero => exact fun {_} => trivial
  | succ n ih => exact fun {mgr} _ _ => ⟨_, _, rfl, ih⟩

end SimMemMgr

/-! ## The hugepage manager -/

namespace HugePagesMemoryMgr

/-- The states that keep the invariant, `hp` being what the C extension returns in each. -/
def Sound (cfg : HugePagesConfig) (iovas : List Nat) (_ : HugePagesMemoryMgr → Nat → Nat) : Type :=
  { mgr : HugePagesMemoryMgr // Inv cfg iovas mgr }

variable {cfg : HugePagesConfig} {iovas : List Nat} {hp : HugePagesMemoryMgr → Nat → Nat}

instance : DevMemMgr (Sound cfg iovas hp) Nat where
  malloc mgr size direction :=
    match h : mgr.1.malloc cfg size direction (hp mgr.1) with
    | .ok (b, mgr') => .ok (b, ⟨mgr', mgr.2.malloc h⟩)
    | .error e => .error e
  free mgr b :=
    if hb : b ∈ mgr.1.mallocMem then
      match h : mgr.1.free cfg b with
      | .ok mgr' => .ok ⟨mgr', by
          rw [mgr.2.free_eq hb] at h
          exact Except.ok.inj h ▸ mgr.2.withoutBlock hb⟩
      | .error e => .error e
    else
      .error (.valueError "list.remove(x): x not in list")
  allocatedMemList mgr := mgr.1.mallocMem
  location mgr b := (mgr.1.page b).toMemoryLocation

theorem sound_malloc {mgr mgr' : Sound cfg iovas hp} {size : Nat} {direction : DMADirection} {b : Nat}
    (hok : DevMemMgr.malloc mgr size direction = .ok (b, mgr')) :
    mgr.1.malloc cfg size direction (hp mgr.1) = .ok (b, mgr'.1) := by
  change (match h : mgr.1.malloc cfg size direction (hp mgr.1) with
    | .ok (b, mgr') => Except.ok (b, (⟨mgr', mgr.2.malloc h⟩ : Sound cfg iovas hp))
    | .error e => .error e) = .ok (b, mgr') at hok
  split at hok
  · rename_i b' mgr'' h
    injection hok with hok
    injection hok with hb hm
    rw [h, ← hb, ← hm]
  · exact absurd hok (by simp)

theorem sound_free {mgr : Sound cfg iovas hp} {b : Nat} (hb : b ∈ mgr.1.mallocMem) :
    DevMemMgr.free mgr b = .ok ⟨mgr.1.withoutBlock cfg b, mgr.2.withoutBlock hb⟩ := by
  have heq := mgr.2.free_eq hb
  change (if hb : b ∈ mgr.1.mallocMem then
    match h : mgr.1.free cfg b with
    | .ok mgr' => Except.ok (⟨mgr', by
        rw [mgr.2.free_eq hb] at h
        exact Except.ok.inj h ▸ mgr.2.withoutBlock hb⟩ : Sound cfg iovas hp)
    | .error e => .error e
    else .error (.valueError "list.remove(x): x not in list")) = _
  rw [dif_pos hb]
  split
  · rename_i mgr' h
    rw [heq] at h
    congr
    exact (Except.ok.inj h).symm
  · rename_i e h
    rw [heq] at h
    exact absurd h (by simp)

/-- A new block was free before, and the live ones are where they were. -/
theorem malloc_frame {mgr mgr' : HugePagesMemoryMgr} {size : Int} {direction : DMADirection}
    {hp : Nat → Nat} {b : Nat} (hinv : Inv cfg iovas mgr)
    (hok : mgr.malloc cfg size direction hp = .ok (b, mgr')) :
    b ∉ mgr.mallocMem ∧ mgr'.mallocMem = mgr.mallocMem ++ [b]
      ∧ ∀ c ∈ mgr.mallocMem, mgr'.page c = mgr.page c := by
  obtain ⟨grown, linked, iova, freeIovas, hgrown, hsub, _, _, _, rfl⟩ := malloc_ok hok
  have hsame := ensureFree_grown hgrown
  have hinv' : Inv cfg iovas grown :=
    ensureFree_induct (fun _ vaddr hi => hi.withHugepage vaddr) hinv hgrown
  have hnew : ∀ i ∈ b :: linked, i ∉ mgr.mallocMem := by
    intro i hi hm
    rw [← hsame.mallocMem] at hm
    exact (hinv'.not_mem_owned (hsub.subset hi)).2 (mem_owned_of_mallocMem hm)
  refine ⟨hnew b List.mem_cons_self, congrArg (· ++ [b]) hsame.mallocMem, fun c hc => ?_⟩
  rw [withBlock_page_other fun hin => hnew c hin hc]
  exact hsame.page c (hinv.lt_of_mallocMem hc)

instance : LawfulDevMemMgr (Sound cfg iovas hp) where
  malloc_fresh {s _ _ _ _} hok := (malloc_frame s.2 (sound_malloc hok)).1
  malloc_live {s _ _ _ _} hok := (malloc_frame s.2 (sound_malloc hok)).2.1
  malloc_location {s _ _ _ _ g} hok hg := by
    have hpage := (malloc_frame s.2 (sound_malloc hok)).2.2 g hg
    exact congrArg MemPage.toMemoryLocation hpage
  free_live {_ _} hb := ⟨_, sound_free hb, rfl⟩

end HugePagesMemoryMgr

end LoneNvme
