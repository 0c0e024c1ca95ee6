import LoneNvme.QueueMgr

/-!
# Managers seen through their queues

Two managers with objects of their own can be compared by what the objects look like.
`view` keeps the keys and the id lists and replaces each object by its looks; adding and
removing pairs commutes with it. So managers that look alike still do after the same calls.
-/

namespace LoneNvme

open Lib

namespace QueueMgr

variable {SQ CQ SQ' CQ' : Type*} {f : SQ → SQ'} {g : CQ → CQ'} {qm qm' : QueueMgr SQ CQ}

/-- The manager of what the objects look like, the turns starting over. -/
def view (f : SQ → SQ') (g : CQ → CQ') (qm : QueueMgr SQ CQ) : QueueMgr SQ' CQ' where
  nvmeQueues := qm.nvmeQueues.mapVal fun v => (v.1.map f, v.2.map g)
  ioSqids := qm.ioSqids
  ioCqids := qm.ioCqids

theorem view_empty : ({} : QueueMgr SQ CQ).view f g = {} := rfl

theorem keys_view : (qm.view f g).nvmeQueues.keys = qm.nvmeQueues.keys := Dict.keys_mapVal _ _

theorem get?_view (k : Nat × Nat) : (qm.view f g).nvmeQueues.get? k
    = (qm.nvmeQueues.get? k).map fun v => (v.1.map f, v.2.map g) := Dict.get?_mapVal _ _ _

/-- Only the objects in the manager count. -/
theorem view_congr {f' : SQ → SQ'} {g' : CQ → CQ'}
    (hsq : ∀ e ∈ qm.nvmeQueues.entries, ∀ sq, e.2.1 = some sq → f' sq = f sq)
    (hcq : ∀ e ∈ qm.nvmeQueues.entries, ∀ cq, e.2.2 = some cq → g' cq = g cq) :
    qm.view f' g' = qm.view f g := by
  have hmap : (qm.nvmeQueues.mapVal fun v => (v.1.map f', v.2.map g'))
      = qm.nvmeQueues.mapVal fun v => (v.1.map f, v.2.map g) := by
    refine Dict.mapVal_congr fun e he => Prod.ext ?_ ?_
    · exact Option.map_congr (hsq e he)
    · exact Option.map_congr (hcq e he)
  unfold view
  rw [hmap]

theorem view_add (sqid : Nat) (sq : SQ) (cqid : Nat) (cq : CQ) :
    (qm.add sqid sq cqid cq).view f g = (qm.view f g).add sqid (f sq) cqid (g cq) := by
  have hset : (qm.nvmeQueues.set (sqid, cqid) (some sq, some cq)).mapVal
      (fun v => (v.1.map f, v.2.map g))
      = (qm.view f g).nvmeQueues.set (sqid, cqid) (some (f sq), some (g cq)) :=
    Dict.mapVal_set _ _ _ _
  have hkeys := congrArg Dict.keys hset
  rw [Dict.keys_mapVal] at hkeys
  unfold view add
  dsimp only
  rw [hset, hkeys]
  rfl

/-! ## Removals -/

/-- The items as seen. -/
def viewItems (f : SQ → SQ') (g : CQ → CQ')
    (items : List ((Nat × Nat) × (Option SQ × Option CQ))) :
    List ((Nat × Nat) × (Option SQ' × Option CQ')) :=
  items.map fun e => (e.1, (e.2.1.map f, e.2.2.map g))

theorem view_removeSqLoop {remSqid : Nat} :
    ∀ {items : List ((Nat × Nat) × (Option SQ × Option CQ))} {qm : QueueMgr SQ CQ},
      (removeSqLoop remSqid items qm).map (view f g)
        = removeSqLoop remSqid (viewItems f g items) (qm.view f g) := by
  intro items
  induction items with
  | nil => exact fun {qm} => rfl
  | cons e items ih =>
      intro qm
      obtain ⟨⟨sqid, cqid⟩, sq, cq⟩ := e
      rw [viewItems, List.map_cons, ← viewItems, removeSqLoop, removeSqLoop]
      by_cases hq : sqid = remSqid
      · have hset := @Dict.mapVal_set (Nat × Nat) (Option SQ × Option CQ) _ _
          (fun v => (v.1.map f, v.2.map g)) qm.nvmeQueues (sqid, cqid) (none, cq)
        rw [if_pos hq, if_pos hq]
        dsimp only
        by_cases h0 : sqid = 0
        · rw [if_pos h0, if_pos h0, ih, view]
          dsimp only
          rw [hset]
          rfl
        · rw [if_neg h0, if_neg h0]
          by_cases hin : sqid ∈ qm.ioSqids
          · rw [if_pos hin, if_pos (by exact hin), ih, view]
            dsimp only
            rw [hset]
            rfl
          · rw [if_neg hin, if_neg (by exact hin)]
            rfl
      · rw [if_neg hq, if_neg hq]
        exact ih

theorem view_removeCqLoop {remCqid : Nat} :
    ∀ {items : List ((Nat × Nat) × (Option SQ × Option CQ))} {qm : QueueMgr SQ CQ},
      (removeCqLoop remCqid items qm).map (view f g)
        = removeCqLoop remCqid (viewItems f g items) (qm.view f g) := by
  intro items
  induction items with
  | nil => exact fun {qm} => rfl
  | cons e items ih =>
      intro qm
      obtain ⟨⟨sqid, cqid⟩, sq, cq⟩ := e
      rw [viewItems, List.map_cons, ← viewItems, removeCqLoop.eq_def, removeCqLoop.eq_def]
      dsimp only
      by_cases hq : cqid = remCqid
      · -- an emptied pair looks the same from both sides
        have hset := @Dict.mapVal_set (Nat × Nat) (Option SQ × Option CQ) _ _
          (fun v => (v.1.map f, v.2.map g)) qm.nvmeQueues (sqid, cqid) (none, none)
        rw [if_pos hq, if_pos hq]
        cases sq with
        | some sq => rfl
        | none =>
            dsimp only [Option.map_none]
            by_cases h0 : cqid = 0
            · rw [if_pos h0, if_pos h0, ih, view]
              dsimp only
              rw [hset]
              rfl
            · rw [if_neg h0, if_neg h0]
              by_cases hin : cqid ∈ qm.ioCqids
              · rw [if_pos hin, if_pos (by exact hin), ih, view]
                dsimp only
                rw [hset]
                rfl
              · rw [if_neg hin, if_neg (by exact hin)]
                rfl
      · rw [if_neg hq, if_neg hq]
        exact ih

/-- **`remove_sq`** does to the view what it does to the manager. -/
theorem view_removeSq (remSqid : Nat) :
    (qm.removeSq remSqid).map (view f g) = (qm.view f g).removeSq remSqid := view_removeSqLoop

/-- **`remove_cq`**. -/
theorem view_removeCq (remCqid : Nat) :
    (qm.removeCq remCqid).map (view f g) = (qm.view f g).removeCq remCqid := by
  have hloop := @view_removeCqLoop SQ CQ SQ' CQ' f g remCqid qm.nvmeQueues.entries qm
  unfold removeCq
  show _ = (removeCqLoop remCqid (viewItems f g qm.nvmeQueues.entries) (qm.view f g) >>= _)
  rw [← hloop]
  cases removeCqLoop remCqid qm.nvmeQueues.entries qm with
  | error e => rfl
  | ok qm' =>
      have hfilter := @Dict.mapVal_filter (Nat × Nat) (Option SQ × Option CQ) _
        (fun v => (v.1.map f, v.2.map g)) qm'.nvmeQueues
        (fun e => e.2.1.isSome || e.2.2.isSome) (fun e => e.2.1.isSome || e.2.2.isSome)
        fun k v => by rw [Option.isSome_map, Option.isSome_map]
      show Except.ok (view f g _) = Except.ok _
      unfold view
      dsimp only
      rw [hfilter]

/-- Managers that look alike, both without a queue, still do. -/
theorem view_removed {SQ₂ CQ₂ : Type*} {f₂ : SQ₂ → SQ'} {g₂ : CQ₂ → CQ'} {sim sim' : QueueMgr SQ₂ CQ₂}
    {remove : QueueMgr SQ CQ → Except Exc (QueueMgr SQ CQ)}
    {remove₂ : QueueMgr SQ₂ CQ₂ → Except Exc (QueueMgr SQ₂ CQ₂)}
    {removeView : QueueMgr SQ' CQ' → Except Exc (QueueMgr SQ' CQ')}
    (hview : ∀ qm, (remove qm).map (view f g) = removeView (qm.view f g))
    (hview₂ : ∀ qm, (remove₂ qm).map (view f₂ g₂) = removeView (qm.view f₂ g₂))
    (hsame : qm.view f g = sim.view f₂ g₂) (h : remove qm = .ok qm') (h₂ : remove₂ sim = .ok sim') :
    qm'.view f g = sim'.view f₂ g₂ := by
  have heq := (hview qm).trans ((congrArg removeView hsame).trans (hview₂ sim).symm)
  rw [h, h₂] at heq
  exact Except.ok.inj heq

/-! ## What a removal leaves -/

/-- Some pairs lost queues or are gone, the admin pair not among them. -/
structure Shrunk (qm qm' : QueueMgr SQ CQ) : Prop where
  entries : ∀ e' ∈ qm'.nvmeQueues.entries, ∃ e ∈ qm.nvmeQueues.entries, e.1 = e'.1
    ∧ (∀ sq, e'.2.1 = some sq → e.2.1 = some sq) ∧ ∀ cq, e'.2.2 = some cq → e.2.2 = some cq
  admin : ∀ sq cq, ((0, 0), (some sq, some cq)) ∈ qm.nvmeQueues.entries →
    ((0, 0), (some sq, some cq)) ∈ qm'.nvmeQueues.entries
  ioSqids : ∀ sqid ∈ qm'.ioSqids, sqid ∈ qm.ioSqids

theorem Shrunk.refl (qm : QueueMgr SQ CQ) : Shrunk qm qm :=
  ⟨fun e he => ⟨e, he, rfl, fun _ h => h, fun _ h => h⟩, fun _ _ h => h, fun _ h => h⟩

/-- A pair loses its submission queue or both. -/
theorem Shrunk.set (h : Shrunk qm qm') {k : Nat × Nat} {v : Option SQ × Option CQ} {cq : Option CQ}
    {ioSqids ioCqids : List Nat} (hk : k ≠ (0, 0)) (hm : (k, v) ∈ qm.nvmeQueues.entries)
    (hcq : ∀ c, cq = some c → v.2 = some c) (hids : ∀ sqid ∈ ioSqids, sqid ∈ qm'.ioSqids) :
    Shrunk qm { qm' with
      nvmeQueues := qm'.nvmeQueues.set k (none, cq), ioSqids, ioCqids } where
  entries e' he' := by
    obtain ⟨k', v'⟩ := e'
    rcases Dict.mem_entries_set.mp he' with ⟨rfl, rfl⟩ | ⟨_, hold⟩
    · exact ⟨_, hm, rfl, fun _ h => absurd h (by simp), hcq⟩
    · exact h.entries _ hold
  admin sq c hadmin := Dict.mem_entries_set.mpr (Or.inr ⟨hk.symm, h.admin sq c hadmin⟩)
  ioSqids sqid hs := h.ioSqids sqid (hids sqid hs)

theorem removeSqLoop_shrunk {remSqid : Nat} (h0 : remSqid ≠ 0) {qm : QueueMgr SQ CQ} :
    ∀ {items : List ((Nat × Nat) × (Option SQ × Option CQ))} {qm₁ qm' : QueueMgr SQ CQ},
      (∀ e ∈ items, e ∈ qm.nvmeQueues.entries) → Shrunk qm qm₁ →
      removeSqLoop remSqid items qm₁ = .ok qm' → Shrunk qm qm' := by
  intro items
  induction items with
  | nil => exact fun {qm₁ qm'} _ hqm h => Except.ok.inj h ▸ hqm
  | cons e items ih =>
      intro qm₁ qm' hsub hqm h
      obtain ⟨⟨sqid, cqid⟩, sq, cq⟩ := e
      have hrest : ∀ e ∈ items, e ∈ qm.nvmeQueues.entries :=
        fun e he => hsub e (List.mem_cons_of_mem _ he)
      rw [removeSqLoop] at h
      by_cases hq : sqid = remSqid
      · subst hq
        rw [if_pos rfl, if_neg h0] at h
        by_cases hin : sqid ∈ qm₁.ioSqids
        · rw [if_pos hin] at h
          refine ih hrest (hqm.set (fun hk => h0 (congrArg Prod.fst hk)) (hsub _ List.mem_cons_self)
            (fun _ hc => hc) fun _ hs => List.mem_of_mem_erase hs) h
        · rw [if_neg hin] at h
          exact absurd h (by simp)
      · rw [if_neg hq] at h
        exact ih hrest hqm h

theorem removeCqLoop_shrunk {remCqid : Nat} (h0 : remCqid ≠ 0) {qm : QueueMgr SQ CQ} :
    ∀ {items : List ((Nat × Nat) × (Option SQ × Option CQ))} {qm₁ qm' : QueueMgr SQ CQ},
      (∀ e ∈ items, e ∈ qm.nvmeQueues.entries) → Shrunk qm qm₁ →
      removeCqLoop remCqid items qm₁ = .ok qm' → Shrunk qm qm' := by
  intro items
  induction items with
  | nil => exact fun {qm₁ qm'} _ hqm h => Except.ok.inj h ▸ hqm
  | cons e items ih =>
      intro qm₁ qm' hsub hqm h
      obtain ⟨⟨sqid, cqid⟩, sq, cq⟩ := e
      have hrest : ∀ e ∈ items, e ∈ qm.nvmeQueues.entries :=
        fun e he => hsub e (List.mem_cons_of_mem _ he)
      rw [removeCqLoop.eq_def] at h
      dsimp only at h
      by_cases hq : cqid = remCqid
      · subst hq
        rw [if_pos rfl] at h
        cases sq with
        | some sq => exact absurd h (by simp)
        | none =>
            dsimp only at h
            rw [if_neg h0] at h
            by_cases hin : cqid ∈ qm₁.ioCqids
            · rw [if_pos hin] at h
              exact ih hrest (hqm.set (fun hk => h0 (congrArg Prod.snd hk))
                (hsub _ List.mem_cons_self) (fun _ hc => absurd hc (by simp)) fun _ hs => hs) h
            · rw [if_neg hin] at h
              exact absurd h (by simp)
      · rw [if_neg hq] at h
        exact ih hrest hqm h

theorem removeSq_shrunk {remSqid : Nat} (h0 : remSqid ≠ 0) (h : qm.removeSq remSqid = .ok qm') :
    Shrunk qm qm' := removeSqLoop_shrunk h0 (fun _ he => he) (Shrunk.refl qm) h

theorem removeCq_shrunk {remCqid : Nat} (h0 : remCqid ≠ 0) (h : qm.removeCq remCqid = .ok qm') :
    Shrunk qm qm' := by
  unfold removeCq at h
  obtain ⟨qm₁, hloop, h⟩ := bind_eq_ok h
  have hs := removeCqLoop_shrunk h0 (fun _ he => he) (Shrunk.refl qm) hloop
  rw [← Except.ok.inj h]
  refine ⟨fun e' he' => hs.entries e' (List.mem_filter.mp he').1, fun sq cq hadmin => ?_, hs.ioSqids⟩
  exact List.mem_filter.mpr ⟨hs.admin sq cq hadmin, rfl⟩

/-! ## Lookups -/

/-- A queue that `get` finds is in a pair, and under the id that was asked for. -/
theorem get_queue {sqid cqid : Option Nat} {sq : SQ} {cq : QueueRef CQ}
    (h : qm.get sqid cqid = .ok (.queue sq, cq)) :
    ∃ e ∈ qm.nvmeQueues.entries, e.2.1 = some sq ∧ cq = .ofOption e.2.2
      ∧ (∀ i, sqid = some i → e.1.1 = i) ∧ (sqid = none → cqid ≠ none) := by
  have hitem : ∀ e : (Nat × Nat) × (Option SQ × Option CQ),
      (QueueRef.ofOption e.2.1, QueueRef.ofOption e.2.2) = (QueueRef.queue sq, cq) →
      e.2.1 = some sq ∧ cq = .ofOption e.2.2 := by
    rintro ⟨k, osq, ocq⟩ he
    injection he with hsq hcq
    refine ⟨?_, hcq.symm⟩
    cases osq with
    | none => exact absurd hsq (by simp [QueueRef.ofOption])
    | some q => exact congrArg some (QueueRef.queue.inj hsq)
  unfold get at h
  split at h
  · -- both ids: the pair of that key
    rename_i s c
    split at h
    · rename_i osq ocq hget
      obtain ⟨hsq, hcq⟩ := hitem ((s, c), (osq, ocq)) (Except.ok.inj h)
      exact ⟨_, Dict.get?_eq_some_iff.mp hget, hsq, hcq, fun i hi => Option.some.inj hi,
        fun hn => absurd hn (by simp)⟩
    · exact absurd h (by simp)
  · -- one id: the first pair that has it
    rename_i s
    rcases qm.firstPair_spec fun k => k.1 == s with ⟨k, v, hm, hk, he⟩ | ⟨_, he⟩
    · obtain ⟨hsq, hcq⟩ := hitem (k, v) (by rw [← he]; exact Except.ok.inj h)
      exact ⟨_, hm, hsq, hcq, fun i hi => (eq_of_beq hk).trans (Option.some.inj hi),
        fun hn => absurd hn (by simp)⟩
    · rw [he] at h
      exact absurd (Except.ok.inj h) (by simp)
  · -- the other id: likewise
    rename_i c
    rcases qm.firstPair_spec fun k => k.2 == c with ⟨k, v, hm, hk, he⟩ | ⟨_, he⟩
    · obtain ⟨hsq, hcq⟩ := hitem (k, v) (by rw [← he]; exact Except.ok.inj h)
      exact ⟨_, hm, hsq, hcq, fun i hi => absurd hi (by simp), fun _ => by simp⟩
    · rw [he] at h
      exact absurd (Except.ok.inj h) (by simp)
  · split at h
    · exact absurd (Except.ok.inj h) (by simp)
    · exact absurd (Except.ok.inj h) (by simp)

end QueueMgr

end LoneNvme
