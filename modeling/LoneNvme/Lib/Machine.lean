import Mathlib.Logic.Relation

/-!
# Labelled machines and what holds along their runs

A machine is a set of starting states and a partial step function: `step s a` is
`none` where the label `a` cannot be taken. All nondeterminism (who moves, which
message, which argument) sits in the label, so a run is a list of labels and a
concrete run can be replayed by evaluation.

`ReachableBy ok` is reachability by steps that meet a condition `ok` on the state
*before* the step and its label. It serves theorems of the form "in every run
whose steps all meet `ok`"; `Reachable` is the case without a condition.
-/

namespace Lib

/-- Where a machine may start, and what a label does to a state. -/
structure Machine (σ : Type*) (α : Type*) where
  init : σ → Prop
  step : σ → α → Option σ

namespace Machine

variable {σ τ α β : Type*}

/-- Reachable through steps that all meet `ok`. -/
inductive ReachableBy (M : Machine σ α) (ok : σ → α → Prop) : σ → Prop where
  | init {s : σ} : M.init s → ReachableBy M ok s
  | tail {s t : σ} {a : α} : ReachableBy M ok s → ok s a → M.step s a = some t →
      ReachableBy M ok t

/-- Reachable through any steps. -/
def Reachable (M : Machine σ α) (s : σ) : Prop := M.ReachableBy (fun _ _ => True) s

theorem Reachable.start {M : Machine σ α} {s : σ} (h : M.init s) : M.Reachable s :=
  ReachableBy.init h

theorem Reachable.next {M : Machine σ α} {s t : σ} {a : α} (h : M.Reachable s)
    (hs : M.step s a = some t) : M.Reachable t :=
  ReachableBy.tail h trivial hs

/-- A condition on the steps only removes reachable states. -/
theorem ReachableBy.reachable {M : Machine σ α} {ok : σ → α → Prop} {s : σ}
    (h : M.ReachableBy ok s) : M.Reachable s := by
  induction h with
  | init h0 => exact Reachable.start h0
  | tail _ _ hs ih => exact ih.next hs

/--
**The invariant rule.** What holds at the start and is kept by every step (which
may use that its state was reached) holds in every reachable state.
-/
theorem ReachableBy.invariant {M : Machine σ α} {ok : σ → α → Prop} {I : σ → Prop}
    (h0 : ∀ s, M.init s → I s)
    (hs : ∀ s t a, M.ReachableBy ok s → I s → ok s a → M.step s a = some t → I t)
    {s : σ} (h : M.ReachableBy ok s) : I s := by
  induction h with
  | init hi => exact h0 _ hi
  | tail hr hok hst ih => exact hs _ _ _ hr ih hok hst

/-- The invariant rule for unconditional runs. -/
theorem Reachable.invariant {M : Machine σ α} {I : σ → Prop}
    (h0 : ∀ s, M.init s → I s)
    (hs : ∀ s t a, M.Reachable s → I s → M.step s a = some t → I t)
    {s : σ} (h : M.Reachable s) : I s :=
  ReachableBy.invariant h0 (fun s t a hr hi _ hst => hs s t a hr hi hst) h

/-- Replay a list of labels. -/
def run (M : Machine σ α) : σ → List α → Option σ
  | s, [] => some s
  | s, a :: as => (M.step s a).bind fun t => M.run t as

@[simp] theorem run_nil (M : Machine σ α) (s : σ) : M.run s [] = some s := rfl

theorem run_cons (M : Machine σ α) (s : σ) (a : α) (as : List α) :
    M.run s (a :: as) = (M.step s a).bind fun t => M.run t as := rfl

/-- A replayed run stays reachable. -/
theorem Reachable.run {M : Machine σ α} {s t : σ} (h : M.Reachable s) :
    ∀ (as : List α), M.run s as = some t → M.Reachable t := by
  intro as
  induction as generalizing s with
  | nil => intro hr; rw [run_nil] at hr; exact Option.some.inj hr ▸ h
  | cons a as ih =>
      intro hr
      rw [run_cons] at hr
      obtain ⟨u, hu, hr'⟩ := Option.bind_eq_some_iff.mp hr
      exact ih (h.next hu) hr'

/--
**What a run does to an observation**, where every step updates it by a function of its
label: the labels are folded over it. `I` is an invariant that the update may rest on.
-/
theorem run_observed {M : Machine σ α} {I : σ → Prop} {f : σ → β} {g : β → α → β}
    (hs : ∀ s t a, I s → M.step s a = some t → I t ∧ f t = g (f s) a) {s t : σ} (hi : I s) :
    ∀ (as : List α), M.run s as = some t → I t ∧ f t = as.foldl g (f s) := by
  intro as
  induction as generalizing s with
  | nil =>
      intro hr
      rw [← Option.some.inj hr]
      exact ⟨hi, rfl⟩
  | cons a as ih =>
      intro hr
      rw [run_cons] at hr
      obtain ⟨u, hu, hr'⟩ := Option.bind_eq_some_iff.mp hr
      obtain ⟨hiu, hfu⟩ := hs s u a hi hu
      rw [List.foldl_cons, ← hfu]
      exact ih hiu hr'

/-- The machine with other steps beside its own. -/
def withSteps (M : Machine σ α) (step : σ → β → Option σ) : Machine σ (α ⊕ β) where
  init := M.init
  step s
    | .inl a => M.step s a
    | .inr b => step s b

/-- **Steps that lead back to reachable states add none**: a restart, for one. -/
theorem ReachableBy.of_withSteps {M : Machine σ α} {step : σ → β → Option σ}
    {ok : σ → α ⊕ β → Prop}
    (hback : ∀ s t b, M.Reachable s → ok s (.inr b) → step s b = some t → M.Reachable t) {s : σ}
    (h : (M.withSteps step).ReachableBy ok s) : M.Reachable s := by
  refine @ReachableBy.invariant _ _ (M.withSteps step) ok M.Reachable
    (fun _ h0 => Reachable.start h0) ?_ _ h
  rintro s t (a | b) - hr hok hst
  · exact hr.next hst
  · exact hback s t b hr hok hst

/-- Replay a list of labels, checking the condition on every step. -/
def runBy (M : Machine σ α) (ok : σ → α → Prop) [∀ s a, Decidable (ok s a)] :
    σ → List α → Option σ
  | s, [] => some s
  | s, a :: as => if ok s a then (M.step s a).bind fun t => M.runBy ok t as else none

/-- A replayed run whose steps met the condition stays reachable by such steps. -/
theorem ReachableBy.run {M : Machine σ α} {ok : σ → α → Prop} [∀ s a, Decidable (ok s a)]
    {s t : σ} (h : M.ReachableBy ok s) :
    ∀ (as : List α), M.runBy ok s as = some t → M.ReachableBy ok t := by
  intro as
  induction as generalizing s with
  | nil => intro hr; exact Option.some.inj hr ▸ h
  | cons a as ih =>
      intro hr
      obtain ⟨hok, hr⟩ := Option.ite_none_right_eq_some.mp hr
      obtain ⟨u, hu, hr'⟩ := Option.bind_eq_some_iff.mp hr
      exact ih (h.tail hok hu) hr'

/--
**Forward simulation by a function.** If every step of `M` is a step of `N` under
`f`, or changes nothing `f` sees, then `f` maps reachable states to reachable ones.
-/
theorem Reachable.simulates {M : Machine σ α} {N : Machine τ β} (f : σ → τ)
    (h0 : ∀ s, M.init s → N.init (f s))
    (hs : ∀ s t a, M.Reachable s → M.step s a = some t →
      f t = f s ∨ ∃ b, N.step (f s) b = some (f t))
    {s : σ} (h : M.Reachable s) : N.Reachable (f s) := by
  refine Reachable.invariant (I := fun s => N.Reachable (f s)) ?_ ?_ h
  · intro s hi
    exact Reachable.start (h0 s hi)
  · intro s t a hr ih hst
    rcases hs s t a hr hst with he | ⟨b, hb⟩
    · rw [he]; exact ih
    · exact ih.next hb

/-! ### Two machines in step -/

variable {M : Machine σ α} {N : Machine τ α} {R : σ → τ → Prop}

/--
From related states the two machines take the same labels, to related states. So they
also refuse the same labels.
-/
def InStep (M : Machine σ α) (N : Machine τ α) (R : σ → τ → Prop) : Prop :=
  ∀ s t a, R s t → Option.Rel R (M.step s a) (N.step t a)

/-- **Machines in step run together**: one gets through a list of labels if the other does. -/
theorem InStep.run (h : InStep M N R) {s : σ} {t : τ} (hr : R s t) (as : List α) :
    Option.Rel R (M.run s as) (N.run t as) := by
  induction as generalizing s t with
  | nil => exact Option.Rel.some hr
  | cons a as ih =>
      rw [run_cons, run_cons]
      have hstep := h s t a hr
      revert hstep
      cases M.step s a <;> cases N.step t a <;> intro hstep <;> cases hstep
      · exact Option.Rel.none
      · rename_i hr'
        exact ih hr'

/-- Whatever the one machine reaches stands for something the other reaches. -/
theorem InStep.reachable (h : InStep M N R) (h0 : ∀ s, M.init s → ∃ t, N.init t ∧ R s t) {s : σ}
    (hs : M.Reachable s) : ∃ t, N.Reachable t ∧ R s t := by
  refine Reachable.invariant (I := fun s => ∃ t, N.Reachable t ∧ R s t) ?_ ?_ hs
  · intro s hi
    obtain ⟨t, ht, hr⟩ := h0 s hi
    exact ⟨t, Reachable.start ht, hr⟩
  · intro s s' a _ ih hst
    obtain ⟨t, ht, hr⟩ := ih
    have hstep := h s t a hr
    rw [hst] at hstep
    cases hn : N.step t a with
    | none => rw [hn] at hstep; cases hstep
    | some t' =>
        rw [hn] at hstep
        cases hstep with
        | some hr' => exact ⟨t', ht.next hn, hr'⟩

end Machine

end Lib
