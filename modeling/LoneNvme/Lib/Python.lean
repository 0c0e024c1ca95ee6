import Mathlib.Data.List.Basic
import Mathlib.Algebra.Group.Nat.Defs
import Mathlib.Algebra.Order.Group.Int

/-!
# The pieces of Python a model needs

Exceptions carry the class and, where the program gives one, the message. Slices
follow the language: a negative bound counts from the end, and a bound outside the
sequence is clipped to it.

A call that raises leaves the state it had reached. So there are two kinds of code: in `Except`
where nothing is changed before the exception or nobody looks at the state afterwards, and in
`EStateM` where someone does. `Leaves` is for the second kind: what a call leaves however it
ends.
-/

namespace Lib

/-- The built-in exceptions a modelled program can raise. -/
inductive Exc where
  | assertionError (msg : String)
  | keyError (msg : String)
  | valueError (msg : String)
  | indexError (msg : String)
  | attributeError (msg : String)
  | unboundLocalError (msg : String)
  | memoryError (msg : String)
  | zeroDivisionError (msg : String)
  /-- An exception class the program defines itself. -/
  | custom (cls msg : String)
  deriving DecidableEq, Repr

/-- Python's `assert cond, msg`. -/
def assertThat (cond : Bool) (msg : String) : Except Exc Unit :=
  if cond then .ok () else .error (.assertionError msg)

@[simp] theorem assertThat_true (msg : String) : assertThat true msg = .ok () := rfl

@[simp] theorem assertThat_false (msg : String) :
    assertThat false msg = .error (.assertionError msg) := rfl

theorem assertThat_eq_ok {cond : Bool} {msg : String} {u : Unit} (h : assertThat cond msg = .ok u) :
    cond = true := by
  cases cond with
  | true => rfl
  | false => exact absurd h (by simp)

@[simp] theorem ok_bind.{u, v} {ε : Type u} {α β : Type v} (a : α) (k : α → Except ε β) :
    (.ok a >>= k : Except ε β) = k a := rfl

@[simp] theorem error_bind.{u, v} {ε : Type u} {α β : Type v} (e : ε) (k : α → Except ε β) :
    (.error e >>= k : Except ε β) = .error e := rfl

/-- A computation that succeeds did so step by step. -/
theorem bind_eq_ok.{u, v} {ε : Type u} {α β : Type v} {x : Except ε α} {k : α → Except ε β} {b : β}
    (h : (x >>= k) = .ok b) : ∃ a, x = .ok a ∧ k a = .ok b := by
  cases x with
  | ok a => exact ⟨a, rfl, h⟩
  | error e => exact absurd h (by simp [bind, Except.bind])

theorem bind_eq_ok_iff.{u, v} {ε : Type u} {α β : Type v} {x : Except ε α} {k : α → Except ε β}
    {b : β} : (x >>= k) = .ok b ↔ ∃ a, x = .ok a ∧ k a = .ok b := by
  refine ⟨bind_eq_ok, ?_⟩
  rintro ⟨a, rfl, hk⟩
  exact hk

/-- The same where it may also run out of fuel. -/
theorem bind_eq_some_ok.{u} {ε α β : Type u} {x : ExceptT ε Option α} {k : α → ExceptT ε Option β}
    {b : β} (h : (x >>= k) = some (.ok b)) : ∃ a, x = some (.ok a) ∧ k a = some (.ok b) := by
  match x with
  | some (.ok a) => exact ⟨a, rfl, h⟩
  | some (.error e) => exact absurd (Option.some.inj h) (by simp)
  | none => exact absurd (show none = _ from h) (by simp)

/-! An exception leaves the state as far as the computation got, which is what `EStateM` keeps. -/

theorem run_bind_ok.{u} {ε σ α β : Type u} {x : EStateM ε σ α} {k : α → EStateM ε σ β} {s s' : σ}
    {a : α} (h : x s = .ok a s') : (x >>= k) s = k a s' := by
  show EStateM.bind x k s = _
  unfold EStateM.bind
  rw [h]

theorem run_bind_error.{u} {ε σ α β : Type u} {x : EStateM ε σ α} {k : α → EStateM ε σ β} {s s' : σ}
    {e : ε} (h : x s = .error e s') : (x >>= k) s = .error e s' := by
  show EStateM.bind x k s = _
  unfold EStateM.bind
  rw [h]

theorem run_get_bind.{u} {ε σ α : Type u} {k : σ → EStateM ε σ α} {s : σ} :
    (get >>= k) s = k s s := rfl

theorem run_modify_bind.{u} {ε σ α : Type u} {f : σ → σ} {k : PUnit → EStateM ε σ α} {s : σ} :
    (modify f >>= k) s = k PUnit.unit (f s) := rfl

theorem run_bind_eq_ok.{u} {ε σ α β : Type u} {x : EStateM ε σ α} {k : α → EStateM ε σ β} {s s' : σ}
    {b : β} : (x >>= k) s = .ok b s' ↔ ∃ a s₁, x s = .ok a s₁ ∧ k a s₁ = .ok b s' := by
  show EStateM.bind x k s = _ ↔ _
  unfold EStateM.bind
  cases x s with
  | ok a s₁ =>
      refine ⟨fun h => ⟨a, s₁, rfl, h⟩, ?_⟩
      rintro ⟨a', s₁', h, hk⟩
      cases h
      exact hk
  | error e s₁ => exact ⟨fun h => (nomatch h), fun ⟨_, _, h, _⟩ => (nomatch h)⟩

/-- **A counted loop**: each turn keeps the invariant, so the loop ends and has kept it. -/
theorem foldlM_range_ok.{u} {ε σ : Type u} {f : σ → Nat → Except ε σ} {I : Nat → σ → Prop} {n : Nat}
    {s : σ} (h : I 0 s)
    (hturn : ∀ i s, i < n → I i s → ∃ s', f s i = .ok s' ∧ I (i + 1) s') :
    ∃ s', (List.range n).foldlM f s = .ok s' ∧ I n s' := by
  induction n with
  | zero => exact ⟨s, rfl, h⟩
  | succ n ih =>
      obtain ⟨s₁, hrun, h₁⟩ := ih fun i s hi => hturn i s (Nat.lt_succ_of_lt hi)
      obtain ⟨s₂, hlast, h₂⟩ := hturn n s₁ (Nat.lt_succ_self n) h₁
      refine ⟨s₂, ?_, h₂⟩
      rw [List.range_succ, List.foldlM_append, hrun, ok_bind, List.foldlM_cons, hlast]
      rfl

/-- However the call ends, `R` holds between the state before it and the one it leaves. -/
def Leaves.{u} {ε σ α : Type u} (R : σ → σ → Prop) (x : EStateM ε σ α) : Prop :=
  ∀ s, (∀ a s', x s = .ok a s' → R s s') ∧ ∀ e s', x s = .error e s' → R s s'

theorem Leaves.bind.{u} {ε σ α β : Type u} {R : σ → σ → Prop} {x : EStateM ε σ α}
    {k : α → EStateM ε σ β} (htrans : ∀ {s s' s''}, R s s' → R s' s'' → R s s'') (hx : Leaves R x)
    (hk : ∀ a, Leaves R (k a)) : Leaves R (x >>= k) := by
  intro s
  cases h : x s with
  | ok a s₁ =>
      rw [run_bind_ok h]
      have hfirst := (hx s).1 a s₁ h
      exact ⟨fun b s' hb => htrans hfirst ((hk a s₁).1 b s' hb),
        fun e s' he => htrans hfirst ((hk a s₁).2 e s' he)⟩
  | error e s₁ =>
      rw [run_bind_error h]
      refine ⟨fun b s' hb => (nomatch hb), fun e' s' he => ?_⟩
      cases he
      exact (hx s).2 e s₁ h

theorem toOption_eq_some {ε α : Type*} {x : Except ε α} {a : α} (h : x.toOption = some a) :
    x = .ok a := by
  cases x with
  | ok b => exact congrArg Except.ok (Option.some.inj h)
  | error e => exact absurd h (by simp [Except.toOption])

/-- Python's `bin`, as characters. -/
def bin (x : Int) : List Char :=
  (if x < 0 then ['-'] else []) ++ ['0', 'b'] ++ Nat.toDigits 2 x.natAbs

/-- The digits behind the prefix count the bits. -/
theorem length_drop_bin {x n : Nat} (hn : 0 < n) :
    ((bin x).drop 2).length ≤ n ↔ x < 2 ^ n := by
  have hdigits : (bin x).drop 2 = Nat.toDigits 2 x := by
    unfold bin
    rw [if_neg (by omega), Int.natAbs_natCast]
    rfl
  rw [hdigits, Nat.length_toDigits_le_iff (by decide) hn]

/-! ## Indices and slices -/

/-- The position that `xs[i]` stands for in a list of length `len`, if there is one. -/
def indexPosition (len : Nat) (i : Int) : Option Nat :=
  if 0 ≤ i then
    if i < len then some i.toNat else none
  else if 0 ≤ i + len then
    some (i + len).toNat
  else
    none

theorem indexPosition_lt {len k : Nat} {i : Int} (h : indexPosition len i = some k) : k < len := by
  unfold indexPosition at h
  by_cases hi : 0 ≤ i
  · rw [if_pos hi] at h
    obtain ⟨hlt, hk⟩ := Option.ite_none_right_eq_some.mp h
    have := Option.some.inj hk
    omega
  · rw [if_neg hi] at h
    obtain ⟨hge, hk⟩ := Option.ite_none_right_eq_some.mp h
    have := Option.some.inj hk
    omega

/-- An index that does not count from the end stands for itself. -/
theorem indexPosition_eq_some_iff {len k : Nat} {i : Int} (hi : 0 ≤ i) :
    indexPosition len i = some k ↔ i = k ∧ k < len := by
  unfold indexPosition
  rw [if_pos hi]
  constructor
  · intro h
    obtain ⟨hlt, hk⟩ := Option.ite_none_right_eq_some.mp h
    have := Option.some.inj hk
    omega
  · rintro ⟨rfl, hk⟩
    rw [if_pos (by omega), Int.toNat_natCast]

namespace Slice

/-- A slice bound of a sequence of length `len`, as the language clips it. -/
def bound (len : Nat) (i : Int) : Nat :=
  if i < 0 then (len + i).toNat else min i.toNat len

/-- `xs[start:stop]`. -/
def get {α : Type*} (xs : List α) (start stop : Int) : List α :=
  (xs.take (bound xs.length stop)).drop (bound xs.length start)

theorem bound_le (len : Nat) (i : Int) : bound len i ≤ len := by
  unfold bound; split <;> omega

theorem bound_natCast {len i : Nat} (h : i ≤ len) : bound len (i : Int) = i := by
  unfold bound; rw [if_neg (by omega)]; omega

theorem length_get {α : Type*} (xs : List α) (start stop : Int) :
    (get xs start stop).length = bound xs.length stop - bound xs.length start := by
  have := bound_le xs.length stop
  rw [get, List.length_drop, List.length_take]
  omega

/-- A slice with both bounds inside the sequence. -/
theorem get_natCast {α : Type*} (xs : List α) {i j : Nat} (hij : i ≤ j) (hj : j ≤ xs.length) :
    get xs (i : Int) (j : Int) = (xs.drop i).take (j - i) := by
  rw [get, bound_natCast (Nat.le_trans hij hj), bound_natCast hj, List.drop_take]

end Slice

end Lib
