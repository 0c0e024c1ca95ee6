import Mathlib.Data.List.Basic
import Mathlib.Data.List.Perm.Basic

/-!
# A loop over the list it removes from

`for x in xs: visit(x); xs.remove(x)`. The iterator is a position in the list, and
removing an element moves the later ones down by one, so every visit skips the element
behind the visited one. What is visited is every other element, what is left is the
rest, and nothing is left only of a list of at most one element.
-/

namespace Lib

universe u v

variable {α σ : Type u} {ε : Type v}

/-- Every other element, the first one included. -/
def everyOther : List α → List α
  | [] => []
  | [x] => [x]
  | x :: _ :: xs => x :: everyOther xs

theorem everyOther_sublist : ∀ {xs : List α}, (everyOther xs).Sublist xs := by
  intro xs
  induction xs using everyOther.induct with
  | case1 => exact List.Sublist.refl _
  | case2 x => exact List.Sublist.refl _
  | case3 x y xs ih => exact List.Sublist.cons_cons x (List.Sublist.cons y ih)

variable [DecidableEq α]

theorem length_erase_getElem {xs : List α} {i : Nat} (h : i < xs.length) :
    (xs.erase xs[i]).length = xs.length - 1 :=
  List.length_erase_of_mem (List.getElem_mem h)

/-- What the loop visits and what it leaves, its iterator being at position `i`. -/
def sweep (xs : List α) (i : Nat) : List α × List α :=
  if h : i < xs.length then
    let rest := sweep (xs.erase xs[i]) (i + 1)
    (xs[i] :: rest.1, rest.2)
  else
    ([], xs)
termination_by xs.length - i
decreasing_by
  rw [length_erase_getElem h]
  omega

theorem sweep_done {xs : List α} {i : Nat} (h : ¬ i < xs.length) : sweep xs i = ([], xs) := by
  rw [sweep, dif_neg h]

theorem sweep_next {xs : List α} {i : Nat} (h : i < xs.length) :
    sweep xs i = (xs[i] :: (sweep (xs.erase xs[i]) (i + 1)).1,
      (sweep (xs.erase xs[i]) (i + 1)).2) := by
  rw [sweep, dif_pos h]

/-- Removing the element at the iterator leaves behind it what was two places behind it. -/
theorem drop_erase_getElem {xs : List α} {i : Nat} (h : i < xs.length) :
    (xs.erase xs[i]).drop (i + 1) = xs.drop (i + 2) := by
  obtain ⟨before, after, hnot, hxs, herase⟩ := List.exists_erase_eq (List.getElem_mem h)
  -- what is removed is the first element equal to it, so it stands at the iterator or before
  have hle : before.length ≤ i := by
    by_contra hlt
    have hget : xs[i]? = before[i]? := by
      rw [hxs, List.getElem?_append_left (by omega)]
    exact hnot (List.mem_of_getElem? (hget ▸ List.getElem?_eq_getElem h))
  have hdrop : ∀ ys : List α, xs = before ++ ys → ∀ k, before.length ≤ k →
      xs.drop k = ys.drop (k - before.length) := by
    intro ys hys k hk
    rw [hys, List.drop_append, List.drop_eq_nil_of_le hk, List.nil_append]
  have hsucc : i + 2 - before.length = i + 1 - before.length + 1 := by omega
  rw [hdrop _ hxs (i + 2) (by omega), hsucc, List.drop_succ_cons, herase, List.drop_append,
    List.drop_eq_nil_of_le (by omega), List.nil_append]

/-- **What is visited**: every other element from the iterator on. -/
theorem sweep_visited {xs : List α} {i : Nat} : (sweep xs i).1 = everyOther (xs.drop i) := by
  induction xs, i using sweep.induct with
  | case1 xs i h ih =>
      have hbehind : xs.drop (i + 2) = (xs.drop (i + 1)).drop 1 := by rw [List.drop_drop]
      rw [sweep_next h, ih, drop_erase_getElem h]
      cases hrest : xs.drop (i + 1) with
      | nil =>
          have hlast : xs.drop (i + 2) = [] := by rw [hbehind, hrest, List.drop_nil]
          rw [List.drop_eq_getElem_cons h, hrest, hlast]
          rfl
      | cons y ys =>
          have htail : xs.drop (i + 2) = ys := by
            rw [hbehind, hrest]
            rfl
          rw [List.drop_eq_getElem_cons h, hrest, htail]
          rfl
  | case2 xs i h =>
      rw [sweep_done h, List.drop_eq_nil_of_le (Nat.le_of_not_lt h)]
      rfl

/-- Nothing is lost: every element is visited or left. -/
theorem sweep_perm {xs : List α} {i : Nat} : ((sweep xs i).1 ++ (sweep xs i).2).Perm xs := by
  induction xs, i using sweep.induct with
  | case1 xs i h ih =>
      rw [sweep_next h, List.cons_append]
      exact (List.Perm.cons _ ih).trans (List.perm_cons_erase (List.getElem_mem h)).symm
  | case2 xs i h =>
      rw [sweep_done h]
      exact List.Perm.refl _

theorem length_sweep_left {xs : List α} {i : Nat} (hi : i ≤ xs.length) :
    (sweep xs i).2.length = i + (xs.length - i) / 2 := by
  induction xs, i using sweep.induct with
  | case1 xs i h ih =>
      have hlen := length_erase_getElem h
      rw [sweep_next h]
      dsimp only
      by_cases hlast : i + 1 ≤ (xs.erase xs[i]).length
      · rw [ih hlast, hlen]
        omega
      · rw [sweep_done (by omega), hlen]
        omega
  | case2 xs i h =>
      rw [sweep_done h]
      dsimp only
      omega

/-- **Nothing is left** only of a list of at most one element. -/
theorem sweep_left_eq_nil {xs : List α} : (sweep xs 0).2 = [] ↔ xs.length ≤ 1 := by
  rw [← List.length_eq_zero_iff, length_sweep_left (Nat.zero_le _)]
  omega

/-- **Everything is visited** only in a list of at most one element. -/
theorem sweep_visited_perm {xs : List α} : (sweep xs 0).1.Perm xs ↔ xs.length ≤ 1 := by
  have hlen := (@sweep_perm α _ xs 0).length_eq
  rw [List.length_append] at hlen
  constructor
  · intro h
    rw [← sweep_left_eq_nil, ← List.length_eq_zero_iff]
    have := h.length_eq
    omega
  · intro h
    have hall := @sweep_perm α _ xs 0
    rw [sweep_left_eq_nil.mpr h, List.append_nil] at hall
    exact hall

/-- The loop itself, a visit changing a state or raising. -/
def forRemoving (visit : σ → α → Except ε σ) (s : σ) (xs : List α) (i : Nat) :
    Except ε (σ × List α) :=
  if h : i < xs.length then do
    let s ← visit s xs[i]
    forRemoving visit s (xs.erase xs[i]) (i + 1)
  else
    .ok (s, xs)
termination_by xs.length - i
decreasing_by
  rw [length_erase_getElem h]
  omega

/-- **The loop is a fold** over what it visits. -/
theorem forRemoving_eq {visit : σ → α → Except ε σ} {xs : List α} {i : Nat} {s : σ} :
    forRemoving visit s xs i
      = ((sweep xs i).1.foldlM visit s).map fun s => (s, (sweep xs i).2) := by
  induction xs, i using sweep.induct generalizing s with
  | case1 xs i h ih =>
      rw [forRemoving, dif_pos h, sweep_next h]
      show (visit s xs[i]).bind _ = ((visit s xs[i]).bind _).map _
      cases visit s xs[i] with
      | error e => rfl
      | ok s => exact ih
  | case2 xs i h =>
      rw [forRemoving, dif_neg h, sweep_done h]
      rfl

end Lib
