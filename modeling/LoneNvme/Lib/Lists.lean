import Mathlib.Data.List.Infix
import Mathlib.Algebra.BigOperators.Group.Finset.Piecewise

/-!
# Lists that grow at the end, and lists sorted into classes
-/

namespace Lib

variable {α : Type*}

/-- A prefix followed by the next element of the longer list is a prefix. -/
theorem prefix_snoc {xs ys : List α} (h : xs <+: ys) {y : α} (hy : ys[xs.length]? = some y) :
    xs ++ [y] <+: ys := by
  obtain ⟨hlt, rfl⟩ := List.getElem?_eq_some_iff.mp hy
  exact List.concat_get_prefix h hlt

/-- Without repetitions, filtering the first element out leaves the rest. -/
theorem filter_ne_head [DecidableEq α] {x : α} {xs : List α} (h : (x :: xs).Nodup) :
    ((x :: xs).filter fun y => y ≠ x) = xs := by
  rw [List.filter_cons_of_neg (by simp), List.filter_eq_self]
  intro y hy
  have hne : y ≠ x := fun he => (List.nodup_cons.mp h).1 (he ▸ hy)
  simpa using hne

/-- With distinct keys every entry is found under its key. -/
theorem lookup_of_mem {β : Type*} [BEq α] [LawfulBEq α] {l : List (α × β)}
    (hkeys : (l.map Prod.fst).Nodup) {r : α × β} (hr : r ∈ l) : l.lookup r.1 = some r.2 := by
  induction l with
  | nil => exact absurd hr (by simp)
  | cons s l ih =>
      rw [List.map_cons, List.nodup_cons] at hkeys
      rcases List.mem_cons.mp hr with rfl | hr
      · rw [List.lookup_cons, beq_self_eq_true]
      · have hne : (r.1 == s.1) = false :=
          beq_false_of_ne fun he => hkeys.1 (List.mem_map.mpr ⟨r, hr, he⟩)
        rw [List.lookup_cons, hne]
        exact ih hkeys.2 hr

/-- A list is as long as its classes together. -/
theorem length_eq_sum_filter {β : Type*} [DecidableEq β] (f : α → β) {s : Finset β} :
    ∀ {xs : List α}, (∀ x ∈ xs, f x ∈ s) →
      xs.length = ∑ b ∈ s, (xs.filter fun x => f x = b).length := by
  intro xs
  induction xs with
  | nil => intro _; simp
  | cons x xs ih =>
      intro h
      have hx : f x ∈ s := h x List.mem_cons_self
      have hxs := ih fun y hy => h y (List.mem_cons_of_mem _ hy)
      have hcons : ∀ b, ((x :: xs).filter fun y => f y = b).length
          = (xs.filter fun y => f y = b).length + if f x = b then 1 else 0 := by
        intro b
        by_cases hb : f x = b
        · rw [List.filter_cons_of_pos (by simpa using hb), List.length_cons, if_pos hb]
        · rw [List.filter_cons_of_neg (by simpa using hb), if_neg hb, Nat.add_zero]
      rw [List.length_cons, hxs, Finset.sum_congr rfl fun b _ => hcons b, Finset.sum_add_distrib,
        Finset.sum_ite_eq, if_pos hx]

end Lib
