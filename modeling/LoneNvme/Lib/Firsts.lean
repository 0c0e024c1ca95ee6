import Mathlib.Data.List.Induction
import Mathlib.Data.List.Nodup
import Mathlib.Data.List.Perm.Subperm

/-!
# First occurrences

`eraseDups` keeps each element of a list where it comes first. A set has the same elements
in an order of its own. What is made of them has the same elements then, but it keeps its
order only where there is nothing to order.
-/

namespace Lib

variable {α β : Type*} {xs : List α}

section

variable [DecidableEq α]

/-- A further element counts if it is new. -/
theorem eraseDups_concat (xs : List α) (x : α) :
    (xs ++ [x]).eraseDups = if x ∈ xs then xs.eraseDups else xs.eraseDups ++ [x] := by
  rw [List.eraseDups_append]
  by_cases hx : x ∈ xs
  · rw [if_pos hx]
    simp [List.removeAll, hx]
  · rw [if_neg hx]
    simp [List.removeAll, hx, List.eraseDups_cons]

theorem nodup_eraseDups (xs : List α) : xs.eraseDups.Nodup := by
  induction xs using List.reverseRecOn with
  | nil => exact List.nodup_nil
  | append_singleton xs x ih =>
      rw [eraseDups_concat]
      by_cases hx : x ∈ xs
      · rw [if_pos hx]
        exact ih
      · rw [if_neg hx]
        rw [← List.concat_eq_append]
        exact ih.concat fun h => hx (List.mem_eraseDups.mp h)

/-- Lists with the same elements have the same first occurrences, in some order. -/
theorem eraseDups_perm {ys : List α} (h : ∀ x, x ∈ xs ↔ x ∈ ys) :
    xs.eraseDups.Perm ys.eraseDups := by
  refine (List.perm_ext_iff_of_nodup (nodup_eraseDups xs) (nodup_eraseDups ys)).mpr fun x => ?_
  rw [List.mem_eraseDups, List.mem_eraseDups]
  exact h x

/-- One element, and repetitions of it. -/
theorem eraseDups_of_forall_eq {x : α} (h : ∀ y ∈ xs, y = x) : (x :: xs).eraseDups = [x] := by
  have hnone : (xs.filter fun y => !y == x) = [] := by
    refine List.filter_eq_nil_iff.mpr fun y hy => ?_
    simp [h y hy]
  rw [List.eraseDups_cons, hnone]
  rfl

end

/-- What is made of repetitions repeats itself. -/
theorem nodup_of_filterMap {f : α → Option β} (hf : ∀ x ∈ xs, (f x).isSome)
    (h : (xs.filterMap f).Nodup) : xs.Nodup := by
  refine (List.pairwise_filterMap.mp h).imp_of_mem fun {x y} hx _ hne he => ?_
  obtain ⟨a, ha⟩ := Option.isSome_iff_exists.mp (hf x hx)
  exact hne a ha a (he ▸ ha) rfl

/-! ## Sets -/

/-- `ys` goes through the set of the elements of `xs`. -/
structure Enumerates (ys xs : List α) : Prop where
  nodup : ys.Nodup
  mem_iff : ∀ x, x ∈ ys ↔ x ∈ xs

namespace Enumerates

variable {ys : List α}

/-- Without repetitions the list is one order of the set. -/
theorem perm_of_nodup (h : Enumerates ys xs) (hxs : xs.Nodup) : ys.Perm xs :=
  (List.perm_ext_iff_of_nodup h.nodup hxs).mpr h.mem_iff

/-- Nothing is lost on the way exactly if the list has no repetitions. -/
theorem length_eq_iff (h : Enumerates ys xs) : xs.length = ys.length ↔ xs.Nodup := by
  constructor
  · intro hlen
    have hsub : ys.Subperm xs := h.nodup.subperm fun x hx => (h.mem_iff x).mp hx
    exact (hsub.perm_of_length_le (Nat.le_of_eq hlen)).nodup h.nodup
  · intro hxs
    exact (h.perm_of_nodup hxs).length_eq.symm

/-- In the order of their first occurrence. -/
theorem eraseDups [DecidableEq α] (xs : List α) : Enumerates xs.eraseDups xs :=
  ⟨nodup_eraseDups xs, fun _ => List.mem_eraseDups⟩

/-- Any element may come first. -/
theorem cons_erase [DecidableEq α] {x : α} (hx : x ∈ xs) : Enumerates (x :: xs.eraseDups.erase x) xs where
  nodup := by
    rw [List.nodup_cons, (nodup_eraseDups xs).mem_erase_iff]
    exact ⟨fun h => h.1 rfl, (nodup_eraseDups xs).erase x⟩
  mem_iff y := by
    rw [List.mem_cons, (nodup_eraseDups xs).mem_erase_iff, List.mem_eraseDups]
    constructor
    · rintro (rfl | ⟨_, hy⟩)
      · exact hx
      · exact hy
    · intro hy
      by_cases hyx : y = x
      · exact Or.inl hyx
      · exact Or.inr ⟨hyx, hy⟩

/-- What is made of the elements in whichever order. -/
theorem filterMap_perm [DecidableEq β] (h : Enumerates ys xs) (f : α → Option β) :
    (ys.filterMap f).eraseDups.Perm (xs.filterMap f).eraseDups := by
  refine eraseDups_perm fun b => ?_
  rw [List.mem_filterMap, List.mem_filterMap]
  exact exists_congr fun a => and_congr_left fun _ => h.mem_iff a

end Enumerates

/-- **Every order makes the same** of the elements exactly if it makes one thing of them all. -/
theorem forall_enumerates_iff [DecidableEq α] [DecidableEq β] {f : α → Option β}
    (hf : ∀ x ∈ xs, (f x).isSome) :
    (∀ ys, Enumerates ys xs → (ys.filterMap f).eraseDups = (xs.filterMap f).eraseDups)
      ↔ ∀ x ∈ xs, ∀ y ∈ xs, f x = f y := by
  constructor
  · intro h x hx y hy
    obtain ⟨a, ha⟩ := Option.isSome_iff_exists.mp (hf x hx)
    obtain ⟨b, hb⟩ := Option.isSome_iff_exists.mp (hf y hy)
    -- let either of them come first
    have hsame := (h _ (Enumerates.cons_erase hx)).trans (h _ (Enumerates.cons_erase hy)).symm
    rw [List.filterMap_cons_some ha, List.filterMap_cons_some hb, List.eraseDups_cons,
      List.eraseDups_cons] at hsame
    rw [ha, hb, (List.cons.inj hsame).1]
  · intro h ys hys
    have hperm := hys.filterMap_perm f
    cases xs with
    | nil => exact hperm.eq_nil
    | cons x xs =>
        obtain ⟨a, ha⟩ := Option.isSome_iff_exists.mp (hf x List.mem_cons_self)
        have hall : ∀ b ∈ xs.filterMap f, b = a := by
          intro b hb
          obtain ⟨y, hy, hfy⟩ := List.mem_filterMap.mp hb
          have hxy := h x List.mem_cons_self y (List.mem_cons_of_mem x hy)
          exact Option.some.inj (hfy.symm.trans (hxy.symm.trans ha))
        rw [List.filterMap_cons_some ha, eraseDups_of_forall_eq hall] at hperm ⊢
        exact List.perm_singleton.mp hperm

/-- How a program goes through its sets: some order for each. -/
structure SetOrder (α : Type*) where
  toList : List α → List α
  enumerates : ∀ xs, Enumerates (toList xs) xs

namespace SetOrder

/-- The order `ys` for the elements of `xs`, and any for the others. -/
def ofEnumerates [DecidableEq α] {ys : List α} (h : Enumerates ys xs) : SetOrder α where
  toList zs := if zs = xs then ys else zs.eraseDups
  enumerates zs := by
    split
    · rename_i hzs
      rw [hzs]
      exact h
    · exact Enumerates.eraseDups zs

@[simp] theorem ofEnumerates_toList [DecidableEq α] {ys : List α} (h : Enumerates ys xs) :
    (ofEnumerates h).toList xs = ys := if_pos rfl

end SetOrder

end Lib
