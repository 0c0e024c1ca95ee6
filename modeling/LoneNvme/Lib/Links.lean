import Mathlib.Data.Finset.Card
import Mathlib.Dynamics.PeriodicPts.Defs

/-!
# Following links

`f` leads from each place to the next, and the null `z` leads to itself. Over finitely many
places the null is met exactly if no other place is met twice.

`ends_iff` is that statement. Its hard half is a count: a walk that visits no place twice cannot
go on for longer than there are places. `Path` is the walk as a list, for the lists that a
device keeps in memory and that are followed until a null pointer.
-/

namespace Lib.Links

variable {α : Type*} {f : α → α} {z a : α}

/-- The null is met. -/
def Ends (f : α → α) (z a : α) : Prop := ∃ n, f^[n] a = z

/-- No place but the null is met twice. -/
def NoReturn (f : α → α) (z a : α) : Prop := ∀ i j, i < j → f^[i] a = f^[j] a → f^[i] a = z

/-- The places from `a` on, up to the null. -/
inductive Path (f : α → α) (z : α) : α → List α → Prop where
  | nil : Path f z z []
  | cons {a : α} {rest : List α} : a ≠ z → Path f z (f a) rest → Path f z a (a :: rest)

/-- Once at the null, always there. -/
theorem stays (hz : f z = z) {n m : Nat} (h : f^[n] a = z) (hle : n ≤ m) : f^[m] a = z := by
  obtain ⟨k, rfl⟩ := Nat.exists_eq_add_of_le' hle
  rw [Function.iterate_add_apply, h]
  exact Function.iterate_fixed hz k

theorem noReturn_of_ends (hz : f z = z) (h : Ends f z a) : NoReturn f z a := by
  obtain ⟨n, hn⟩ := h
  intro i j hlt hsame
  -- the way from `i` back to `i`, walked `n` times, is long enough to meet the null
  have hback : Function.IsPeriodicPt f (j - i) (f^[i] a) := by
    show f^[j - i] (f^[i] a) = f^[i] a
    rw [← Function.iterate_add_apply, Nat.sub_add_cancel hlt.le, hsame]
  have hround : f^[(j - i) * n] (f^[i] a) = f^[i] a := hback.mul_const n
  have hlong : n ≤ (j - i) * n + i := Nat.le_add_right_of_le (Nat.le_mul_of_pos_left n (by omega))
  rw [← hround, ← Function.iterate_add_apply]
  exact stays hz hn hlong

/-- Without a return the null is met after as many links as there are places. -/
theorem ends_of_noReturn {s : Finset α} (hs : ∀ n, f^[n] a ∈ s) (h : NoReturn f z a) :
    ∃ n, n ≤ s.card ∧ f^[n] a = z := by
  have hcard : s.card < (Finset.range (s.card + 1)).card := by
    rw [Finset.card_range]
    exact Nat.lt_succ_self _
  obtain ⟨i, hi, j, hj, hne, hsame⟩ :=
    Finset.exists_ne_map_eq_of_card_lt_of_maps_to hcard fun n _ => hs n
  rw [Finset.mem_range] at hi hj
  rcases Nat.lt_or_gt_of_ne hne with hlt | hgt
  · exact ⟨i, by omega, h i j hlt hsame⟩
  · exact ⟨j, by omega, h j i hgt hsame.symm⟩

/-- **Meeting the null** means meeting nothing else twice. -/
theorem ends_iff (hz : f z = z) {s : Finset α} (hs : ∀ n, f^[n] a ∈ s) :
    Ends f z a ↔ NoReturn f z a := by
  refine ⟨noReturn_of_ends hz, fun h => ?_⟩
  obtain ⟨n, _, hn⟩ := ends_of_noReturn hs h
  exact ⟨n, hn⟩

namespace Path

variable {rest path path' : List α}

/-- There is one way to the null. -/
theorem unique (h : Path f z a path) (h' : Path f z a path') : path = path' := by
  induction h generalizing path' with
  | nil =>
      cases h' with
      | nil => rfl
      | cons hne _ => exact absurd rfl hne
  | cons hne _ ih =>
      cases h' with
      | nil => exact absurd rfl hne
      | cons _ h' => rw [ih h']

/-- The way from a place on the way is the rest of it. -/
theorem suffix (h : Path f z a path) {b : α} (hb : b ∈ path) :
    ∃ rest, Path f z b (b :: rest) ∧ b :: rest <:+ path := by
  induction h with
  | nil => exact absurd hb (by simp)
  | @cons c path hne h ih =>
      rcases List.mem_cons.mp hb with rfl | hb
      · exact ⟨path, Path.cons hne h, List.suffix_refl _⟩
      · obtain ⟨rest, hrest, hsuffix⟩ := ih hb
        exact ⟨rest, hrest, hsuffix.trans (List.suffix_cons c path)⟩

/-- A link on the way leads to a place on the way, or to the null. -/
theorem next_mem (h : Path f z a path) {b : α} (hb : b ∈ path) (hne : f b ≠ z) : f b ∈ path := by
  obtain ⟨rest, hrest, hsuffix⟩ := h.suffix hb
  cases hrest with
  | cons _ hrest =>
      cases hrest with
      | nil => exact absurd rfl hne
      | cons _ _ => exact hsuffix.subset (List.mem_cons_of_mem b List.mem_cons_self)

/-- **No place is on the way twice.** -/
theorem nodup (h : Path f z a path) : path.Nodup := by
  induction h with
  | nil => exact List.nodup_nil
  | @cons a path hne h ih =>
      refine List.nodup_cons.mpr ⟨fun hmem => ?_, ih⟩
      obtain ⟨rest, hrest, hsuffix⟩ := h.suffix hmem
      have hsame : a :: rest = a :: path := hrest.unique (Path.cons hne h)
      have hle := hsuffix.length_le
      rw [hsame, List.length_cons] at hle
      omega

/-- All places but the last lead to a place. -/
theorem length_le [DecidableEq α] (h : Path f z a path) :
    path.length ≤ (path.filter fun b => f b ≠ z).length + 1 := by
  induction h with
  | nil => exact Nat.zero_le _
  | @cons a path hne h ih =>
      cases h with
      | nil => simp
      | cons hnext h =>
          rw [List.filter_cons_of_pos (by simpa using hnext)]
          exact Nat.succ_le_succ ih

end Path

/-- Among the numbers below `2 * n` at most `n` have no neighbour among them. -/
theorem card_le_of_apart {s : Finset Nat} {n : Nat} (hlt : ∀ p ∈ s, p < 2 * n)
    (hapart : ∀ p ∈ s, p + 1 ∉ s) : s.card ≤ n := by
  have hmaps : Set.MapsTo (fun p => p / 2) (s : Set Nat) (Finset.range n : Set Nat) := by
    intro p hp
    have hp' : p / 2 < n := by
      have := hlt p hp
      omega
    exact Finset.mem_coe.mpr (Finset.mem_range.mpr hp')
  have hinj : Set.InjOn (fun p => p / 2) (s : Set Nat) := by
    intro p hp q hq (he : p / 2 = q / 2)
    rcases Nat.lt_trichotomy p q with h | h | h
    · exact absurd (show p + 1 ∈ s by rwa [show p + 1 = q by omega]) (hapart p hp)
    · exact h
    · exact absurd (show q + 1 ∈ s by rwa [show q + 1 = p by omega]) (hapart q hq)
  have hcard := Finset.card_le_card_of_injOn _ hmaps hinj
  rwa [Finset.card_range] at hcard

end Lib.Links
