import Mathlib.Data.List.Nodup

/-!
# Dictionaries that keep insertion order

A dictionary is the list of its items, keys pairwise different. Assigning to a key
that is present keeps its place; a new key goes to the end. Iteration is iteration
over `entries`.

The order matters to programs that search: the first item with a property is one that a later
assignment does not move. The lemmas come in two kinds, about the list of items for those, and
about membership for everything else.
-/

namespace Lib

/-- The items in insertion order. -/
structure Dict (κ ν : Type*) where
  entries : List (κ × ν)
  nodup : (entries.map Prod.fst).Nodup

namespace Dict

variable {κ ν : Type*}

def empty : Dict κ ν := ⟨[], List.nodup_nil⟩

def keys (d : Dict κ ν) : List κ := d.entries.map Prod.fst

theorem mem_keys {d : Dict κ ν} {k : κ} : k ∈ d.keys ↔ ∃ v, (k, v) ∈ d.entries := by
  unfold keys
  rw [List.mem_map]
  constructor
  · rintro ⟨⟨k', v⟩, hm, rfl⟩
    exact ⟨v, hm⟩
  · rintro ⟨v, hm⟩
    exact ⟨(k, v), hm, rfl⟩

/-- Two items with the same key are the same item. -/
theorem entries_inj {d : Dict κ ν} {k : κ} {v v' : ν} (h : (k, v) ∈ d.entries)
    (h' : (k, v') ∈ d.entries) : v = v' :=
  congrArg Prod.snd (List.inj_on_of_nodup_map d.nodup h h' rfl)

/-- Keep the items that satisfy `p`. -/
def filter (d : Dict κ ν) (p : κ × ν → Bool) : Dict κ ν :=
  ⟨d.entries.filter p, d.nodup.sublist (List.filter_sublist.map _)⟩

/-- The same keys with other values. -/
def mapVal {μ : Type*} (f : ν → μ) (d : Dict κ ν) : Dict κ μ :=
  ⟨d.entries.map fun e => (e.1, f e.2), by rw [List.map_map]; exact d.nodup⟩

theorem keys_mapVal {μ : Type*} (f : ν → μ) (d : Dict κ ν) : (d.mapVal f).keys = d.keys :=
  List.map_map

theorem ext {d d' : Dict κ ν} (h : d.entries = d'.entries) : d = d' := by
  cases d
  cases d'
  dsimp only at h
  subst h
  rfl

theorem mapVal_congr {μ : Type*} {f g : ν → μ} {d : Dict κ ν}
    (h : ∀ e ∈ d.entries, f e.2 = g e.2) : d.mapVal f = d.mapVal g := by
  refine ext (List.map_congr_left fun e he => ?_)
  rw [h e he]

/-- Values that are kept or dropped together. -/
theorem mapVal_filter {μ : Type*} {f : ν → μ} {d : Dict κ ν} {p : κ × ν → Bool} {q : κ × μ → Bool}
    (h : ∀ k v, q (k, f v) = p (k, v)) : (d.filter p).mapVal f = (d.mapVal f).filter q := by
  refine ext ?_
  show (d.entries.filter p).map _ = (d.entries.map _).filter q
  rw [List.filter_map]
  congr 1
  exact List.filter_congr fun e _ => (h e.1 e.2).symm

variable [DecidableEq κ]

/-- `d[k]`, where it exists. -/
def get? (d : Dict κ ν) (k : κ) : Option ν := (d.entries.find? fun e => e.1 = k).map Prod.snd

/-- `del d[k]`, where it exists. -/
def erase (d : Dict κ ν) (k : κ) : Dict κ ν := d.filter fun e => e.1 ≠ k

/-- The items after `d[k] = v`. -/
def setEntries (d : Dict κ ν) (k : κ) (v : ν) : List (κ × ν) :=
  if k ∈ d.keys then d.entries.map fun e => if e.1 = k then (k, v) else e
  else d.entries ++ [(k, v)]

/-- Assigning to a key that is present keeps the keys. -/
theorem map_fst_setEntries {d : Dict κ ν} {k : κ} (v : ν) (h : k ∈ d.keys) :
    (d.setEntries k v).map Prod.fst = d.keys := by
  unfold setEntries
  rw [if_pos h, List.map_map, keys]
  refine List.map_congr_left fun e _ => ?_
  by_cases he : e.1 = k
  · simp [he]
  · simp [he]

theorem nodup_setEntries (d : Dict κ ν) (k : κ) (v : ν) :
    ((d.setEntries k v).map Prod.fst).Nodup := by
  by_cases hk : k ∈ d.keys
  · rw [map_fst_setEntries v hk]
    exact d.nodup
  · unfold setEntries
    rw [if_neg hk, List.map_append, List.nodup_append]
    refine ⟨d.nodup, List.nodup_singleton k, ?_⟩
    intro a ha b hb
    rw [List.mem_singleton.mp hb]
    rintro rfl
    exact hk ha

/-- `d[k] = v`. -/
def set (d : Dict κ ν) (k : κ) (v : ν) : Dict κ ν := ⟨d.setEntries k v, d.nodup_setEntries k v⟩

theorem get?_eq_some_iff {d : Dict κ ν} {k : κ} {v : ν} :
    d.get? k = some v ↔ (k, v) ∈ d.entries := by
  unfold get?
  rw [Option.map_eq_some_iff]
  constructor
  · rintro ⟨⟨k', v'⟩, hf, rfl⟩
    have hk : k' = k := by simpa using List.find?_some hf
    rw [← hk]
    exact List.mem_of_find?_eq_some hf
  · intro hm
    cases hf : d.entries.find? fun e => e.1 = k with
    | none => exact absurd (List.find?_eq_none.mp hf _ hm) (by simp)
    | some e =>
        obtain ⟨k', v'⟩ := e
        have hk : k' = k := by simpa using List.find?_some hf
        subst hk
        exact ⟨_, rfl, entries_inj (List.mem_of_find?_eq_some hf) hm⟩

/-- A new key goes to the end. -/
theorem entries_set_of_not_mem {d : Dict κ ν} {k : κ} (v : ν) (h : k ∉ d.keys) :
    (d.set k v).entries = d.entries ++ [(k, v)] := if_neg h

theorem entries_erase (d : Dict κ ν) (k : κ) :
    (d.erase k).entries = d.entries.filter fun e => e.1 ≠ k := rfl

theorem keys_set_of_not_mem {d : Dict κ ν} {k : κ} (v : ν) (h : k ∉ d.keys) :
    (d.set k v).keys = d.keys ++ [k] := by
  unfold keys
  rw [entries_set_of_not_mem v h, List.map_append]
  rfl

theorem keys_erase (d : Dict κ ν) (k : κ) : (d.erase k).keys = d.keys.filter fun k' => k' ≠ k := by
  unfold keys
  rw [entries_erase, List.filter_map]
  rfl

theorem keys_set_of_mem {d : Dict κ ν} {k : κ} (v : ν) (h : k ∈ d.keys) :
    (d.set k v).keys = d.keys := map_fst_setEntries v h

theorem mem_entries_set {d : Dict κ ν} {k k' : κ} {v v' : ν} :
    (k', v') ∈ (d.set k v).entries ↔ (k' = k ∧ v' = v) ∨ (k' ≠ k ∧ (k', v') ∈ d.entries) := by
  show (k', v') ∈ d.setEntries k v ↔ _
  unfold setEntries
  split
  · rename_i hk
    rw [List.mem_map]
    constructor
    · rintro ⟨e, hm, he⟩
      by_cases hek : e.1 = k
      · rw [if_pos hek] at he
        exact Or.inl ⟨(congrArg Prod.fst he).symm, (congrArg Prod.snd he).symm⟩
      · rw [if_neg hek] at he
        subst he
        exact Or.inr ⟨hek, hm⟩
    · rintro (⟨rfl, rfl⟩ | ⟨hne, hm⟩)
      · obtain ⟨w, hw⟩ := mem_keys.mp hk
        exact ⟨_, hw, if_pos rfl⟩
      · exact ⟨_, hm, if_neg hne⟩
  · rename_i hk
    rw [List.mem_append, List.mem_singleton]
    constructor
    · rintro (hm | he)
      · exact Or.inr ⟨fun he => hk (he ▸ mem_keys.mpr ⟨v', hm⟩), hm⟩
      · exact Or.inl ⟨congrArg Prod.fst he, congrArg Prod.snd he⟩
    · rintro (⟨rfl, rfl⟩ | ⟨_, hm⟩)
      · exact Or.inr rfl
      · exact Or.inl hm

theorem mem_keys_set {d : Dict κ ν} {k k' : κ} {v : ν} :
    k' ∈ (d.set k v).keys ↔ k' = k ∨ k' ∈ d.keys := by
  by_cases hk : k ∈ d.keys
  · rw [keys_set_of_mem v hk]
    exact ⟨Or.inr, fun h => h.elim (fun he => he ▸ hk) id⟩
  · rw [keys_set_of_not_mem v hk, List.mem_append, List.mem_singleton, or_comm]

/-- Assigning to an item in the middle. -/
theorem entries_set_append {d : Dict κ ν} {pre post : List (κ × ν)} {k : κ} {v : ν}
    (h : d.entries = pre ++ (k, v) :: post) (w : ν) :
    (d.set k w).entries = pre ++ (k, w) :: post := by
  have hnodup := d.nodup
  rw [h, List.map_append, List.map_cons] at hnodup
  have hother : ∀ e ∈ pre ++ post, (if e.1 = k then (k, w) else e) = e := by
    intro e he
    refine if_neg fun hk => ?_
    have hnot : k ∉ (pre ++ post).map Prod.fst := by
      rw [List.map_append]
      exact (List.nodup_middle.mp hnodup).notMem
    rw [← hk] at hnot
    exact hnot (List.mem_map_of_mem he)
  have hmem : k ∈ d.keys := mem_keys.mpr ⟨v, h ▸ List.mem_append_right _ List.mem_cons_self⟩
  show d.setEntries k w = _
  rw [setEntries, if_pos hmem, h, List.map_append, List.map_cons, if_pos rfl,
    List.map_congr_left (fun e he => hother e (List.mem_append_left _ he)),
    List.map_congr_left (fun e he => hother e (List.mem_append_right _ he))]
  simp

/-- A dictionary of no other key holds the new item alone. -/
theorem entries_set_of_only {d : Dict κ ν} {k : κ} (h : ∀ k' ∈ d.keys, k' = k) (v : ν) :
    (d.set k v).entries = [(k, v)] := by
  obtain ⟨entries, hnodup⟩ := d
  cases entries with
  | nil => rfl
  | cons e entries =>
      have he : e.1 = k := h e.1 List.mem_cons_self
      cases entries with
      | nil =>
          have hmem : k ∈ (⟨[e], hnodup⟩ : Dict κ ν).keys := List.mem_singleton.mpr he.symm
          show setEntries _ k v = _
          rw [setEntries, if_pos hmem, List.map_singleton, if_pos he]
      | cons e' entries =>
          -- two items would have one key
          have he' : e'.1 = k := h e'.1 (List.mem_cons_of_mem _ List.mem_cons_self)
          rw [List.map_cons, List.map_cons, he, he'] at hnodup
          exact absurd List.mem_cons_self (List.nodup_cons.mp hnodup).1

theorem mapVal_set {μ : Type*} (f : ν → μ) (d : Dict κ ν) (k : κ) (v : ν) :
    (d.set k v).mapVal f = (d.mapVal f).set k (f v) := by
  refine ext ?_
  show (d.setEntries k v).map _ = (d.mapVal f).setEntries k (f v)
  unfold setEntries
  rw [keys_mapVal]
  by_cases hk : k ∈ d.keys
  · rw [if_pos hk, if_pos hk, mapVal, List.map_map, List.map_map]
    refine List.map_congr_left fun e _ => ?_
    by_cases he : e.1 = k
    · rw [Function.comp_apply, Function.comp_apply, if_pos he, if_pos he]
    · rw [Function.comp_apply, Function.comp_apply, if_neg he, if_neg he]
  · rw [if_neg hk, if_neg hk, mapVal, List.map_append]
    rfl

theorem get?_mapVal {μ : Type*} (f : ν → μ) (d : Dict κ ν) (k : κ) :
    (d.mapVal f).get? k = (d.get? k).map f := by
  unfold get? mapVal
  dsimp only
  rw [List.find?_map, Option.map_map, Option.map_map]
  rfl

theorem mem_entries_erase {d : Dict κ ν} {k k' : κ} {v' : ν} :
    (k', v') ∈ (d.erase k).entries ↔ k' ≠ k ∧ (k', v') ∈ d.entries := by
  rw [entries_erase, List.mem_filter]
  simp [and_comm]

/-- Erasing a key that is present takes one entry. -/
theorem length_erase {d : Dict κ ν} {k : κ} (h : k ∈ d.keys) :
    (d.erase k).entries.length + 1 = d.entries.length := by
  have hkeys : ∀ d' : Dict κ ν, d'.keys.length = d'.entries.length := fun d' => List.length_map ..
  have hnodup : d.keys.Nodup := d.nodup
  have herase : (d.erase k).keys = d.keys.erase k := by
    rw [keys_erase, hnodup.erase_eq_filter]
    exact List.filter_congr fun k' _ => by simp [bne, beq_eq_decide]
  rw [← hkeys, ← hkeys, herase, List.length_erase_of_mem h]
  exact Nat.sub_add_cancel (List.length_pos_of_mem h)

theorem get?_set_self (d : Dict κ ν) (k : κ) (v : ν) : (d.set k v).get? k = some v :=
  get?_eq_some_iff.mpr (mem_entries_set.mpr (Or.inl ⟨rfl, rfl⟩))

end Dict

end Lib
