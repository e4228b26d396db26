import TaskFleet.Lib.Table
import Mathlib.Data.Finset.Card

/-!
# Python dictionaries

A dictionary is a table of pairs keyed by their first component, oldest entry
first: assigning to a key that is there keeps its place, and a new key goes to
the end. The lemmas say what each operation does to the keys, to the number of
entries and to a lookup.
-/

namespace TaskFleet.Py

/-- A Python `dict`. -/
abbrev Dict (κ ν : Type) := Table κ (κ × ν) Prod.fst

namespace Dict

variable {κ ν : Type}

/-- `{}`. -/
def empty : Dict κ ν := Table.empty

/-- The keys, in insertion order. -/
def keys (d : Dict κ ν) : List κ := d.rows.map Prod.fst

/-- `len(d)`. -/
def size (d : Dict κ ν) : Nat := d.rows.length

/-- `del d[next(iter(d))]`, `n` times, stopping when nothing is left. -/
def dropFirst (n : Nat) (d : Dict κ ν) : Dict κ ν :=
  ⟨d.rows.drop n, d.nodup.sublist ((List.drop_sublist n d.rows).map Prod.fst)⟩

theorem keys_nodup (d : Dict κ ν) : d.keys.Nodup := d.nodup

theorem size_eq_length (d : Dict κ ν) : d.size = d.keys.length := by
  simp [size, keys]

theorem keys_dropFirst (n : Nat) (d : Dict κ ν) : (d.dropFirst n).keys = d.keys.drop n := by
  simp [keys, dropFirst, List.map_drop]

variable [DecidableEq κ]

/-- `k in d`. -/
def contains (d : Dict κ ν) (k : κ) : Bool := d.keys.contains k

/-- `d.get(k)`. -/
def lookup (d : Dict κ ν) (k : κ) : Option ν := (d.get? k).map Prod.snd

/-- `d[k] = v`. -/
def set (d : Dict κ ν) (k : κ) (v : ν) : Dict κ ν :=
  if d.contains k then d.updateWhere (fun r => r.1 = k) (fun r => (r.1, v)) fun _ => rfl
  else d.insert (k, v)

/-- `d.pop(k, None)`, without the value it returns. -/
def erase (d : Dict κ ν) (k : κ) : Dict κ ν := d.deleteWhere fun r => r.1 = k

/-! ## Keys -/

@[simp] theorem contains_iff {d : Dict κ ν} {k : κ} : d.contains k = true ↔ k ∈ d.keys := by
  simp [contains]

theorem keys_set_of_mem {d : Dict κ ν} {k : κ} (h : k ∈ d.keys) (v : ν) :
    (d.set k v).keys = d.keys := by
  rw [set, if_pos (contains_iff.mpr h)]
  simp only [keys, Table.updateWhere, List.map_map]
  refine List.map_congr_left fun r _ => ?_
  simp only [Function.comp]
  split <;> rfl

theorem keys_set_of_not_mem {d : Dict κ ν} {k : κ} (h : k ∉ d.keys) (v : ν) :
    (d.set k v).keys = d.keys ++ [k] := by
  rw [set, if_neg (by simpa using h)]
  simp only [keys] at h
  simp [keys, Table.insert, h]

@[simp] theorem mem_keys_set {d : Dict κ ν} {k k' : κ} {v : ν} :
    k' ∈ (d.set k v).keys ↔ k' = k ∨ k' ∈ d.keys := by
  by_cases h : k ∈ d.keys
  · rw [keys_set_of_mem h]
    constructor
    · exact .inr
    · rintro (rfl | h')
      · exact h
      · exact h'
  · rw [keys_set_of_not_mem h, List.mem_append, List.mem_singleton]
    tauto

@[simp] theorem mem_keys_erase {d : Dict κ ν} {k k' : κ} :
    k' ∈ (d.erase k).keys ↔ k' ≠ k ∧ k' ∈ d.keys := by
  simp only [keys, erase, Table.deleteWhere, List.mem_map, List.mem_filter]
  constructor
  · rintro ⟨r, ⟨hr, hk⟩, rfl⟩
    exact ⟨by simpa using hk, r, hr, rfl⟩
  · rintro ⟨hne, r, hr, rfl⟩
    exact ⟨r, ⟨hr, by simpa using hne⟩, rfl⟩

/-! ## The number of entries -/

/-- An entry is a key. -/
theorem size_eq_card (d : Dict κ ν) : d.size = d.keys.toFinset.card := by
  rw [List.toFinset_card_of_nodup d.keys_nodup, size_eq_length]

theorem size_set_of_mem {d : Dict κ ν} {k : κ} (h : k ∈ d.keys) (v : ν) :
    (d.set k v).size = d.size := by
  rw [size_eq_length, keys_set_of_mem h, size_eq_length]

theorem size_set_of_not_mem {d : Dict κ ν} {k : κ} (h : k ∉ d.keys) (v : ν) :
    (d.set k v).size = d.size + 1 := by
  rw [size_eq_length, keys_set_of_not_mem h, size_eq_length, List.length_append,
    List.length_singleton]

theorem erase_of_not_mem {d : Dict κ ν} {k : κ} (h : k ∉ d.keys) : d.erase k = d := by
  refine Table.deleteWhere_eq_self fun r hr => ?_
  have hne : r.1 ≠ k := fun hk => h (hk ▸ List.mem_map_of_mem hr)
  simpa using hne

theorem size_erase_of_mem {d : Dict κ ν} {k : κ} (h : k ∈ d.keys) :
    (d.erase k).size + 1 = d.size := by
  have hkeys : (d.erase k).keys.toFinset = d.keys.toFinset.erase k := by
    ext k'
    simp
  rw [size_eq_card, hkeys, Finset.card_erase_add_one (by simpa using h), size_eq_card]

theorem size_erase_le (d : Dict κ ν) (k : κ) : (d.erase k).size ≤ d.size := by
  by_cases h : k ∈ d.keys
  · exact Nat.le_of_succ_le (size_erase_of_mem h).le
  · rw [erase_of_not_mem h]

theorem size_le_of_keys_subset {ν' : Type} {d : Dict κ ν} {d' : Dict κ ν'}
    (h : ∀ k ∈ d.keys, k ∈ d'.keys) : d.size ≤ d'.size := by
  rw [size_eq_card, size_eq_card]
  exact Finset.card_le_card fun k hk => List.mem_toFinset.mpr (h k (List.mem_toFinset.mp hk))

/-! ## Lookups -/

theorem lookup_eq_some_iff {d : Dict κ ν} {k : κ} {v : ν} :
    d.lookup k = some v ↔ (k, v) ∈ d.rows := by
  simp only [lookup, Option.map_eq_some_iff, Table.get?_eq_some_iff]
  constructor
  · rintro ⟨r, ⟨hr, rfl⟩, rfl⟩
    exact hr
  · exact fun h => ⟨(k, v), ⟨h, rfl⟩, rfl⟩

theorem mem_keys_iff {d : Dict κ ν} {k : κ} : k ∈ d.keys ↔ ∃ v, d.lookup k = some v := by
  simp [keys, lookup_eq_some_iff]

theorem mem_keys_of_lookup {d : Dict κ ν} {k : κ} {v : ν} (h : d.lookup k = some v) :
    k ∈ d.keys :=
  mem_keys_iff.mpr ⟨v, h⟩

theorem lookup_eq_none_iff {d : Dict κ ν} {k : κ} : d.lookup k = none ↔ k ∉ d.keys := by
  rw [mem_keys_iff, Option.eq_none_iff_forall_ne_some]
  push Not
  rfl

theorem lookup_set (d : Dict κ ν) (k k' : κ) (v : ν) :
    (d.set k v).lookup k' = if k' = k then some v else d.lookup k' := by
  apply Option.ext
  intro v'
  rw [lookup_eq_some_iff]
  by_cases h : k ∈ d.keys
  · rw [set, if_pos (contains_iff.mpr h)]
    have hkey : ∀ r : κ × ν, ((r.1, v) : κ × ν).1 = r.1 := fun _ => rfl
    have hmem : (k', v') ∈ d.updateWhere (fun r => r.1 = k) (fun r => (r.1, v)) hkey ↔ _ :=
      Table.mem_updateWhere hkey
    rw [Table.mem_iff] at hmem
    rw [hmem]
    by_cases hk : k' = k
    · rw [if_pos hk, Option.some.injEq]
      constructor
      · rintro ⟨r, -, heq⟩
        split at heq
        · exact (Prod.mk.inj heq).2.symm
        · next hne =>
            have : r.1 = k' := (congrArg Prod.fst heq).symm
            simp [this, hk] at hne
      · rintro rfl
        obtain ⟨r, hr, hrk⟩ := List.mem_map.mp h
        exact ⟨r, hr, by simp [hrk, hk]⟩
    · rw [if_neg hk, lookup_eq_some_iff]
      constructor
      · rintro ⟨r, hr, heq⟩
        split at heq
        · next hrk => exact absurd ((congrArg Prod.fst heq).trans (of_decide_eq_true hrk)) hk
        · rw [heq]
          exact hr
      · exact fun hr => ⟨_, hr, by simp [hk]⟩
  · have hfresh : ∀ x ∈ d, x.1 ≠ (k, v).1 := by
      intro x hx hxk
      exact h (List.mem_map.mpr ⟨x, hx, hxk⟩)
    rw [set, if_neg (by simpa using h)]
    have hmem : (k', v') ∈ d.insert (k, v) ↔ _ := Table.mem_insert hfresh
    rw [Table.mem_iff] at hmem
    rw [hmem, Table.mem_iff, ← lookup_eq_some_iff]
    by_cases hk : k' = k
    · subst hk
      rw [if_pos rfl, lookup_eq_none_iff.mpr h]
      simp [eq_comm]
    · simp [hk]

theorem lookup_erase (d : Dict κ ν) (k k' : κ) :
    (d.erase k).lookup k' = if k' = k then none else d.lookup k' := by
  apply Option.ext
  intro v'
  rw [lookup_eq_some_iff, ← Table.mem_iff, erase, Table.mem_deleteWhere, Table.mem_iff,
    ← lookup_eq_some_iff]
  by_cases hk : k' = k <;> simp [hk]

theorem lookup_dropFirst {d : Dict κ ν} {n : Nat} {k : κ} (h : k ∈ (d.dropFirst n).keys) :
    (d.dropFirst n).lookup k = d.lookup k := by
  obtain ⟨v, hv⟩ := mem_keys_iff.mp h
  have hin : (k, v) ∈ d.rows := List.mem_of_mem_drop (lookup_eq_some_iff.mp hv)
  rw [hv, lookup_eq_some_iff.mpr hin]

end Dict

end TaskFleet.Py
