import TaskFleet.Lib.Table
import Mathlib.Algebra.BigOperators.Group.List.Basic
import Mathlib.Algebra.GroupWithZero.Nat
import Mathlib.Algebra.Order.BigOperators.Group.List
import Mathlib.Data.List.Dedup

/-!
# Counting by key

Items under different keys can be counted key by key (`sum_fibres`). Where the keys are
those of a table and every item names a row, every item falls to exactly one row
(`Table.length_eq_sum`); so a law about the items of each row, added up, is one about all
of them.
-/

namespace TaskFleet

/-! ## Lists of keys -/

section Keys

variable {κ β : Type} [DecidableEq κ]

theorem sum_key_eq_count (ks : List κ) (k : κ) :
    (ks.map fun x => if k = x then 1 else 0).sum = ks.count k := by
  induction ks with
  | nil => rfl
  | cons x ks ih =>
      rw [List.map_cons, List.sum_cons, ih, List.count_cons]
      by_cases hk : k = x
      · rw [if_pos hk, if_pos (by simp [hk])]
        omega
      · rw [if_neg hk, if_neg (by simpa using fun h => hk h.symm)]
        omega

/-- **Fibres.** The items under each of some different keys, added up, are the items whose
key is one of them. -/
theorem sum_fibres (keyOf : β → κ) {ks : List κ} (h : ks.Nodup) (l : List β) :
    (ks.map fun k => (l.filter fun b => keyOf b = k).length).sum =
      (l.filter fun b => ks.contains (keyOf b)).length := by
  induction l with
  | nil => simp
  | cons b l ih =>
      have hsplit : ∀ k : κ, ((b :: l).filter fun b => keyOf b = k).length =
          (if keyOf b = k then 1 else 0) + (l.filter fun b => keyOf b = k).length := by
        intro k
        by_cases hk : keyOf b = k
        · rw [List.filter_cons_of_pos (by simpa using hk), if_pos hk, List.length_cons]
          omega
        · rw [List.filter_cons_of_neg (by simpa using hk), if_neg hk]
          omega
      simp only [hsplit]
      rw [List.sum_map_add, sum_key_eq_count, ih]
      by_cases hb : keyOf b ∈ ks
      · rw [List.count_eq_one_of_mem h hb, List.filter_cons_of_pos (by simpa using hb),
          List.length_cons]
        omega
      · rw [List.count_eq_zero_of_not_mem hb, List.filter_cons_of_neg (by simpa using hb)]
        omega

/-- **Groups.** Of the rows made of the groups of a list, one is of the group `k`, if the
group is there. -/
theorem filter_map_dedup {γ : Type} (row : κ → γ) (keyOf : γ → κ) (hkey : ∀ k, keyOf (row k) = k)
    (ks : List κ) (k : κ) :
    ((ks.dedup.map row).filter fun c => keyOf c = k) = if k ∈ ks then [row k] else [] := by
  have hsame : ((fun c => decide (keyOf c = k)) ∘ row) = fun x => decide (x = k) := by
    funext x
    exact congrArg (fun y => decide (y = k)) (hkey x)
  -- at most one of them is `k`, because they are different
  have hone : ∀ l : List κ, l.Nodup → (l.filter fun x => x = k) = if k ∈ l then [k] else [] := by
    intro l hl
    induction l with
    | nil => rfl
    | cons x l ih =>
        obtain ⟨hx, hl⟩ := List.nodup_cons.mp hl
        by_cases hxk : x = k
        · subst hxk
          rw [List.filter_cons_of_pos (by simp), ih hl, if_neg hx, if_pos List.mem_cons_self]
        · rw [List.filter_cons_of_neg (by simpa using hxk), ih hl]
          simp [Ne.symm hxk]
  rw [List.filter_map, hsame, hone ks.dedup (List.nodup_dedup ks)]
  simp only [List.mem_dedup]
  split <;> rfl

end Keys

/-! ## Rows of a table -/

namespace Table

variable {κ ρ β : Type} {key : ρ → κ} [DecidableEq κ] {t : Table κ ρ key}

/-- **Double counting.** The items of all rows together are all the items. -/
theorem length_eq_sum {keyOf : β → κ} {l : List β} (h : ∀ b ∈ l, ∃ r ∈ t, key r = keyOf b) :
    l.length = (t.rows.map fun r => (l.filter fun b => keyOf b = key r).length).sum := by
  have hall : l.filter (fun b => (t.rows.map key).contains (keyOf b)) = l := by
    refine List.filter_eq_self.mpr fun b hb => ?_
    obtain ⟨r, hr, hkey⟩ := h b hb
    rw [List.contains_iff_mem, ← hkey]
    exact List.mem_map_of_mem hr
  have hfibres := sum_fibres keyOf t.nodup l
  rw [hall, List.map_map] at hfibres
  exact hfibres.symm

/-- The rows that meet a condition, counted one by one. -/
theorem length_filter_eq_sum (rows : List ρ) (p : ρ → Bool) :
    (rows.filter p).length = (rows.map fun r => if p r then 1 else 0).sum := by
  induction rows with
  | nil => rfl
  | cons r rows ih =>
      rw [List.map_cons, List.sum_cons, ← ih, List.filter_cons]
      split
      · rw [List.length_cons]
        omega
      · omega

/-- **Totals.** What holds of the items of every row holds of all items and all rows: as
many items meet `q` as rows meet `p`. -/
theorem length_filter_eq (keyOf : β → κ) {l : List β} {p : ρ → Bool} {q : β → Bool}
    (hrow : ∀ b ∈ l, ∃ r ∈ t, key r = keyOf b)
    (heach : ∀ r ∈ t, ((l.filter fun b => keyOf b = key r).filter q).length =
      if p r then 1 else 0) : (l.filter q).length = (t.rows.filter p).length := by
  have hmeets : ∀ b ∈ l.filter q, ∃ r ∈ t, key r = keyOf b :=
    fun b hb => hrow b (List.mem_of_mem_filter hb)
  rw [length_eq_sum hmeets, length_filter_eq_sum]
  refine congrArg List.sum (List.map_congr_left fun r hr => ?_)
  rw [List.filter_comm]
  exact heach r hr

/-- As many rows are selected by their keys as there are keys. -/
theorem length_filter_contains {rows : List ρ} (hrows : ∀ r ∈ rows, r ∈ t)
    (hnodup : (rows.map key).Nodup) :
    (t.rows.filter fun r => key r ∈ rows.map key).length = rows.length := by
  have hselected : ((t.rows.filter fun r => key r ∈ rows.map key).map key).Nodup :=
    t.nodup.sublist (List.filter_sublist.map key)
  have hsame : ∀ k, k ∈ (t.rows.filter fun r => key r ∈ rows.map key).map key ↔
      k ∈ rows.map key := by
    intro k
    simp only [List.mem_map, List.mem_filter, decide_eq_true_eq]
    constructor
    · rintro ⟨r, ⟨-, hr⟩, rfl⟩
      exact hr
    · rintro ⟨r, hr, rfl⟩
      exact ⟨r, ⟨hrows r hr, r, hr, rfl⟩, rfl⟩
  have hperm := (List.perm_ext_iff_of_nodup hselected hnodup).mpr hsame
  simpa using hperm.length_eq

omit [DecidableEq κ] in
/-- An update that ends `p` for the rows it changes takes as many rows from those that meet it. -/
theorem length_filter_updateWhere {p q : ρ → Bool} (f : ρ → ρ) (hf : ∀ r, key (f r) = key r)
    (hin : ∀ r ∈ t, q r = true → p r = true) (hout : ∀ r ∈ t, q r = true → p (f r) = false) :
    ((t.updateWhere q f hf).rows.filter p).length + (t.rows.filter q).length =
      (t.rows.filter p).length := by
  have hlist : ∀ rows : List ρ, (∀ r ∈ rows, r ∈ t) →
      ((rows.map fun r => if q r then f r else r).filter p).length + (rows.filter q).length =
        (rows.filter p).length := by
    intro rows hrows
    induction rows with
    | nil => rfl
    | cons r rows ih =>
        have hr := hrows r List.mem_cons_self
        have hrest := ih fun u hu => hrows u (List.mem_cons_of_mem r hu)
        cases hq : q r with
        | true =>
            simp only [List.map_cons, List.filter_cons, hq, if_true, hin r hr hq, hout r hr hq,
              Bool.false_eq_true, if_false, List.length_cons]
            omega
        | false =>
            cases hp : p r with
            | true =>
                simp only [List.map_cons, List.filter_cons, hq, hp, if_true, Bool.false_eq_true,
                  if_false, List.length_cons]
                omega
            | false =>
                simpa only [List.map_cons, List.filter_cons, hq, hp, Bool.false_eq_true,
                  if_false] using hrest
  exact hlist t.rows fun _ hr => hr

end Table

end TaskFleet
