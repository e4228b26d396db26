import Mathlib.Data.List.Nodup
import Mathlib.Data.List.Basic

/-!
# Tables with a primary key

A `Table` is a list of rows no two of which share a key: the primary key is a
field of the structure, so a table with two rows for one key cannot be built.
The operations are the statements a store offers over such a table (insert,
update and delete with a row predicate), each with the lemma that says which
rows the result holds.
-/

namespace TaskFleet

/-- Rows of type `ρ` with the primary key `key`. -/
structure Table (κ ρ : Type) (key : ρ → κ) where
  rows : List ρ
  nodup : (rows.map key).Nodup

namespace Table

variable {κ ρ : Type} {key : ρ → κ}

instance : Membership ρ (Table κ ρ key) := ⟨fun t r => r ∈ t.rows⟩

theorem mem_iff {t : Table κ ρ key} {r : ρ} : r ∈ t ↔ r ∈ t.rows := Iff.rfl

/-- The table with no rows. -/
def empty : Table κ ρ key := ⟨[], List.nodup_nil⟩

@[simp] theorem not_mem_empty (r : ρ) : r ∉ (empty : Table κ ρ key) :=
  List.not_mem_nil

/-- The key determines the row. -/
theorem eq_of_key {t : Table κ ρ key} {r r' : ρ} (hr : r ∈ t) (hr' : r' ∈ t)
    (h : key r = key r') : r = r' :=
  List.inj_on_of_nodup_map t.nodup hr hr' h

/-- A list of rows of the table contains a row as soon as it contains its key. -/
theorem key_mem_map_iff {t : Table κ ρ key} {l : List ρ} (hl : ∀ r ∈ l, r ∈ t) {r : ρ}
    (hr : r ∈ t) : key r ∈ l.map key ↔ r ∈ l := by
  constructor
  · intro h
    obtain ⟨r', hr', hkey⟩ := List.mem_map.mp h
    exact eq_of_key (hl r' hr') hr hkey ▸ hr'
  · exact fun h => List.mem_map_of_mem h

section Lookup

variable [DecidableEq κ]

/-- The row with key `k`, if there is one. -/
def get? (t : Table κ ρ key) (k : κ) : Option ρ :=
  t.rows.find? fun r => key r = k

theorem get?_eq_some_iff {t : Table κ ρ key} {k : κ} {r : ρ} :
    t.get? k = some r ↔ r ∈ t ∧ key r = k := by
  constructor
  · intro h
    exact ⟨List.mem_of_find?_eq_some h, by simpa using List.find?_some h⟩
  · rintro ⟨hr, hk⟩
    cases hg : t.get? k with
    | none =>
        have := List.find?_eq_none.mp hg r hr
        simp [hk] at this
    | some r' =>
        have hr' : r' ∈ t := List.mem_of_find?_eq_some hg
        have hk' : key r' = k := by simpa using List.find?_some hg
        rw [eq_of_key hr' hr (hk'.trans hk.symm)]

theorem get?_eq_none_iff {t : Table κ ρ key} {k : κ} :
    t.get? k = none ↔ ∀ r ∈ t, key r ≠ k := by
  simp [get?, mem_iff]

theorem get?_of_mem {t : Table κ ρ key} {r : ρ} (hr : r ∈ t) : t.get? (key r) = some r :=
  get?_eq_some_iff.mpr ⟨hr, rfl⟩

@[simp] theorem get?_empty (k : κ) : (empty : Table κ ρ key).get? k = none := rfl

/-- `INSERT`. A row whose key is taken violates the primary key: the
statement fails and the table stays as it was. -/
def insert (t : Table κ ρ key) (r : ρ) : Table κ ρ key :=
  if h : key r ∈ t.rows.map key then t
  else ⟨t.rows ++ [r], by
    rw [List.map_append, List.map_singleton]
    exact List.Nodup.append t.nodup (List.nodup_singleton _) (by simpa using h)⟩

theorem mem_insert {t : Table κ ρ key} {r : ρ} (hfresh : ∀ x ∈ t, key x ≠ key r) {r' : ρ} :
    r' ∈ t.insert r ↔ r' ∈ t ∨ r' = r := by
  have h : key r ∉ t.rows.map key := by
    intro hm
    obtain ⟨x, hx, hk⟩ := List.mem_map.mp hm
    exact hfresh x hx hk
  simp [insert, h, mem_iff]

/-- Whatever the key, an `INSERT` keeps every row. -/
theorem mem_insert_of_mem {t : Table κ ρ key} {r r' : ρ} (hr : r' ∈ t) : r' ∈ t.insert r := by
  unfold insert
  split
  · exact hr
  · exact List.mem_append_left _ hr

/-- An `INSERT` is seen under its own key only. -/
theorem get?_insert_of_ne {t : Table κ ρ key} {r : ρ} {k : κ} (h : k ≠ key r) :
    (t.insert r).get? k = t.get? k := by
  unfold insert
  split
  · rfl
  · simp [get?, List.find?_append, Ne.symm h]

/-- Some of the rows, by key, determine what a lookup of those keys finds. -/
theorem get?_eq_find?_filter (t : Table κ ρ key) {ks : List κ} {k : κ} (h : k ∈ ks) :
    t.get? k = (t.rows.filter fun r => ks.contains (key r)).find? fun r => key r = k := by
  rw [List.find?_filter, get?]
  congr 1
  funext r
  by_cases hk : key r = k <;> simp [hk, h]

/-- Looking a key up in a list derived from some of the rows finds what its
row became. -/
theorem find?_map_of_mem {β : Type} {t : Table κ ρ key} {l : List ρ} {g : ρ → β} {keyOf : β → κ}
    (hl : ∀ r ∈ l, r ∈ t) (hg : ∀ r, keyOf (g r) = key r) {r : ρ} (hr : r ∈ l) :
    (l.map g).find? (fun b => keyOf b = key r) = some (g r) := by
  cases hfind : (l.map g).find? (fun b => keyOf b = key r) with
  | none =>
      have := List.find?_eq_none.mp hfind (g r) (List.mem_map_of_mem hr)
      simp [hg] at this
  | some b =>
      obtain ⟨r', hr', rfl⟩ := List.mem_map.mp (List.mem_of_find?_eq_some hfind)
      have hkey : keyOf (g r') = key r := by simpa using List.find?_some hfind
      rw [eq_of_key (hl r' hr') (hl r hr) ((hg r').symm.trans hkey)]

/-- Looking up the key of a row that is not in the list finds nothing. -/
theorem find?_map_of_not_mem {β : Type} {t : Table κ ρ key} {l : List ρ} {g : ρ → β}
    {keyOf : β → κ} (hl : ∀ r ∈ l, r ∈ t) (hg : ∀ r, keyOf (g r) = key r) {r : ρ} (hr : r ∈ t)
    (hnot : r ∉ l) : (l.map g).find? (fun b => keyOf b = key r) = none := by
  rw [List.find?_eq_none]
  intro b hb hkey
  obtain ⟨r', hr', rfl⟩ := List.mem_map.mp hb
  have hkey : key r' = key r := (hg r').symm.trans (by simpa using hkey)
  exact hnot (eq_of_key (hl r' hr') hr hkey ▸ hr')

/-- In a list without two entries of one key, at most one has the key `k`. -/
theorem filter_eq_toList_find? {β : Type} {keyOf : β → κ} {l : List β} (h : (l.map keyOf).Nodup)
    (k : κ) : l.filter (fun b => keyOf b = k) = (l.find? fun b => keyOf b = k).toList := by
  induction l with
  | nil => rfl
  | cons b l ih =>
      obtain ⟨hnot, hnodup⟩ := List.nodup_cons.mp h
      by_cases hb : keyOf b = k
      · have hrest : l.filter (fun b => keyOf b = k) = [] := by
          refine List.filter_eq_nil_iff.mpr fun c hc hck => hnot ?_
          exact List.mem_map.mpr ⟨c, hc, (of_decide_eq_true hck).trans hb.symm⟩
        rw [List.filter_cons_of_pos (by simpa using hb), List.find?_cons_of_pos (by simpa using hb),
          hrest]
        rfl
      · rw [List.filter_cons_of_neg (by simpa using hb), List.find?_cons_of_neg (by simpa using hb),
          ih hnodup]

end Lookup

/-- `UPDATE … SET f WHERE p`. The assignment `f` never touches the key. -/
def updateWhere (t : Table κ ρ key) (p : ρ → Bool) (f : ρ → ρ)
    (hf : ∀ r, key (f r) = key r) : Table κ ρ key where
  rows := t.rows.map fun r => if p r then f r else r
  nodup := by
    have h : (t.rows.map fun r => if p r then f r else r).map key = t.rows.map key := by
      rw [List.map_map]
      refine List.map_congr_left fun r _ => ?_
      simp only [Function.comp]
      split
      · exact hf r
      · rfl
    rw [h]
    exact t.nodup

theorem mem_updateWhere {t : Table κ ρ key} {p : ρ → Bool} {f : ρ → ρ}
    (hf : ∀ r, key (f r) = key r) {r' : ρ} :
    r' ∈ t.updateWhere p f hf ↔ ∃ r ∈ t, r' = if p r then f r else r := by
  simp only [mem_iff, updateWhere, List.mem_map]
  constructor
  · rintro ⟨r, hr, rfl⟩
    exact ⟨r, hr, rfl⟩
  · rintro ⟨r, hr, rfl⟩
    exact ⟨r, hr, rfl⟩

/-- The updated version of a row of the table is a row of the result. -/
theorem mem_updateWhere_of_mem {t : Table κ ρ key} {p : ρ → Bool} {f : ρ → ρ}
    (hf : ∀ r, key (f r) = key r) {r : ρ} (hr : r ∈ t) :
    (if p r then f r else r) ∈ t.updateWhere p f hf :=
  (mem_updateWhere hf).mpr ⟨r, hr, rfl⟩

/-- An update that matches no row changes nothing. -/
theorem updateWhere_eq_self {t : Table κ ρ key} {p : ρ → Bool} {f : ρ → ρ}
    {hf : ∀ r, key (f r) = key r} (h : ∀ r ∈ t, p r = true → f r = r) :
    t.updateWhere p f hf = t := by
  obtain ⟨rows, nodup⟩ := t
  simp only [updateWhere, mk.injEq]
  conv_rhs => rw [← List.map_id rows]
  refine List.map_congr_left fun r hr => ?_
  split
  · next hp => exact h r hr hp
  · rfl

/-- Two updates agree when they agree on every row of the table. -/
theorem updateWhere_congr {t : Table κ ρ key} {p q : ρ → Bool} {f g : ρ → ρ}
    {hf : ∀ r, key (f r) = key r} {hg : ∀ r, key (g r) = key r}
    (h : ∀ r ∈ t, (if p r then f r else r) = if q r then g r else r) :
    t.updateWhere p f hf = t.updateWhere q g hg := by
  simp only [updateWhere, mk.injEq]
  exact List.map_congr_left h

section Overwrite

variable [DecidableEq κ]

/-- The new version of a row, if there is one. -/
def newest (key : ρ → κ) (new : List ρ) (r : ρ) : ρ := (new.find? fun x => key x = key r).getD r

theorem key_newest (new : List ρ) (r : ρ) : key (newest key new r) = key r := by
  unfold newest
  cases hfind : new.find? fun x => key x = key r with
  | none => rfl
  | some x => simpa using List.find?_some hfind

/-- The table with new versions of some of its rows. -/
def overwrite (t : Table κ ρ key) (new : List ρ) : Table κ ρ key :=
  t.updateWhere (fun _ => true) (newest key new) (key_newest new)

@[simp] theorem overwrite_nil (t : Table κ ρ key) : t.overwrite [] = t :=
  updateWhere_eq_self fun _ _ _ => rfl

theorem mem_overwrite {t : Table κ ρ key} {new : List ρ} {r' : ρ} :
    r' ∈ t.overwrite new ↔ ∃ r ∈ t, r' = newest key new r :=
  mem_updateWhere (p := fun _ => true) (key_newest new)

/-- Writing back some rows, each changed by `f`, is an update of them. -/
theorem overwrite_map {t : Table κ ρ key} {l : List ρ} {f : ρ → ρ} (hl : ∀ r ∈ l, r ∈ t)
    (hf : ∀ r, key (f r) = key r) {p : ρ → Bool} (hp : ∀ r ∈ t, p r = true ↔ r ∈ l) :
    t.overwrite (l.map f) = t.updateWhere p f hf := by
  unfold overwrite
  refine updateWhere_congr fun r hr => ?_
  rw [if_pos rfl, newest]
  by_cases hmem : r ∈ l
  · rw [if_pos ((hp r hr).mpr hmem), find?_map_of_mem hl hf hmem]
    rfl
  · rw [if_neg (fun h => hmem ((hp r hr).mp h)), find?_map_of_not_mem hl hf hr hmem]
    rfl

/-- Rows whose keys are not among the new versions stay. -/
theorem filter_overwrite {t : Table κ ρ key} {new : List ρ} {ks : List κ}
    (h : ∀ r ∈ new, key r ∉ ks) :
    (t.overwrite new).rows.filter (fun r => ks.contains (key r)) =
      t.rows.filter fun r => ks.contains (key r) := by
  have hcomp : (fun r => ks.contains (key r)) ∘ newest key new = fun r => ks.contains (key r) := by
    funext r
    simp only [Function.comp, key_newest]
  simp only [overwrite, updateWhere, if_true, List.filter_map, hcomp]
  refine (List.map_congr_left fun r hr => ?_).trans (List.map_id _)
  have hr : key r ∈ ks := by simpa using (List.mem_filter.mp hr).2
  rw [newest, List.find?_eq_none.mpr]
  · rfl
  · intro x hx hkey
    exact h x hx (of_decide_eq_true hkey ▸ hr)

end Overwrite

/-- `DELETE … WHERE p`. -/
def deleteWhere (t : Table κ ρ key) (p : ρ → Bool) : Table κ ρ key where
  rows := t.rows.filter fun r => !p r
  nodup := t.nodup.sublist ((List.filter_sublist).map key)

@[simp] theorem mem_deleteWhere {t : Table κ ρ key} {p : ρ → Bool} {r : ρ} :
    r ∈ t.deleteWhere p ↔ r ∈ t ∧ p r = false := by
  simp [deleteWhere, mem_iff]

/-- A deletion that matches no row changes nothing. -/
theorem deleteWhere_eq_self {t : Table κ ρ key} {p : ρ → Bool} (h : ∀ r ∈ t, p r = false) :
    t.deleteWhere p = t := by
  obtain ⟨rows, nodup⟩ := t
  simp only [deleteWhere, mk.injEq, List.filter_eq_self]
  intro r hr
  rw [h r hr]
  rfl

section Lookups

variable [DecidableEq κ] {t : Table κ ρ key}

theorem get?_insert_self {r : ρ} (h : t.get? (key r) = none) :
    (t.insert r).get? (key r) = some r :=
  get?_of_mem ((mem_insert (get?_eq_none_iff.mp h)).mpr (.inr rfl))

theorem get?_updateWhere {p : ρ → Bool} {f : ρ → ρ} (hf : ∀ r, key (f r) = key r) {k : κ} :
    (t.updateWhere p f hf).get? k = (t.get? k).map fun r => if p r then f r else r := by
  have hkey : ((fun r => decide (key r = k)) ∘ fun r => if p r then f r else r) =
      fun r => decide (key r = k) := by
    funext r
    simp only [Function.comp_apply]
    split
    · rw [hf]
    · rfl
  rw [get?, updateWhere, List.find?_map, hkey, get?]

theorem get?_deleteWhere {p : ρ → Bool} {k : κ} :
    (t.deleteWhere p).get? k = (t.get? k).filter fun r => !p r := by
  cases hget : t.get? k with
  | none =>
      refine get?_eq_none_iff.mpr fun r hr => ?_
      exact get?_eq_none_iff.mp hget r (mem_deleteWhere.mp hr).1
  | some r =>
      obtain ⟨hr, rfl⟩ := get?_eq_some_iff.mp hget
      cases hp : p r with
      | false =>
          rw [get?_of_mem (mem_deleteWhere.mpr ⟨hr, hp⟩), Option.filter_some, hp]
          rfl
      | true =>
          have hnone : (t.deleteWhere p).get? (key r) = none := by
            refine get?_eq_none_iff.mpr fun r' hr' hkey => ?_
            obtain ⟨hmem, hkeep⟩ := mem_deleteWhere.mp hr'
            rw [eq_of_key hmem hr hkey, hp] at hkeep
            cases hkeep
          rw [hnone, Option.filter_some, hp]
          rfl

end Lookups

/-! ## One table after another -/

/-- How the rows of a table became those of another: every row lives on with
the same key, changed by `R`, and any other row is new. -/
structure Follows (R : ρ → ρ → Prop) (new : ρ → Prop) (t t' : Table κ ρ key) : Prop where
  forward : ∀ r ∈ t, ∃ r' ∈ t', R r r' ∧ key r' = key r
  backward : ∀ r' ∈ t', (∃ r ∈ t, R r r' ∧ key r' = key r) ∨ (new r' ∧ ∀ r ∈ t, key r ≠ key r')

/-- An update whose every row change is an `R` step. -/
theorem follows_updateWhere {R : ρ → ρ → Prop} {new : ρ → Prop} {t : Table κ ρ key} {p : ρ → Bool}
    {f : ρ → ρ} (hf : ∀ r, key (f r) = key r) (h : ∀ r ∈ t, R r (if p r then f r else r)) :
    Follows R new t (t.updateWhere p f hf) := by
  have hkey : ∀ r, key (if p r then f r else r) = key r := by
    intro r
    split
    · exact hf r
    · rfl
  refine ⟨fun r hr => ⟨_, mem_updateWhere_of_mem hf hr, h r hr, hkey r⟩, fun r' hr' => .inl ?_⟩
  obtain ⟨r, hr, rfl⟩ := (mem_updateWhere hf).mp hr'
  exact ⟨r, hr, h r hr, hkey r⟩

/-- A table that did not change. -/
theorem follows_self {R : ρ → ρ → Prop} {new : ρ → Prop} {t : Table κ ρ key}
    (h : ∀ r ∈ t, R r r) : Follows R new t t :=
  ⟨fun r hr => ⟨r, hr, h r hr, rfl⟩, fun r hr => .inl ⟨r, hr, h r hr, rfl⟩⟩

/-- A table with one fresh row added. -/
theorem follows_insert [DecidableEq κ] {R : ρ → ρ → Prop} {new : ρ → Prop} {t : Table κ ρ key}
    {x : ρ} (hfresh : ∀ r ∈ t, key r ≠ key x) (hnew : new x) (h : ∀ r ∈ t, R r r) :
    Follows R new t (t.insert x) := by
  refine ⟨fun r hr => ⟨r, mem_insert_of_mem hr, h r hr, rfl⟩, fun r' hr' => ?_⟩
  rcases (mem_insert hfresh).mp hr' with hold | rfl
  · exact .inl ⟨r', hold, h r' hold, rfl⟩
  · exact .inr ⟨hnew, hfresh⟩

/-- What `Follows` says of the row under a key. -/
theorem Follows.get? [DecidableEq κ] {R : ρ → ρ → Prop} {new : ρ → Prop} {t t' : Table κ ρ key}
    (h : Follows R new t t') {k : κ} {r : ρ} (hr : t.get? k = some r) :
    ∃ r', t'.get? k = some r' ∧ R r r' := by
  obtain ⟨hmem, hkey⟩ := get?_eq_some_iff.mp hr
  obtain ⟨r', hmem', hR, hkey'⟩ := h.forward r hmem
  exact ⟨r', get?_eq_some_iff.mpr ⟨hmem', hkey'.trans hkey⟩, hR⟩

/-- No row is lost. -/
theorem Follows.get?_none [DecidableEq κ] {R : ρ → ρ → Prop} {new : ρ → Prop}
    {t t' : Table κ ρ key} (h : Follows R new t t') {k : κ} {r' : ρ} (hr : t.get? k = none)
    (hr' : t'.get? k = some r') : new r' := by
  obtain ⟨hmem', rfl⟩ := get?_eq_some_iff.mp hr'
  rcases h.backward r' hmem' with ⟨r, hmem, -, hkey⟩ | ⟨hnew, -⟩
  · exact absurd hkey.symm (get?_eq_none_iff.mp hr r hmem)
  · exact hnew

end Table

end TaskFleet
