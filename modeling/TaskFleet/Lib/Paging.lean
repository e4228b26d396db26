import Mathlib.Data.List.Nodup
import Mathlib.Data.List.Perm.Subperm
import Mathlib.Data.List.TakeDrop

/-!
# Paging by offset

A page of a list is what stands from an offset on, up to a limit, with a flag for
whether more follows; the flag is read off one row fetched beyond the limit. A reader
asks for the pages at `0`, `limit`, `2 * limit`, … until the flag is down, and appends
them. The list is read afresh at every call.

* **a fixed list** — the pages of one list are the list, in `⌈length / limit⌉` calls
  (`collect_page`);
* **a growing list** — in a list sorted by a strict order the place of an entry is the
  number of entries before it (`rank`). It only grows when the list does, so an entry
  that was there at the first call is never passed over (`collect_growing`).
-/

namespace TaskFleet.Paging

variable {α ε : Type}

/-- A page: one row more than the limit is fetched, shown by the flag and left out. -/
def page (limit : ℕ) (rows : List α) (offset : ℕ) : List α × Bool :=
  let fetched := (rows.drop offset).take (limit + 1)
  (fetched.take limit, limit < fetched.length)

theorem page_rows (limit : ℕ) (rows : List α) (offset : ℕ) :
    (page limit rows offset).1 = (rows.drop offset).take limit := by
  simp [page, List.take_take]

/-- The flag says whether the list goes on behind the page. -/
theorem page_more {limit : ℕ} {rows : List α} {offset : ℕ} :
    (page limit rows offset).2 = true ↔ offset + limit < rows.length := by
  simp only [page, List.length_take, List.length_drop, decide_eq_true_eq]
  omega

/-- What a reader has when the flag is down: `ask i` is the `i`th call. A refused call
ends it; `none` is out of fuel. -/
def collect (ask : ℕ → Except ε (List α × Bool)) : ℕ → ℕ → Option (Except ε (List α))
  | 0, _ => none
  | fuel + 1, i =>
      match ask i with
      | .error e => some (.error e)
      | .ok (rows, false) => some (.ok rows)
      | .ok (rows, true) => (collect ask fuel (i + 1)).map (Except.map (rows ++ ·))

section Calls

variable {ask : ℕ → Except ε (List α × Bool)} {fuel i : ℕ} {rows : List α}

theorem collect_refused {e : ε} (h : ask i = .error e) :
    collect ask (fuel + 1) i = some (.error e) := by
  simp [collect, h]

theorem collect_last (h : ask i = .ok (rows, false)) :
    collect ask (fuel + 1) i = some (.ok rows) := by
  simp [collect, h]

theorem collect_more (h : ask i = .ok (rows, true)) :
    collect ask (fuel + 1) i = (collect ask fuel (i + 1)).map (Except.map (rows ++ ·)) := by
  simp [collect, h]

end Calls

/-! ## A fixed list -/

/-- The calls from the `i`th on return what stands from its offset on. -/
theorem collect_page_from {limit : ℕ} {ask : ℕ → Except ε (List α × Bool)} {rows : List α}
    (hask : ∀ i, ask i = .ok (page limit rows (i * limit))) :
    ∀ fuel i, 0 < fuel → rows.length ≤ (i + fuel) * limit →
      collect ask fuel i = some (.ok (rows.drop (i * limit))) := by
  intro fuel
  induction fuel with
  | zero => exact fun _ h => absurd h (Nat.lt_irrefl 0)
  | succ fuel ih =>
      intro i _ hlength
      have hcall : ask i = .ok ((page limit rows (i * limit)).1, (page limit rows (i * limit)).2) :=
        hask i
      cases hmore : (page limit rows (i * limit)).2 with
      | false =>
          have hlast : ¬ i * limit + limit < rows.length := by
            rw [← page_more, hmore]
            exact Bool.false_ne_true
          rw [hmore, page_rows] at hcall
          rw [collect_last hcall, List.take_of_length_le (by rw [List.length_drop]; omega)]
      | true =>
          have hopen : i * limit + limit < rows.length := page_more.mp hmore
          -- some fuel is left, or the list would end with this page
          have hfuel : 0 < fuel := by
            refine Nat.pos_of_ne_zero fun hzero => ?_
            rw [hzero, Nat.zero_add, Nat.add_mul, Nat.one_mul] at hlength
            omega
          rw [hmore, page_rows] at hcall
          rw [collect_more hcall, ih (i + 1) hfuel (by rwa [Nat.add_right_comm])]
          show some (Except.ok ((rows.drop (i * limit)).take limit ++
            rows.drop ((i + 1) * limit))) = _
          rw [Nat.add_mul, Nat.one_mul, ← List.drop_drop, List.take_append_drop]

/-- **A fixed list.** As many calls as there are pages return it whole. -/
theorem collect_page (limit : ℕ) {ask : ℕ → Except ε (List α × Bool)} {rows : List α}
    (hask : ∀ i, ask i = .ok (page limit rows (i * limit))) {fuel : ℕ} (hpos : 0 < fuel)
    (hlength : rows.length ≤ fuel * limit) : collect ask fuel 0 = some (.ok rows) := by
  rw [collect_page_from hask fuel 0 hpos (by rwa [Nat.zero_add]), Nat.zero_mul, List.drop_zero]

/-! ## Rows that change under fixed keys -/

/-- The calls from the `i`th on return the rows of the keys from its offset on, each as it
was when it was read. -/
theorem collect_keyed_from {κ : Type} {limit : ℕ} {ask : ℕ → Except ε (List α × Bool)}
    {f : α → κ} {keys : List κ} {P : α → Prop}
    (hask : ∀ i, ∃ rows, ask i = .ok (page limit rows (i * limit)) ∧ rows.map f = keys ∧
      ∀ r ∈ rows, P r) :
    ∀ fuel i, 0 < fuel → keys.length ≤ (i + fuel) * limit →
      ∃ rows, collect ask fuel i = some (.ok rows) ∧ rows.map f = keys.drop (i * limit) ∧
        ∀ r ∈ rows, P r := by
  intro fuel
  induction fuel with
  | zero => exact fun _ h => absurd h (Nat.lt_irrefl 0)
  | succ fuel ih =>
      intro i _ hlength
      obtain ⟨rows, hcall, hkeys, hP⟩ := hask i
      have hsame : rows.length = keys.length := by rw [← hkeys, List.length_map]
      have hread : ∀ r ∈ (rows.drop (i * limit)).take limit, P r := fun r hr =>
        hP r (List.mem_of_mem_drop (List.mem_of_mem_take hr))
      have hpage : ask i = .ok ((page limit rows (i * limit)).1, (page limit rows (i * limit)).2) :=
        hcall
      cases hmore : (page limit rows (i * limit)).2 with
      | false =>
          have hlast : ¬ i * limit + limit < rows.length := by
            rw [← page_more, hmore]
            exact Bool.false_ne_true
          rw [hmore, page_rows] at hpage
          refine ⟨_, collect_last hpage, ?_, hread⟩
          rw [List.take_of_length_le (by rw [List.length_drop]; omega), List.map_drop, hkeys]
      | true =>
          have hopen : i * limit + limit < rows.length := page_more.mp hmore
          have hfuel : 0 < fuel := by
            refine Nat.pos_of_ne_zero fun hzero => ?_
            rw [hzero, Nat.zero_add, Nat.add_mul, Nat.one_mul] at hlength
            omega
          obtain ⟨rest, hrest, hkeysRest, hPRest⟩ := ih (i + 1) hfuel (by rwa [Nat.add_right_comm])
          rw [hmore, page_rows] at hpage
          refine ⟨(rows.drop (i * limit)).take limit ++ rest, ?_, ?_, ?_⟩
          · rw [collect_more hpage, hrest]
            rfl
          · rw [List.map_append, hkeysRest, List.map_take, List.map_drop, hkeys, Nat.add_mul,
              Nat.one_mul, ← List.drop_drop, List.take_append_drop]
          · intro r hr
            rcases List.mem_append.mp hr with hfirst | hlater
            · exact hread r hfirst
            · exact hPRest r hlater

/-- **Fixed keys.** As many calls as there are pages return one row under every key. -/
theorem collect_keyed {κ : Type} (limit : ℕ) {ask : ℕ → Except ε (List α × Bool)} {f : α → κ}
    {keys : List κ} {P : α → Prop}
    (hask : ∀ i, ∃ rows, ask i = .ok (page limit rows (i * limit)) ∧ rows.map f = keys ∧
      ∀ r ∈ rows, P r) {fuel : ℕ} (hpos : 0 < fuel) (hlength : keys.length ≤ fuel * limit) :
    ∃ rows, collect ask fuel 0 = some (.ok rows) ∧ rows.map f = keys ∧ ∀ r ∈ rows, P r := by
  obtain ⟨rows, hrows, hkeys, hP⟩ :=
    collect_keyed_from hask fuel 0 hpos (by rwa [Nat.zero_add])
  rw [Nat.zero_mul, List.drop_zero] at hkeys
  exact ⟨rows, hrows, hkeys, hP⟩

/-! ## A growing list -/

variable (r : α → α → Prop) [DecidableRel r]

/-- How many entries stand before `x`. -/
def rank (rows : List α) (x : α) : ℕ := rows.countP fun a => r a x

variable {r}

/-- In a strictly sorted list the rank is the place. -/
theorem split_at_rank (hasymm : ∀ a b, r a b → ¬ r b a) {rows : List α} (hsorted : rows.Pairwise r)
    {x : α} (hx : x ∈ rows) :
    ∃ before after, rows = before ++ x :: after ∧ before.length = rank r rows x := by
  obtain ⟨before, after, rfl⟩ := List.append_of_mem hx
  refine ⟨before, after, rfl, ?_⟩
  obtain ⟨-, htail, hcross⟩ := List.pairwise_append.mp hsorted
  have hbefore : before.countP (fun a => r a x) = before.length :=
    List.countP_eq_length.mpr fun a ha => decide_eq_true (hcross a ha x List.mem_cons_self)
  have hafter : (x :: after).countP (fun a => r a x) = 0 := by
    refine List.countP_eq_zero.mpr fun a ha hbad => ?_
    have hax : r a x := of_decide_eq_true hbad
    rcases List.mem_cons.mp ha with rfl | ha
    · exact hasymm a a hax hax
    · exact hasymm a x hax (List.rel_of_pairwise_cons htail ha)
  rw [rank, List.countP_append, hbefore, hafter, Nat.add_zero]

theorem rank_lt_length (hasymm : ∀ a b, r a b → ¬ r b a) {rows : List α}
    (hsorted : rows.Pairwise r) {x : α} (hx : x ∈ rows) : rank r rows x < rows.length := by
  obtain ⟨before, after, hrows, hlength⟩ := split_at_rank hasymm hsorted hx
  rw [← hlength, hrows, List.length_append, List.length_cons]
  omega

/-- A page holds the entries whose rank lies in it. -/
theorem mem_page (hasymm : ∀ a b, r a b → ¬ r b a) {rows : List α} (hsorted : rows.Pairwise r)
    {x : α} (hx : x ∈ rows) {offset limit : ℕ} (hfrom : offset ≤ rank r rows x)
    (hto : rank r rows x < offset + limit) : x ∈ (page limit rows offset).1 := by
  obtain ⟨before, after, hrows, hlength⟩ := split_at_rank hasymm hsorted hx
  rw [page_rows, hrows, List.drop_append_of_le_length (by omega),
    List.take_append, List.length_drop]
  obtain ⟨n, hn⟩ : ∃ n, limit - (before.length - offset) = n + 1 :=
    ⟨limit - (before.length - offset) - 1, by omega⟩
  rw [hn, List.take_succ_cons]
  exact List.mem_append_right _ List.mem_cons_self

/-- No entry moves forward when the list grows. -/
theorem rank_mono (hirrefl : ∀ a, ¬ r a a) {rows rows' : List α} (hsorted : rows.Pairwise r)
    (hgrow : rows ⊆ rows') (x : α) : rank r rows x ≤ rank r rows' x := by
  have hne : ∀ a b, r a b → a ≠ b := by
    rintro a b hab rfl
    exact hirrefl a hab
  have hnodup : rows.Nodup := hsorted.imp (hne _ _)
  exact (List.subperm_of_subset hnodup hgrow).countP_le _

/-- From the `i`th call on, every entry that has no page behind it yet is collected. -/
theorem collect_growing_from (hasymm : ∀ a b, r a b → ¬ r b a) {limit : ℕ} {lists : ℕ → List α}
    (hsorted : ∀ i, (lists i).Pairwise r) (hgrow : ∀ i, lists i ⊆ lists (i + 1))
    {ask : ℕ → Except ε (List α × Bool)}
    (hask : ∀ i, ask i = .ok (page limit (lists i) (i * limit))) :
    ∀ fuel i out, collect ask fuel i = some out → ∃ collected, out = .ok collected ∧
      ∀ x ∈ lists i, i * limit ≤ rank r (lists i) x → x ∈ collected := by
  have hirrefl : ∀ a, ¬ r a a := fun a h => hasymm a a h h
  intro fuel
  induction fuel with
  | zero =>
      intro i out h
      cases h
  | succ fuel ih =>
      intro i out hout
      have hcall : ask i = .ok ((page limit (lists i) (i * limit)).1,
        (page limit (lists i) (i * limit)).2) := hask i
      cases hmore : (page limit (lists i) (i * limit)).2 with
      | false =>
          have hlast : ¬ i * limit + limit < (lists i).length := by
            rw [← page_more, hmore]
            exact Bool.false_ne_true
          rw [hmore] at hcall
          rw [collect_last hcall, Option.some.injEq] at hout
          refine ⟨_, hout.symm, fun x hx hfrom => ?_⟩
          have hlt := rank_lt_length hasymm (hsorted i) hx
          exact mem_page hasymm (hsorted i) hx hfrom (by omega)
      | true =>
          rw [hmore] at hcall
          rw [collect_more hcall, Option.map_eq_some_iff] at hout
          obtain ⟨rest, hrest, rfl⟩ := hout
          obtain ⟨collected, rfl, hcollected⟩ := ih (i + 1) rest hrest
          refine ⟨_, rfl, fun x hx hfrom => ?_⟩
          by_cases hhere : rank r (lists i) x < i * limit + limit
          · exact List.mem_append_left _ (mem_page hasymm (hsorted i) hx hfrom hhere)
          · -- behind this page now, and no further to the front at the next call
            refine List.mem_append_right _ (hcollected x (hgrow i hx) ?_)
            have hmono := rank_mono hirrefl (hsorted i) (hgrow i) x
            rw [Nat.add_mul, Nat.one_mul]
            omega

/-- **A growing list.** Whatever is added between the calls, what was in the list at the
first call is collected. -/
theorem collect_growing (hasymm : ∀ a b, r a b → ¬ r b a) (limit : ℕ) {lists : ℕ → List α}
    (hsorted : ∀ i, (lists i).Pairwise r) (hgrow : ∀ i, lists i ⊆ lists (i + 1))
    {ask : ℕ → Except ε (List α × Bool)}
    (hask : ∀ i, ask i = .ok (page limit (lists i) (i * limit)))
    {fuel : ℕ} {out : Except ε (List α)} (hout : collect ask fuel 0 = some out) :
    ∃ collected, out = .ok collected ∧ ∀ x ∈ lists 0, x ∈ collected := by
  obtain ⟨collected, rfl, hcollected⟩ :=
    collect_growing_from hasymm hsorted hgrow hask fuel 0 out hout
  refine ⟨collected, rfl, fun x hx => hcollected x hx ?_⟩
  rw [Nat.zero_mul]
  exact Nat.zero_le _

end TaskFleet.Paging
