import TaskFleet.Model.Listing
import Mathlib.Logic.Relation

/-!
# Paging through the task listing is complete

`created_at` does not order the tasks: one bulk enqueue stamps all of its rows alike. The
id behind it does, so that the listing is sorted by a strict order and a row's place in it
is the number of rows before it. An enqueue can only push a row back, towards the pages
still to be read.
-/

namespace TaskFleet.Model

open Py

/-- Newest first, and of one age the larger id first. -/
def TaskSummary.newer (a b : TaskSummary) : Prop :=
  b.createdAt < a.createdAt ∨ (a.createdAt = b.createdAt ∧ b.id.int < a.id.int)

instance : DecidableRel TaskSummary.newer := fun _ _ =>
  inferInstanceAs (Decidable (_ ∨ _))

theorem TaskSummary.newer_asymm (a b : TaskSummary) (h : a.newer b) : ¬ b.newer a := by
  rintro (hlt | ⟨heq, hlt⟩) <;> rcases h with h | ⟨he, h⟩
  · exact lt_asymm hlt h
  · exact hlt.ne he
  · exact h.ne heq
  · omega

theorem eq_of_int_eq {u v : Uuid} (h : u.int = v.int) : u = v := by
  cases u
  cases h
  rfl

theorem listOrder_total (a b : Task) : listOrder a b ∨ listOrder b a := by
  rcases lt_trichotomy a.createdAt b.createdAt with h | h | h
  · exact .inr (.inl h)
  · rcases Nat.le_total a.id.int b.id.int with hid | hid
    · exact .inr (.inr ⟨h.symm, hid⟩)
    · exact .inl (.inr ⟨h, hid⟩)
  · exact .inl (.inl h)

theorem listOrder_trans (a b c : Task) (h : listOrder a b) (h' : listOrder b c) :
    listOrder a c := by
  rcases h with h | ⟨heq, h⟩ <;> rcases h' with h' | ⟨heq', h'⟩
  · exact .inl (h'.trans h)
  · exact .inl (heq' ▸ h)
  · exact .inl (heq ▸ h')
  · exact .inr ⟨heq.trans heq', h'.trans h⟩

/-- The listing is strictly sorted: two rows never tie. -/
theorem listedRows_sorted (db : Db) (query : ListQuery) :
    (listedRows db query).Pairwise fun a b => a.summary.newer b.summary := by
  have : Std.Total listOrder := ⟨listOrder_total⟩
  have : IsTrans Task listOrder := ⟨listOrder_trans⟩
  have hsorted : (listedRows db query).Pairwise listOrder := List.pairwise_insertionSort _ _
  have hdistinct : (listedRows db query).Pairwise fun a b => a.id ≠ b.id :=
    List.pairwise_map.mp (listedRows_nodup db query)
  refine (hsorted.and hdistinct).imp ?_
  rintro a b ⟨hlt | ⟨heq, hle⟩, hne⟩
  · exact .inl hlt
  · exact .inr ⟨heq, lt_of_le_of_ne hle fun hint => hne (eq_of_int_eq hint.symm)⟩

/-- The summaries of the listing are sorted as well. -/
theorem summaries_sorted (db : Db) (query : ListQuery) :
    ((listedRows db query).map Task.summary).Pairwise TaskSummary.newer :=
  List.pairwise_map.mpr (listedRows_sorted db query)

/-! ## Enqueues between two calls -/

/-- One accepted enqueue. -/
def Enqueues (schemas : Schemas) (db db' : Db) : Prop :=
  ∃ now id req, enqueue schemas db now id req = .ok db'

/-- Any number of them, those of a bulk enqueue at one time included. -/
def OnlyEnqueues (schemas : Schemas) : Db → Db → Prop :=
  Relation.ReflTransGen (Enqueues schemas)

/-- An enqueue keeps every row as it is. -/
theorem Enqueues.mem {schemas : Schemas} {db db' : Db} (h : Enqueues schemas db db') {t : Task}
    (ht : t ∈ db.tasks) : t ∈ db'.tasks := by
  obtain ⟨now, id, req, henqueue⟩ := h
  unfold enqueue at henqueue
  split at henqueue
  · cases henqueue
  · rw [← Except.ok.inj henqueue]
    exact Table.mem_insert_of_mem ht

theorem OnlyEnqueues.mem {schemas : Schemas} {db db' : Db} (h : OnlyEnqueues schemas db db')
    {t : Task} (ht : t ∈ db.tasks) : t ∈ db'.tasks := by
  induction h with
  | refl => exact ht
  | tail _ hstep ih => exact hstep.mem ih

/-- The listing only grows. -/
theorem OnlyEnqueues.summaries_subset {schemas : Schemas} {db db' : Db}
    (h : OnlyEnqueues schemas db db') (query : ListQuery) :
    (listedRows db query).map Task.summary ⊆ (listedRows db' query).map Task.summary := by
  refine List.map_subset _ fun t ht => ?_
  obtain ⟨hin, hfilter⟩ := mem_listedRows.mp ht
  exact mem_listedRows.mpr ⟨h.mem hin, hfilter⟩

/-- **Paging is complete.** With filters that are refused every paging is refused at its
first call. With any others it ends, after one call or as many as there are pages, with
exactly the matching rows in order and none twice; and whatever is enqueued between the
calls, none that matched at the first one is missing at the end. -/
theorem paging_complete (schemas : Schemas) (db : Db) (query : ListQuery) {limit maxLimit : Int}
    (hlimit : 1 ≤ limit) (hmax : limit ≤ maxLimit) :
    (∀ refusal, query.refusal = some refusal → ∀ dbs fuel,
      listAll dbs query limit maxLimit (fuel + 1) = some (.error refusal)) ∧
    (query.refusal = none →
      (∃ rows : List Task,
        (∀ t, t ∈ rows ↔ t ∈ db.tasks ∧ (query.filter t).holds = true) ∧
        (rows.map Task.id).Nodup ∧
        rows.Pairwise (fun a b => a.summary.newer b.summary) ∧
        ∀ fuel : ℕ, 0 < fuel → (rows.length : Int) ≤ fuel * limit →
          listAll (fun _ => db) query limit maxLimit fuel =
            some (.ok (rows.map Task.summary))) ∧
      ∀ dbs : ℕ → Db, dbs 0 = db → (∀ i, OnlyEnqueues schemas (dbs i) (dbs (i + 1))) →
        ∀ fuel out, listAll dbs query limit maxLimit fuel = some out →
          ∃ listed, out = .ok listed ∧
            ∀ t ∈ db.tasks, (query.filter t).holds = true → t.summary ∈ listed) := by
  have hcall : ∀ (dbs : ℕ → Db) (i : ℕ), listTasks (dbs i) query limit (i * limit) maxLimit = _ :=
    fun dbs i => listTasks_eq (dbs i) query hlimit hmax i
  refine ⟨fun refusal hrefusal dbs fuel => ?_, fun hrefusal => ⟨?_, ?_⟩⟩
  · refine Paging.collect_refused ?_
    rw [hcall, hrefusal]
  · refine ⟨listedRows db query, fun t => mem_listedRows, listedRows_nodup db query,
      listedRows_sorted db query, fun fuel hpos hlength => ?_⟩
    obtain ⟨n, rfl⟩ := Int.eq_ofNat_of_zero_le (show 0 ≤ limit by omega)
    refine Paging.collect_page n (fun i => ?_) hpos ?_
    · rw [hcall (fun _ => db), hrefusal]
      rfl
    · rw [List.length_map]
      exact_mod_cast hlength
  · intro dbs hfirst honly fuel out hout
    obtain ⟨listed, rfl, hlisted⟩ := Paging.collect_growing
      TaskSummary.newer_asymm limit.toNat (fun i => summaries_sorted (dbs i) query)
      (fun i => (honly i).summaries_subset query)
      (fun i => by rw [hcall, hrefusal]) hout
    refine ⟨listed, rfl, fun t ht hfilter => hlisted _ (List.mem_map_of_mem ?_)⟩
    rw [hfirst]
    exact mem_listedRows.mpr ⟨ht, hfilter⟩

/-- A bulk enqueue of four tasks: one creation time. -/
def bulkDb : Db :=
  { Db.empty with
    tasks := (((Table.empty.insert (bulkRow 1)).insert (bulkRow 3)).insert (bulkRow 0)).insert
      (bulkRow 2) }
where
  bulkRow (n : Fin 4) : Task :=
    queuedRow 0 ⟨n, n.isLt.trans (by decide)⟩ .sleep .null none 0 "req"

/-- Of the bulk enqueue, in pages of two. -/
theorem paging_complete_bulk : bulkDb.tasks.rows.map Task.createdAt = [0, 0, 0, 0] ∧
    ∃ rows : List Task,
      (∀ t, t ∈ rows ↔ t ∈ bulkDb.tasks ∧ (({} : ListQuery).filter t).holds = true) ∧
      (rows.map Task.id).Nodup ∧
      rows.Pairwise (fun a b => a.summary.newer b.summary) ∧
      ∀ fuel : ℕ, 0 < fuel → (rows.length : Int) ≤ fuel * 2 →
        listAll (fun _ => bulkDb) {} 2 200 fuel = some (.ok (rows.map Task.summary)) :=
  ⟨rfl, ((paging_complete (fun _ _ => none) bulkDb {} (by decide) (by decide)).2 rfl).1⟩

/-- Its second page is full and the last: no third call is made. -/
example : (listAll (fun _ => bulkDb) {} 2 200 2).map
    (fun out => out.toOption.map (List.map fun t : TaskSummary => t.id.int)) =
      some (some [3, 2, 1, 0]) := by
  decide +kernel

end TaskFleet.Model
