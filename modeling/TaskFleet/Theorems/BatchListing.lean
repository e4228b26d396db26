import TaskFleet.Logic.RowSteps
import TaskFleet.Model.EnqueueBatch
import TaskFleet.Model.Listing

/-!
# A correlation id lists exactly its batch

`POST /tasks` does not return the ids of a bulk create; it returns a correlation id to list
them by. The listing filters and sorts by columns no transaction ever writes again, so it
pages over the same ids in the same order while the tasks are claimed, run, end and are
retried between two calls.
-/

namespace TaskFleet.Model

open Py Sql

section

variable {cfg : Config} {schemas : Schemas} {db db' : Db} {e : Event} {es : List Event}

/-- The columns an enqueue writes for good. -/
structure Task.SameOrigin (t t' : Task) : Prop where
  id : t'.id = t.id
  correlationId : t'.correlationId = t.correlationId
  createdAt : t'.createdAt = t.createdAt
  taskType : t'.taskType = t.taskType
  parameters : t'.parameters = t.parameters
  payload : t'.payload = t.payload
  priority : t'.priority = t.priority

/-- No transaction writes them again. -/
theorem RowStep.sameOrigin {t t' : Task} (h : RowStep cfg db e t t') : t.SameOrigin t' := by
  cases h <;> exact ⟨rfl, rfl, rfl, rfl, rfl, rfl, rfl⟩

/-- The row `t` is the batch's row for its id. -/
def OfBatch (now : Seconds) (req : EnqueueRequest) (t : Task) : Prop :=
  t.correlationId = req.correlationId ∧ t.createdAt = now ∧ t.taskType.name = req.taskType ∧
    t.payload = req.payload ∧ t.priority = req.priority

/-- The rows with the batch's correlation id are the batch. -/
structure HasBatch (now : Seconds) (req : EnqueueRequest) (new : List Uuid) (db : Db) : Prop where
  only : ∀ t ∈ db.tasks, t.correlationId = req.correlationId → t.id ∈ new
  all : ∀ id ∈ new, ∃ t ∈ db.tasks, t.id = id ∧ OfBatch now req t

/-- The event does not enqueue under the correlation id. -/
def Event.Avoids (correlationId : String) (e : Event) : Prop :=
  ∀ id req, e.op = .enqueue id req → req.correlationId ≠ correlationId

variable {now : Seconds} {req : EnqueueRequest} {new : List Uuid}

/-- One step keeps the batch together. -/
theorem HasBatch.step (h : HasBatch now req new db) (hs : (queue cfg schemas).step db e db')
    (he : e.Avoids req.correlationId) : HasBatch now req new db' := by
  constructor
  · intro t' ht' hc
    rcases (step_rows hs).backward t' ht' with ⟨t, ht, hrow, -⟩ | ⟨hnew, -⟩
    · have horigin := hrow.sameOrigin
      rw [horigin.correlationId] at hc
      rw [horigin.id]
      exact h.only t ht hc
    · obtain ⟨req', taskType, parameters, hop, -, heq⟩ := hnew
      rw [heq] at hc
      exact absurd hc (he _ _ hop)
  · intro id hid
    obtain ⟨t, ht, rfl, hc, hnow, htype, hpayload, hpriority⟩ := h.all id hid
    obtain ⟨t', ht', hrow, -⟩ := (step_rows hs).forward t ht
    have horigin := hrow.sameOrigin
    refine ⟨t', ht', horigin.id, ?_, ?_, ?_, ?_, ?_⟩
    · rw [horigin.correlationId, hc]
    · rw [horigin.createdAt, hnow]
    · rw [horigin.taskType, htype]
    · rw [horigin.payload, hpayload]
    · rw [horigin.priority, hpriority]

theorem HasBatch.trace (h : HasBatch now req new db) (htrace : (queue cfg schemas).Trace db es db')
    (hall : ∀ e ∈ es, e.Avoids req.correlationId) : HasBatch now req new db' := by
  induction htrace with
  | nil => exact h
  | @snoc es u v e _ hs ih =>
      have hfirst := ih fun f hf => hall f (List.mem_append_left _ hf)
      exact hfirst.step hs (hall e (List.mem_append_right _ List.mem_cons_self))

/-- Rows that are inserted are there, and so are those that were. -/
theorem mem_insertRows : ∀ (rows : List Task) (tasks : Tasks), (rows.map Task.id).Nodup →
    (∀ r ∈ rows, ∀ t ∈ tasks, t.id ≠ r.id) → ∀ {t : Task},
      t ∈ insertRows tasks rows ↔ t ∈ tasks ∨ t ∈ rows := by
  intro rows
  induction rows with
  | nil =>
      intro tasks _ _ t
      rw [insertRows, List.foldl_nil]
      simp
  | cons r rows ih =>
      intro tasks hnodup hfresh t
      rw [List.map_cons, List.nodup_cons] at hnodup
      have hr : ∀ x ∈ tasks, x.id ≠ r.id := hfresh r List.mem_cons_self
      have hrest : ∀ r' ∈ rows, ∀ x ∈ tasks.insert r, x.id ≠ r'.id := by
        intro r' hr' x hx
        rcases (Table.mem_insert hr).mp hx with hold | rfl
        · exact hfresh r' (List.mem_cons_of_mem r hr') x hold
        · intro heq
          exact hnodup.1 (List.mem_map.mpr ⟨r', hr', heq.symm⟩)
      have hstep : insertRows tasks (r :: rows) = insertRows (tasks.insert r) rows := rfl
      rw [hstep, ih (tasks.insert r) hnodup.2 hrest, Table.mem_insert hr, List.mem_cons, or_assoc]

/-- The batch is there once its transaction is committed. -/
theorem hasBatch_of_enqueueBatch {ids : ℕ → Uuid} {count maxBatch : Int}
    (h : enqueueBatch schemas db now ids count maxBatch req = .ok (db', new))
    (hfresh : FreshIds db ids count.toNat)
    (hunused : ∀ t ∈ db.tasks, t.correlationId ≠ req.correlationId) :
    HasBatch now req new db' ∧ new.Nodup ∧ (new.length : Int) = count := by
  obtain ⟨hone, -, rfl, taskType, parameters, hvalid, rfl⟩ := enqueueBatch_eq_ok h
  obtain ⟨hnodup, hfree⟩ := hfresh.batch
  let new := (List.range count.toNat).map ids
  let rows := new.map fun id =>
    queuedRow now id taskType parameters req.payload req.priority req.correlationId
  have hids : rows.map Task.id = new := by
    rw [List.map_map]
    exact List.map_id' new
  have hmem : ∀ {t : Task}, t ∈ insertRows db.tasks rows ↔ t ∈ db.tasks ∨ t ∈ rows := by
    refine mem_insertRows rows db.tasks (hids ▸ hnodup) ?_
    intro r hr t ht
    obtain ⟨id, hid, rfl⟩ := List.mem_map.mp hr
    exact Table.get?_eq_none_iff.mp (hfree id hid) t ht
  have hname : taskType.name = req.taskType := by
    unfold validateParameters at hvalid
    split at hvalid
    · cases hvalid
    · next t hof =>
        split at hvalid
        · cases hvalid
        · cases hvalid
          have hfound := List.find?_some hof
          exact of_decide_eq_true hfound
  refine ⟨⟨fun t ht hc => ?_, fun id hid => ?_⟩, hnodup, ?_⟩
  · rcases hmem.mp ht with hold | hrow
    · exact absurd hc (hunused t hold)
    · have hin : t.id ∈ rows.map Task.id := List.mem_map_of_mem hrow
      rwa [hids] at hin
  · exact ⟨_, hmem.mpr (.inr (List.mem_map_of_mem hid)), rfl, rfl, rfl, hname, rfl, rfl⟩
  · rw [List.length_map, List.length_range]
    omega

/-- The query that lists the batch. -/
def batchQuery (req : EnqueueRequest) : ListQuery := { correlationId := some req.correlationId }

theorem batchQuery_holds {t : Task} :
    ((batchQuery req).filter t).holds = true ↔ t.correlationId = req.correlationId := by
  simp [batchQuery, ListQuery.filter, Tri.holds_and, test_holds]

/-- **The listing is the batch**, sorted by id, whatever became of its tasks. -/
theorem HasBatch.listed (h : HasBatch now req new db) (hnodup : new.Nodup) :
    (listedRows db (batchQuery req)).map Task.id = new.insertionSort (fun u v => v.int ≤ u.int) ∧
      ∀ t ∈ listedRows db (batchQuery req), OfBatch now req t := by
  have hbatch : ∀ t ∈ listedRows db (batchQuery req), OfBatch now req t := by
    intro t ht
    obtain ⟨hmem, hc⟩ := mem_listedRows.mp ht
    obtain ⟨u, hu, hid, hof⟩ := h.all t.id (h.only t hmem (batchQuery_holds.mp hc))
    rw [Table.eq_of_key hmem hu hid.symm]
    exact hof
  refine ⟨?_, hbatch⟩
  have hperm : ((listedRows db (batchQuery req)).map Task.id).Perm
      (new.insertionSort fun u v => v.int ≤ u.int) := by
    refine List.Perm.trans ?_ (List.perm_insertionSort _ new).symm
    rw [List.perm_ext_iff_of_nodup (listedRows_nodup db _) hnodup]
    intro id
    constructor
    · intro hid
      obtain ⟨t, ht, rfl⟩ := List.mem_map.mp hid
      obtain ⟨hmem, hc⟩ := mem_listedRows.mp ht
      exact h.only t hmem (batchQuery_holds.mp hc)
    · intro hid
      obtain ⟨t, ht, rfl, hof⟩ := h.all id hid
      exact List.mem_map_of_mem (mem_listedRows.mpr ⟨ht, batchQuery_holds.mpr hof.1⟩)
  have hbyId : ((listedRows db (batchQuery req)).map Task.id).Pairwise
      fun u v => v.int ≤ u.int := by
    -- of rows created at one time the larger id comes first
    have hsorted : (listedRows db (batchQuery req)).Pairwise listOrder := by
      have htotal : Std.Total listOrder := ⟨fun a b => by
        rcases lt_trichotomy a.createdAt b.createdAt with hlt | heq | hgt
        · exact .inr (.inl hlt)
        · rcases Nat.le_total a.id.int b.id.int with hle | hle
          · exact .inr (.inr ⟨heq.symm, hle⟩)
          · exact .inl (.inr ⟨heq, hle⟩)
        · exact .inl (.inl hgt)⟩
      have htrans : IsTrans Task listOrder := ⟨fun a b c hab hbc => by
        rcases hab with hab | ⟨hab, hid⟩ <;> rcases hbc with hbc | ⟨hbc, hid'⟩
        · exact .inl (hbc.trans hab)
        · exact .inl (hbc ▸ hab)
        · exact .inl (hab ▸ hbc)
        · exact .inr ⟨hab.trans hbc, hid'.trans hid⟩⟩
      exact List.pairwise_insertionSort _ _
    refine List.pairwise_map.mpr (hsorted.imp_of_mem fun {a b} ha hb hab => ?_)
    rcases hab with hlt | ⟨-, hle⟩
    · rw [(hbatch a ha).2.1, (hbatch b hb).2.1] at hlt
      exact absurd hlt (lt_irrefl now)
    · exact hle
  have htotal : Std.Total fun u v : Uuid => v.int ≤ u.int :=
    ⟨fun u v => Nat.le_total v.int u.int⟩
  have htrans : IsTrans Uuid fun u v => v.int ≤ u.int := ⟨fun _ _ _ h h' => h'.trans h⟩
  refine List.Perm.eq_of_pairwise ?_ hbyId (List.pairwise_insertionSort _ new) hperm
  intro u v _ _ huv hvu
  have hint : u.int = v.int := Nat.le_antisymm hvu huv
  cases u
  cases v
  cases hint
  rfl

/-- Whatever happens between two calls, without an enqueue under the correlation id. -/
def Meanwhile (cfg : Config) (schemas : Schemas) (correlationId : String) (db db' : Db) : Prop :=
  ∃ es, (queue cfg schemas).Trace db es db' ∧ ∀ e ∈ es, e.Avoids correlationId

/-- **Batches can be listed.** Let a bulk enqueue of any accepted size be committed under a
correlation id no row has. Page through `GET /tasks?correlation_id=…` at any later time and
at any page size, with any transactions between two calls but enqueues under the same id:
the pages together name exactly the created tasks, each once, and the number of them is the
number asked for. -/
theorem batch_listing {ids : ℕ → Uuid} {count maxBatch : Int}
    (h : enqueueBatch schemas db now ids count maxBatch req = .ok (db', new))
    (hfresh : FreshIds db ids count.toNat)
    (hunused : ∀ t ∈ db.tasks, t.correlationId ≠ req.correlationId) {dbs : ℕ → Db}
    (hstart : Meanwhile cfg schemas req.correlationId db' (dbs 0))
    (hsteps : ∀ i, Meanwhile cfg schemas req.correlationId (dbs i) (dbs (i + 1)))
    {limit maxLimit : Int} (hlimit : 1 ≤ limit) (hmax : limit ≤ maxLimit) {fuel : ℕ}
    (hpos : 0 < fuel) (hfuel : new.length ≤ fuel * limit.toNat) :
    ∃ rows, listAll dbs (batchQuery req) limit maxLimit fuel = some (.ok rows) ∧
      (rows.map TaskSummary.id).Perm new ∧ (rows.length : Int) = count ∧
      ∀ r ∈ rows, r.taskType.name = req.taskType ∧ r.priority = req.priority ∧
        r.correlationId = req.correlationId ∧ r.createdAt = now := by
  obtain ⟨hbatch, hnodup, hcount⟩ := hasBatch_of_enqueueBatch h hfresh hunused
  have hmeanwhile : ∀ {a b : Db}, Meanwhile cfg schemas req.correlationId a b →
      HasBatch now req new a → HasBatch now req new b := by
    rintro a b ⟨es, htrace, hall⟩ ha
    exact ha.trace htrace hall
  have hevery : ∀ i, HasBatch now req new (dbs i) := by
    intro i
    induction i with
    | zero => exact hmeanwhile hstart hbatch
    | succ i ih => exact hmeanwhile (hsteps i) ih
  let keys := new.insertionSort fun u v => v.int ≤ u.int
  have hkeys : keys.length = new.length := (List.perm_insertionSort _ new).length_eq
  have hcall : ∀ i, ∃ rows, listTasks (dbs i) (batchQuery req) limit (i * limit) maxLimit =
      .ok (Paging.page limit.toNat rows (i * limit.toNat)) ∧ rows.map TaskSummary.id = keys ∧
      ∀ r ∈ rows, r.taskType.name = req.taskType ∧ r.priority = req.priority ∧
        r.correlationId = req.correlationId ∧ r.createdAt = now := by
    intro i
    obtain ⟨hids, hof⟩ := (hevery i).listed hnodup
    refine ⟨(listedRows (dbs i) (batchQuery req)).map Task.summary, ?_, ?_, ?_⟩
    · rw [listTasks_eq (dbs i) (batchQuery req) hlimit hmax i]
      rfl
    · rw [List.map_map]
      exact hids
    · intro r hr
      obtain ⟨t, ht, rfl⟩ := List.mem_map.mp hr
      obtain ⟨hc, hnow, htype, -, hpriority⟩ := hof t ht
      exact ⟨htype, hpriority, hc, hnow⟩
  obtain ⟨rows, hrows, hrowKeys, hP⟩ := Paging.collect_keyed limit.toNat hcall hpos
    (hkeys ▸ hfuel)
  have hperm : (rows.map TaskSummary.id).Perm new := by
    rw [hrowKeys]
    exact List.perm_insertionSort _ new
  refine ⟨rows, hrows, hperm, ?_, hP⟩
  rw [← hcount, ← hperm.length_eq, List.length_map]

end

/-- Two tasks in one call, listed one by one while the first of them is claimed. -/
theorem batch_listing_demo :
    let req : EnqueueRequest := { taskType := "sleep", correlationId := "bulk" }
    ∃ db', enqueueBatch Demo.schemas .empty 0 Demo.drawn 2 10000 req =
        .ok (db', [Demo.task, Demo.otherWorker]) ∧
      ∃ dbs : ℕ → Db, dbs 0 = db' ∧
        dbs 1 = (apply {} Demo.schemas db' 1 (.dequeue Demo.worker 1 100 none [])).1 ∧
        ∃ rows, listAll dbs (batchQuery req) 1 200 2 = some (.ok rows) ∧
          (rows.map TaskSummary.id).Perm [Demo.task, Demo.otherWorker] := by
  intro req
  obtain ⟨db', hok⟩ : ∃ db', enqueueBatch Demo.schemas .empty 0 Demo.drawn 2 10000 req =
    .ok (db', [Demo.task, Demo.otherWorker]) := ⟨_, rfl⟩
  let claimed := (apply {} Demo.schemas db' 1 (.dequeue Demo.worker 1 100 none [])).1
  let dbs : ℕ → Db := fun i => if i = 0 then db' else claimed
  have hclaim : Meanwhile {} Demo.schemas "bulk" db' claimed := by
    have hstep : (queue {} Demo.schemas).step db' ⟨1, .dequeue Demo.worker 1 100 none [],
        (apply {} Demo.schemas db' 1 (.dequeue Demo.worker 1 100 none [])).2⟩ claimed :=
      queue_step trivial
    refine ⟨_, .single hstep, fun e he id req' hop => ?_⟩
    rw [List.mem_singleton.mp he] at hop
    cases hop
  have hnothing : ∀ db, Meanwhile {} Demo.schemas "bulk" db db :=
    fun db => ⟨[], .nil, fun e he => absurd he List.not_mem_nil⟩
  have hsteps : ∀ i, Meanwhile {} Demo.schemas "bulk" (dbs i) (dbs (i + 1)) := by
    intro i
    cases i with
    | zero => exact hclaim
    | succ i => exact hnothing claimed
  have hone : (1 : Int) ≤ 1 := le_refl _
  have hmax : (1 : Int) ≤ 200 := by decide
  have hfuel : [Demo.task, Demo.otherWorker].length ≤ 2 * (1 : Int).toNat := by decide
  obtain ⟨rows, hrows, hperm, -⟩ := batch_listing hok Demo.drawn_fresh
    (fun t ht => absurd ht (Table.not_mem_empty t)) (hnothing db') hsteps hone hmax two_pos hfuel
  exact ⟨db', hok, dbs, rfl, rfl, rows, hrows, hperm⟩

end TaskFleet.Model
