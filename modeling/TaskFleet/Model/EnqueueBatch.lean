import TaskFleet.Model.QueueRun

/-!
# `task_queue.py`: the bulk enqueue

`enqueue_batch` is one multi-row `INSERT`: the rows differ in nothing but the id. It is
refused as a whole, and what it does is what as many single enqueues in one transaction
would do (`enqueueBatch_trace`).
-/

namespace TaskFleet.Model

open Py

/-- Why `enqueue_batch` raises. -/
inductive EnqueueRefusal where
  | queueLimitExceeded (error : QueueLimitExceeded)
  | parameters (error : ParameterError)
  deriving DecidableEq

/-- The rows of one multi-row `INSERT`. -/
def insertRows (tasks : Tasks) (rows : List Task) : Tasks :=
  rows.foldl (fun tasks row => tasks.insert row) tasks

/-- `enqueue_batch`. The `uuid4` calls return `ids 0`, `ids 1`, … -/
def enqueueBatch (schemas : Schemas) (db : Db) (now : Seconds) (ids : ℕ → Uuid)
    (count maxBatch : Int) (req : EnqueueRequest) : Except EnqueueRefusal (Db × List Uuid) :=
  if count < 1 then .error (.queueLimitExceeded ⟨"count must be at least 1"⟩)
  else if maxBatch < count then
    .error (.queueLimitExceeded ⟨"count " ++ toString count ++ " exceeds the " ++
      toString maxBatch ++ "-task batch cap"⟩)
  else
    -- every row is validated, and all of them alike
    match validateParameters schemas req.taskType req.parameters with
    | .error e => .error (.parameters e)
    | .ok (taskType, parameters) =>
        let new := (List.range count.toNat).map ids
        .ok ({ db with
            tasks := insertRows db.tasks (new.map fun id =>
              queuedRow now id taskType parameters req.payload req.priority req.correlationId) },
          new)

/-- What `uuid4` guarantees of the ids of a batch of `n`. -/
structure FreshIds (db : Db) (ids : ℕ → Uuid) (n : ℕ) : Prop where
  distinct : ∀ i < n, ∀ j < n, ids i = ids j → i = j
  unused : ∀ i < n, db.tasks.get? (ids i) = none

/-- The single enqueues a batch stands for. -/
def enqueueEvents (now : Seconds) (req : EnqueueRequest) (ids : List Uuid) : List Event :=
  ids.map fun id => ⟨now, .enqueue id req, .enqueued id⟩

section

variable {cfg : Config} {schemas : Schemas} {db db' : Db} {now : Seconds} {ids : ℕ → Uuid}
  {count maxBatch : Int} {req : EnqueueRequest} {new : List Uuid}

/-- A batch that is not refused. -/
theorem enqueueBatch_eq_ok
    (h : enqueueBatch schemas db now ids count maxBatch req = .ok (db', new)) :
    1 ≤ count ∧ count ≤ maxBatch ∧ new = (List.range count.toNat).map ids ∧
      ∃ taskType parameters, validateParameters schemas req.taskType req.parameters =
          .ok (taskType, parameters) ∧
        db' = { db with
          tasks := insertRows db.tasks (new.map fun id =>
            queuedRow now id taskType parameters req.payload req.priority req.correlationId) } := by
  unfold enqueueBatch at h
  split at h
  · cases h
  split at h
  · cases h
  split at h
  · cases h
  · next hone hmax _ taskType parameters hvalid =>
      obtain ⟨rfl, rfl⟩ := Prod.mk.inj (Except.ok.inj h)
      exact ⟨Int.not_lt.mp hone, Int.not_lt.mp hmax, rfl, taskType, parameters, hvalid, rfl⟩

/-- The ids of a batch are different and unused. -/
theorem FreshIds.batch {n : ℕ} (h : FreshIds db ids n) : ((List.range n).map ids).Nodup ∧
    ∀ id ∈ (List.range n).map ids, db.tasks.get? id = none := by
  constructor
  · refine List.Nodup.map_on ?_ List.nodup_range
    intro i hi j hj heq
    exact h.distinct i (List.mem_range.mp hi) j (List.mem_range.mp hj) heq
  · intro id hid
    obtain ⟨i, hi, rfl⟩ := List.mem_map.mp hid
    exact h.unused i (List.mem_range.mp hi)

/-- Inserting rows one by one is enqueuing them one by one. -/
theorem insertRows_trace {taskType : TaskType} {parameters : Json}
    (hvalid : validateParameters schemas req.taskType req.parameters = .ok (taskType, parameters)) :
    ∀ (new : List Uuid) (db : Db), new.Nodup → (∀ id ∈ new, db.tasks.get? id = none) →
      (queue cfg schemas).Trace db (enqueueEvents now req new)
        { db with
          tasks := insertRows db.tasks (new.map fun id =>
            queuedRow now id taskType parameters req.payload req.priority req.correlationId) } := by
  intro new
  induction new with
  | nil => intro db _ _; exact .nil
  | cons id new ih =>
      intro db hnodup hfresh
      obtain ⟨hid, hnodup⟩ := List.nodup_cons.mp hnodup
      let row := queuedRow now id taskType parameters req.payload req.priority req.correlationId
      have hstep : (queue cfg schemas).step db ⟨now, .enqueue id req, .enqueued id⟩
          { db with tasks := db.tasks.insert row } := by
        refine ⟨hfresh id List.mem_cons_self, ?_⟩
        simp only [apply, enqueue, hvalid]
        rfl
      refine .cons hstep (ih { db with tasks := db.tasks.insert row } hnodup ?_)
      intro other hother
      -- another id is not that of the row just inserted
      have hne : other ≠ id := by
        rintro rfl
        exact hid hother
      show (db.tasks.insert row).get? other = none
      rw [Table.get?_insert_of_ne (show other ≠ row.id from hne)]
      exact hfresh other (List.mem_cons_of_mem id hother)

/-- **A batch is its enqueues.** -/
theorem enqueueBatch_trace
    (h : enqueueBatch schemas db now ids count maxBatch req = .ok (db', new))
    (hfresh : FreshIds db ids count.toNat) :
    (queue cfg schemas).Trace db (enqueueEvents now req new) db' := by
  obtain ⟨-, -, rfl, taskType, parameters, hvalid, rfl⟩ := enqueueBatch_eq_ok h
  obtain ⟨hnodup, hunused⟩ := hfresh.batch
  exact insertRows_trace hvalid _ db hnodup hunused

end

/-- Two ids for a batch of two. -/
def Demo.drawn (i : ℕ) : Uuid := if i = 0 then Demo.task else Demo.otherWorker

theorem Demo.drawn_fresh : FreshIds .empty Demo.drawn 2 where
  distinct i hi j hj h := by
    have hne : Demo.task ≠ Demo.otherWorker := by decide
    unfold Demo.drawn at h
    split at h
    · split at h
      · omega
      · exact absurd h hne
    · split at h
      · exact absurd h.symm hne
      · omega
  unused _ _ := rfl

end TaskFleet.Model
