import TaskFleet.Lib.RowLocks
import TaskFleet.Model.QueueRun

/-!
# Several coordinators on one database

Any number of replicas run enqueues, dequeues, sweeps, completions and cancels
at the same time. Each is one transaction of `Locks.system`: the row locks,
`SKIP LOCKED` and the re-check are the library's; what is scanned, re-checked
and written is said here.

* `dequeue` and the sweep scan for many rows and skip locked ones; `complete`
  and `cancel` wait for the one row they name.
* A transaction's clock is its start, so `now` is one value for the scan, the
  re-check and the update.
* `limit` counts the rows that passed.
-/

namespace TaskFleet.Model

open Py Sql

/-- A transaction of the queue, with the clock it started at. -/
inductive Call where
  | enqueue (now : Seconds) (id : Uuid) (req : EnqueueRequest)
  | dequeue (now : Seconds) (workerId : Uuid) (limit maxBatch : Int)
      (taskTypes : Option (List String))
  | reclaim (now : Seconds) (batch : Int) (draw : Uuid → ℚ)
  | complete (now : Seconds) (envelope : Envelope) (workerId resultId : Uuid)
  | cancel (now : Seconds) (taskId : String)

/-- What a transaction leaves for its commit to install, and its answer. -/
structure Writes where
  inserted : Option Task := none
  updated : List Task := []
  result : Option TaskResult := none
  attempts : List TaskAttempt := []
  reply : Reply

/-- The commit of some writes. -/
def install (db : Db) (w : Writes) : Db where
  tasks :=
    (match w.inserted with
      | some t => db.tasks.insert t
      | none => db.tasks).overwrite w.updated
  results :=
    match w.result with
    | some r => db.results.insert r
    | none => db.results
  attempts := db.attempts ++ w.attempts
  policies := db.policies

/-- The locked rows, in the order of the `ORDER BY`. -/
def lockedRows (db : Db) (order : Task → Task → Prop) [DecidableRel order] (ids : List Uuid) :
    List Task :=
  (db.tasks.rows.filter fun t => ids.contains t.id).insertionSort order

/-- The writes of `complete_task` on the row it locked. -/
def completeWrites (db : Db) (now : Seconds) (row : Task) (envelope : Envelope)
    (workerId resultId : Uuid) : Writes :=
  let r := completeRow db now row envelope workerId resultId
  match r.2 with
  | .transitioned =>
      { updated := [row.complete now resultId]
        result := some ⟨resultId, envelope, envelope.sizeBytes, now⟩
        reply := .moved .transitioned }
  | outcome =>
      -- a fence leaves the attempt row it recorded
      { attempts := r.1.attempts.drop db.attempts.length, reply := .moved outcome }

/-- What the statements after the locking scan write. -/
def Call.exec (cfg : Config) (schemas : Schemas) : Call → Db → List Uuid → Writes
  | .enqueue now id req, _, _ =>
      match validateParameters schemas req.taskType req.parameters with
      | .ok (taskType, parameters) =>
          { inserted := some
              (queuedRow now id taskType parameters req.payload req.priority req.correlationId)
            reply := .enqueued id }
      | .error e => { reply := .invalidTask e }
  | .dequeue now workerId _ _ _, db, ids =>
      let rows := (lockedRows db queueOrder ids).map (Task.claim cfg db.policies now workerId)
      { updated := rows, reply := .claimed (rows.map Task.claimed) }
  | .reclaim now _ draw, db, ids =>
      let rows := lockedRows db leaseOrder ids
      let reclaimed := rows.map (Task.reclaimed cfg db.policies now draw)
      { updated := rows.map (Task.reclaim cfg db.policies now draw)
        attempts := reclaimed.map (ReclaimedTask.attempt now)
        reply := .reclaimed reclaimed }
  | .complete now envelope workerId resultId, db, ids =>
      match ids.head?.bind db.tasks.get? with
      | some row => completeWrites db now row envelope workerId resultId
      | none => { reply := .moved .notFound }
  | .cancel now _, db, ids =>
      match ids.head?.bind db.tasks.get? with
      | some row =>
          if row.status ≠ .queued then { reply := .cancelled .notCancellable (some row.status) }
          else { updated := [row.cancel now], reply := .cancelled .transitioned (some row.status) }
      | none => { reply := .cancelled .notFound none }

/-- The `WHERE` clause of the locking scan. -/
def Call.matches (cfg : Config) : Call → Task → Bool
  | .enqueue _ _ _, _ => false
  | .dequeue now workerId _ _ taskTypes, t => (claimable cfg now workerId taskTypes t).holds
  | .reclaim now _ _, t => (expired now t).holds
  | .complete _ envelope _ _, t => Uuid.parse envelope.taskId = some t.id
  | .cancel _ taskId, t => Uuid.parse taskId = some t.id

/-- The `ORDER BY` of the locking scan; a lookup by key has none. -/
def Call.Ordered : Call → List Task → Prop
  | .dequeue _ _ _ _ _, rows => rows.Pairwise queueOrder
  | .reclaim _ _ _, rows => rows.Pairwise leaseOrder
  | _, _ => True

/-- How many rows the scan may lock and pass on. -/
def Call.limit : Call → ℕ
  | .enqueue _ _ _ => 0
  | .dequeue _ _ limit _ _ => limit.toNat
  | .reclaim _ batch _ => batch.toNat
  | .complete _ _ _ _ | .cancel _ _ => 1

/-- `SKIP LOCKED`. -/
def Call.skipLocked : Call → Bool
  | .dequeue _ _ _ _ _ | .reclaim _ _ _ => true
  | _ => false

/-- The caller commits only after its arguments were accepted and, except for
an `INSERT`, a row was found. -/
def Call.Commits (schemas : Schemas) : Call → List Uuid → Prop
  | .enqueue _ _ req, _ =>
      ∃ row, validateParameters schemas req.taskType req.parameters = .ok row
  | .dequeue _ _ limit maxBatch taskTypes, ids =>
      ids ≠ [] ∧ 1 ≤ limit ∧ limit ≤ maxBatch ∧ taskTypes ≠ some []
  | .reclaim _ batch _, ids => ids ≠ [] ∧ 1 ≤ batch
  | .complete _ _ _ _, ids | .cancel _ _, ids => ids ≠ []

/-- `uuid4` returned an id that is nowhere in the database, and `random()` is
in `[0, 1)`. -/
def Call.Admissible (db : Db) : Call → Prop
  | .enqueue _ id _ => db.tasks.get? id = none
  | .complete _ _ _ resultId =>
      db.results.get? resultId = none ∧ ∀ t ∈ db.tasks, t.resultId ≠ some resultId
  | .reclaim _ _ draw => ∀ id, 0 ≤ draw id ∧ draw id < 1
  | _ => True

/-- The row with the id is in the table. -/
def HasRow (db : Db) (id : Uuid) : Prop := ∃ t ∈ db.tasks, t.id = id

/-- The database as a store of transactions. -/
def replicas (cfg : Config) (schemas : Schemas) : Locks.Store Db Uuid Call Writes where
  init db := db.tasks = .empty ∧ db.results = .empty ∧ db.attempts = []
  present := HasRow
  scan call db ids := ∃ rows : List Task,
    rows.Perm (db.tasks.rows.filter (call.matches cfg)) ∧ call.Ordered rows ∧ ids = rows.map Task.id
  passes call db id := (db.tasks.get? id).any (call.matches cfg)
  limit := Call.limit
  skipLocked := Call.skipLocked
  exec := Call.exec cfg schemas
  install := install
  commits := Call.Commits schemas
  admissible call db := call.Admissible db

/-- The clock of a transaction. -/
def Call.now : Call → Seconds
  | .enqueue now _ _ | .dequeue now _ _ _ _ | .reclaim now _ _ | .complete now _ _ _
  | .cancel now _ => now

/-- The operation of the queue a transaction is, when the rows in `skip` are
held by others. -/
def Call.op (skip : List Uuid) : Call → Op
  | .enqueue _ id req => .enqueue id req
  | .dequeue _ workerId limit maxBatch taskTypes => .dequeue workerId limit maxBatch taskTypes skip
  | .reclaim _ batch draw => .reclaim batch skip draw
  | .complete _ envelope workerId resultId => .complete envelope workerId resultId
  | .cancel _ taskId => .cancel taskId

end TaskFleet.Model
