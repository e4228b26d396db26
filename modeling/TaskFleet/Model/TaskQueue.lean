import TaskFleet.Lib.Sql
import TaskFleet.Model.TaskPolicies
import Mathlib.Data.List.Sort

/-!
# `task_queue.py`: the queue

Each function of the module is one transaction against `Db`, taken whole: the
row lock it starts with is what makes that sound, and `Replicas` is where that
is shown. Every `UPDATE` has its `SET` clause as a row function of its own
(`Task.claim`, `Task.complete`, …) and its `WHERE` clause as a predicate in
three-valued logic, so the statement itself is `Table.updateWhere`.

What the database chooses freely is an argument: `now` is the transaction's
clock, `skip` the rows another transaction holds when a `SKIP LOCKED`
statement passes them (and so also which of two equally old rows comes first),
`draw` the value of `random()` for each row, and a fresh id is whatever
`uuid4` returned. A function that takes a task id as text is split in two:
the parse, and the rest (`…At`) on the id it found.
-/

namespace TaskFleet.Model

open Py Sql

/-- What a worker-reported move came to. -/
inductive Outcome where
  | transitioned
  | noop
  | notFound
  | notOwner
  | illegal
  | duplicate
  | superseded
  | fenced
  | notCancellable
  /-- No constant: a statement raised, so that nothing is committed and nothing is
  answered. -/
  | raised
  deriving DecidableEq, Repr

/-- The value of the constant, which an acknowledgement carries. -/
def Outcome.text : Outcome → String
  | transitioned => "transitioned"
  | noop => "noop"
  | notFound => "not_found"
  | notOwner => "not_owner"
  | illegal => "illegal"
  | duplicate => "duplicate"
  | superseded => "superseded"
  | fenced => "fenced"
  | notCancellable => "not_cancellable"
  | raised => ""

/-- `QueueLimitExceeded`, with its message. -/
structure QueueLimitExceeded where
  message : String
  deriving DecidableEq, Repr

/-- `UPDATE tasks SET f WHERE id = taskId`. -/
def Db.updateTask (db : Db) (taskId : Uuid) (f : Task → Task) (hf : ∀ t, (f t).id = t.id) : Db :=
  { db with tasks := db.tasks.updateWhere (fun t => t.id = taskId) f hf }

theorem Db.mem_updateTask {db : Db} {taskId : Uuid} {f : Task → Task} (hf : ∀ t, (f t).id = t.id)
    {t : Task} (ht : t ∈ db.tasks) (hid : t.id = taskId) :
    f t ∈ (db.updateTask taskId f hf).tasks := by
  have hin : (if decide (t.id = taskId) = true then f t else t) ∈
      db.tasks.updateWhere (fun t => t.id = taskId) f hf :=
    Table.mem_updateWhere_of_mem hf ht
  rw [if_pos (by simpa using hid)] at hin
  exact hin

/-! ## Enqueue -/

/-- `_validated_row` as the row the `INSERT` leaves, server defaults included. -/
def queuedRow (now : Seconds) (id : Uuid) (taskType : TaskType) (parameters : Json)
    (payload : Option Json) (priority : Int) (correlationId : String) : Task where
  id := id
  taskType := taskType
  payload := payload
  parameters := parameters
  priority := priority
  status := .queued
  assignedWorkerId := none
  assignedAt := none
  startedAt := none
  leaseExpiresAt := none
  deadlineAt := none
  attemptCount := 0
  excludedWorkerId := none
  notBefore := none
  resultId := none
  completedAt := none
  correlationId := correlationId
  createdAt := now
  updatedAt := now

/-- What a caller of `enqueue` supplies. -/
structure EnqueueRequest where
  taskType : String
  parameters : Option (List (String × Json)) := none
  payload : Option Json := none
  priority : Int := 0
  correlationId : String

/-- `enqueue`. -/
def enqueue (schemas : Schemas) (db : Db) (now : Seconds) (id : Uuid) (req : EnqueueRequest) :
    Except ParameterError Db :=
  match validateParameters schemas req.taskType req.parameters with
  | .error e => .error e
  | .ok (taskType, parameters) =>
      .ok { db with
        tasks := db.tasks.insert
          (queuedRow now id taskType parameters req.payload req.priority req.correlationId) }

/-! ## Dequeue -/

/-- `_ELIGIBLE`. -/
def eligible (cfg : Config) (now : Seconds) (workerId : Uuid) (t : Task) : Tri :=
  ((isNull t.notBefore).or (rel (fun a b : Seconds => a ≤ b) t.notBefore (some now))).and
    (((isNull t.excludedWorkerId).or
        (rel (fun a b : Uuid => a ≠ b) t.excludedWorkerId (some workerId))).or
      (rel (fun a b : Seconds => a ≤ b)
        (t.notBefore.map fun (a : Seconds) => a + (cfg.taskRetryExclusionSeconds : Seconds))
          (some now)))

/-- The `WHERE` clause of `_dequeue_sql`, with its optional type filter. -/
def claimable (cfg : Config) (now : Seconds) (workerId : Uuid) (taskTypes : Option (List String))
    (t : Task) : Tri :=
  (test (t.status == .queued)).and
    ((test (taskTypes.all fun names => names.contains t.taskType.name)).and
      (eligible cfg now workerId t))

/-- `ORDER BY priority, created_at`. -/
def queueOrder (a b : Task) : Prop :=
  a.priority < b.priority ∨ (a.priority = b.priority ∧ a.createdAt ≤ b.createdAt)

instance : DecidableRel queueOrder := fun _ _ =>
  inferInstanceAs (Decidable (_ ∨ _))

/-- The `SET` clause of `_dequeue_sql`. -/
def Task.claim (cfg : Config) (policies : TaskPolicies) (now : Seconds) (workerId : Uuid)
    (t : Task) : Task :=
  { t with
    status := .assigned
    assignedWorkerId := some workerId
    assignedAt := some now
    leaseExpiresAt := some (now +
      policySeconds policies .ackTimeoutSeconds cfg.taskAckTimeoutSeconds t.taskType)
    deadlineAt := some (now + maxExecutionSeconds policies t.taskType)
    updatedAt := now }

@[simp] theorem Task.claim_id {cfg : Config} {policies : TaskPolicies} {now : Seconds} {w : Uuid}
    (t : Task) : (t.claim cfg policies now w).id = t.id := rfl

/-- The columns `dequeue` returns of a claimed row. -/
structure ClaimedTask where
  id : Uuid
  taskType : TaskType
  parameters : Json
  payload : Option Json
  priority : Int
  correlationId : String
  assignedAt : Option Seconds
  attemptCount : Nat
  leaseExpiresAt : Option Seconds

def Task.claimed (t : Task) : ClaimedTask where
  id := t.id
  taskType := t.taskType
  parameters := t.parameters
  payload := t.payload
  priority := t.priority
  correlationId := t.correlationId
  assignedAt := t.assignedAt
  attemptCount := t.attemptCount
  leaseExpiresAt := t.leaseExpiresAt

@[simp] theorem Task.claim_claimed_id {cfg : Config} {policies : TaskPolicies} {now : Seconds}
    {w : Uuid} (t : Task) : (t.claim cfg policies now w).claimed.id = t.id := rfl

/-- The `claimed` subquery. -/
def claimedRows (cfg : Config) (db : Db) (now : Seconds) (workerId : Uuid) (limit : Int)
    (taskTypes : Option (List String)) (skip : List Uuid) : List Task :=
  ((db.tasks.rows.filter fun t =>
      (claimable cfg now workerId taskTypes t).holds && !skip.contains t.id).insertionSort
    queueOrder).take limit.toNat

/-- `dequeue`. -/
def dequeue (cfg : Config) (db : Db) (now : Seconds) (workerId : Uuid) (limit maxBatch : Int)
    (taskTypes : Option (List String)) (skip : List Uuid) :
    Except QueueLimitExceeded (Db × List ClaimedTask) :=
  if limit < 1 then .error ⟨"limit must be at least 1"⟩
  else if maxBatch < limit then
    .error ⟨"limit " ++ toString limit ++ " exceeds the " ++ toString maxBatch ++
      "-task dequeue cap"⟩
  else if taskTypes = some [] then
    .error ⟨"task_types is empty: the worker is eligible for nothing"⟩
  else
    -- `skip` are the rows other transactions hold: `FOR UPDATE SKIP LOCKED`
    let claimed := claimedRows cfg db now workerId limit taskTypes skip
    .ok ({ db with
        tasks := db.tasks.updateWhere (fun t => t.id ∈ claimed.map Task.id)
          (Task.claim cfg db.policies now workerId) Task.claim_id },
      claimed.map fun t => (t.claim cfg db.policies now workerId).claimed)

/-- What a `dequeue` that is not refused does. -/
theorem dequeue_eq_ok {cfg : Config} {db db' : Db} {now : Seconds} {w : Uuid}
    {limit maxBatch : Int} {taskTypes : Option (List String)} {skip : List Uuid}
    {rows : List ClaimedTask}
    (h : dequeue cfg db now w limit maxBatch taskTypes skip = .ok (db', rows)) :
    db' = { db with
      tasks := db.tasks.updateWhere
        (fun t => t.id ∈ (claimedRows cfg db now w limit taskTypes skip).map Task.id)
        (Task.claim cfg db.policies now w) Task.claim_id } ∧
    rows = (claimedRows cfg db now w limit taskTypes skip).map
      fun t => (t.claim cfg db.policies now w).claimed := by
  unfold dequeue at h
  split at h
  · cases h
  split at h
  · cases h
  split at h
  · cases h
  simp only [Except.ok.injEq, Prod.mk.injEq] at h
  exact ⟨h.1.symm, h.2.symm⟩

/-! ## State reports -/

/-- The `SET` clause of `mark_status`. -/
def Task.mark (cfg : Config) (policies : TaskPolicies) (now : Seconds) (newStatus : TaskState)
    (t : Task) : Task :=
  let t := { t with status := newStatus, updatedAt := now }
  if newStatus = .running then
    -- the deadline of the delivery is stamped over
    let deadline := now + maxExecutionSeconds policies t.taskType
    { t with
      startedAt := some now
      deadlineAt := some deadline
      leaseExpiresAt := least
        (some (now + policySeconds policies .leaseTtlSeconds cfg.taskLeaseTtlSeconds t.taskType))
        (some deadline) }
  else if newStatus.isTerminal then
    { t with
      leaseExpiresAt := none, deadlineAt := none, notBefore := none, excludedWorkerId := none }
  else t

@[simp] theorem Task.mark_id {cfg : Config} {policies : TaskPolicies} {now : Seconds}
    {newStatus : TaskState} (t : Task) : (t.mark cfg policies now newStatus).id = t.id := by
  cases newStatus <;> rfl

/-- The lease a start writes: its own TTL, up to the deadline it stamps. -/
theorem Task.mark_running_leaseExpiresAt {cfg : Config} {policies : TaskPolicies} {now : Seconds}
    (t : Task) : (t.mark cfg policies now .running).leaseExpiresAt =
      least (some (now + policySeconds policies .leaseTtlSeconds
        cfg.taskLeaseTtlSeconds t.taskType))
        (t.mark cfg policies now .running).deadlineAt := rfl

/-- `mark_status` once the id is parsed. -/
def markStatusAt (cfg : Config) (db : Db) (now : Seconds) (taskId workerId : Uuid)
    (newStatus : TaskState) : Db × Outcome :=
  match db.tasks.get? taskId with
  | none => (db, .notFound)
  | some row =>
      if row.assignedWorkerId ≠ some workerId then (db, .notOwner)
      else
        match checkTransition row.status newStatus with
        | .error _ => (db, .illegal)
        | .ok false => (db, .noop)
        | .ok true =>
            (db.updateTask taskId (Task.mark cfg db.policies now newStatus) Task.mark_id,
              .transitioned)

/-- `mark_status`. -/
def markStatus (cfg : Config) (db : Db) (now : Seconds) (taskId : String) (workerId : Uuid)
    (newStatus : TaskState) : Db × Outcome :=
  match Uuid.parse taskId with
  | none => (db, .notFound)
  | some id => markStatusAt cfg db now id workerId newStatus

/-- A report either moves the row of its sender along an edge of the state
table, or changes nothing. -/
theorem markStatusAt_cases (cfg : Config) (db : Db) (now : Seconds) (taskId workerId : Uuid)
    (newStatus : TaskState) :
    (∃ row, db.tasks.get? taskId = some row ∧ row.assignedWorkerId = some workerId ∧
      newStatus ∈ row.status.allowed ∧
      markStatusAt cfg db now taskId workerId newStatus =
        (db.updateTask taskId (Task.mark cfg db.policies now newStatus) Task.mark_id,
          .transitioned)) ∨
    ∃ outcome, outcome ≠ .transitioned ∧
      markStatusAt cfg db now taskId workerId newStatus = (db, outcome) := by
  unfold markStatusAt
  split
  · exact .inr ⟨_, by simp, rfl⟩
  · next row hrow =>
      split
      · exact .inr ⟨_, by simp, rfl⟩
      · next howner =>
          split
          · exact .inr ⟨_, by simp, rfl⟩
          · exact .inr ⟨_, by simp, rfl⟩
          · next hcheck =>
              exact .inl ⟨row, hrow, not_not.mp howner, checkTransition_eq_ok_true.mp hcheck, rfl⟩

/-- The holder's report along an edge of the table is written. -/
theorem markStatusAt_of_edge {cfg : Config} {db : Db} {now : Seconds} {t : Task} {workerId : Uuid}
    {newStatus : TaskState} (ht : t ∈ db.tasks) (howner : t.assignedWorkerId = some workerId)
    (hedge : newStatus ∈ t.status.allowed) :
    markStatusAt cfg db now t.id workerId newStatus =
      (db.updateTask t.id (Task.mark cfg db.policies now newStatus) Task.mark_id,
        .transitioned) := by
  simp only [markStatusAt, Table.get?_of_mem ht, howner, ne_eq, not_true_eq_false, if_false,
    checkTransition_eq_ok_true.mpr hedge]

/-- `INSERT INTO task_attempts … WHERE NOT EXISTS` a row for the same task,
worker, attempt and outcome. -/
def Db.recordAttemptOnce (db : Db) (a : TaskAttempt) : Db :=
  if db.attempts.any fun b => b.taskId = a.taskId ∧ b.workerId = a.workerId ∧
      b.attemptNumber = a.attemptNumber ∧ b.outcome = a.outcome then db
  else { db with attempts := db.attempts ++ [a] }

theorem Db.recordAttemptOnce_eq (db : Db) (a : TaskAttempt) :
    db.recordAttemptOnce a = db ∨
      db.recordAttemptOnce a = { db with attempts := db.attempts ++ [a] } := by
  unfold recordAttemptOnce
  split
  · exact .inl rfl
  · exact .inr rfl

@[simp] theorem Db.recordAttemptOnce_tasks (db : Db) (a : TaskAttempt) :
    (db.recordAttemptOnce a).tasks = db.tasks := by
  rcases db.recordAttemptOnce_eq a with h | h <;> rw [h]

@[simp] theorem Db.recordAttemptOnce_results (db : Db) (a : TaskAttempt) :
    (db.recordAttemptOnce a).results = db.results := by
  rcases db.recordAttemptOnce_eq a with h | h <;> rw [h]

/-- `s[:n]`. -/
def prefixOf (n : Nat) (s : String) : String := String.ofList (s.toList.take n)

/-- `record_execution_failure` once the id is parsed. The worker id comes from
an authenticated session and always parses. -/
def recordExecutionFailureAt (db : Db) (now : Seconds) (taskId workerId : Uuid)
    (errorType correlationId : String) : Db :=
  match db.tasks.get? taskId with
  | none => db
  | some row =>
      -- read back after the transition, which leaves `attempt_count` alone
      db.recordAttemptOnce {
        taskId := taskId
        attemptNumber := row.attemptCount
        workerId := some workerId
        outcome := .failed
        reason := prefixOf 120 ("executor_error:" ++ errorType)
        correlationId := if correlationId = "" then none else some correlationId
        recordedAt := now }

/-- `record_execution_failure`. -/
def recordExecutionFailure (db : Db) (now : Seconds) (taskId : String) (workerId : Uuid)
    (errorType correlationId : String) : Db :=
  match Uuid.parse taskId with
  | none => db
  | some id => recordExecutionFailureAt db now id workerId errorType correlationId

/-- The failure record adds at most one row, for the attempt the task is at. -/
theorem recordExecutionFailure_eq (db : Db) (now : Seconds) (taskId : String) (workerId : Uuid)
    (errorType correlationId : String) :
    recordExecutionFailure db now taskId workerId errorType correlationId = db ∨
    ∃ i row a, Uuid.parse taskId = some i ∧ db.tasks.get? i = some row ∧
      a.taskId = i ∧ a.attemptNumber = row.attemptCount ∧ a.workerId = some workerId ∧
      recordExecutionFailure db now taskId workerId errorType correlationId =
        { db with attempts := db.attempts ++ [a] } := by
  unfold recordExecutionFailure
  split
  · exact .inl rfl
  · next i hid =>
      unfold recordExecutionFailureAt
      split
      · exact .inl rfl
      · next row hrow =>
          refine (Db.recordAttemptOnce_eq db _).imp_right fun h => ?_
          exact ⟨i, row, _, hid, hrow, rfl, rfl, rfl, h⟩

@[simp] theorem recordExecutionFailure_tasks (db : Db) (now : Seconds) (taskId : String)
    (workerId : Uuid) (errorType correlationId : String) :
    (recordExecutionFailure db now taskId workerId errorType correlationId).tasks = db.tasks := by
  rcases recordExecutionFailure_eq db now taskId workerId errorType correlationId with
    h | ⟨_, _, _, _, _, _, _, _, h⟩ <;> rw [h]

@[simp] theorem recordExecutionFailure_results (db : Db) (now : Seconds) (taskId : String)
    (workerId : Uuid) (errorType correlationId : String) :
    (recordExecutionFailure db now taskId workerId errorType correlationId).results =
      db.results := by
  rcases recordExecutionFailure_eq db now taskId workerId errorType correlationId with
    h | ⟨_, _, _, _, _, _, _, _, h⟩ <;> rw [h]

/-- The transaction of `handle_task_failed`: the transition and, in the same
commit, the row that says why. -/
def failTask (cfg : Config) (db : Db) (now : Seconds) (taskId : String) (workerId : Uuid)
    (errorType correlationId : String) : Db × Outcome :=
  match markStatus cfg db now taskId workerId .failed with
  | (db', .transitioned) =>
      (recordExecutionFailure db' now taskId workerId (prefixOf 100 errorType) correlationId,
        .transitioned)
  | (_, outcome) => (db, outcome)

/-! ## Results -/

/-- `_terminal_result_outcome`. -/
def terminalResultOutcome (db : Db) (resultId : Option Uuid) (token : Token) : Outcome :=
  match resultId.bind db.results.get? with
  | none => .superseded
  | some stored => if stored.payload.idempotencyToken = token then .duplicate else .superseded

/-- A task that ended answers `DUPLICATE` or `SUPERSEDED`. -/
theorem terminalResultOutcome_ne {db : Db} {resultId : Option Uuid} {token : Token}
    {outcome : Outcome} (h : outcome ∉ [.duplicate, .superseded]) :
    terminalResultOutcome db resultId token ≠ outcome := by
  rintro rfl
  refine h ?_
  unfold terminalResultOutcome
  split
  · simp
  · split <;> simp

/-- `_ever_held`. -/
def everHeld (db : Db) (taskId workerId : Uuid) (assignedWorkerId : Option Uuid) : Bool :=
  assignedWorkerId = some workerId ||
    db.attempts.any fun a => a.taskId = taskId ∧ a.workerId = some workerId

/-- The transitions of `path`, each checked from where the last one led. -/
def walk (state : TaskState) : List TaskState → Except InvalidTaskTransition TaskState
  | [] => .ok state
  | target :: rest =>
      match checkTransition state target with
      | .error e => .error e
      | .ok _ => walk target rest

/-- The `SET` clause of `complete_task`. -/
def Task.complete (now : Seconds) (resultId : Uuid) (t : Task) : Task :=
  { t with
    status := .completed
    resultId := some resultId
    completedAt := some now
    updatedAt := now
    leaseExpiresAt := none
    deadlineAt := none
    notBefore := none
    excludedWorkerId := none
    startedAt := t.startedAt.or (some now) }

@[simp] theorem Task.complete_id {now : Seconds} {resultId : Uuid} (t : Task) :
    (t.complete now resultId).id = t.id := rfl

/-- The fencing branch of `complete_task`: an attempt the task did reach is
recorded, once. -/
def recordFence (db : Db) (now : Seconds) (row : Task) (envelope : Envelope) (workerId : Uuid)
    (isAssignee : Bool) : Db :=
  if envelope.attemptNumber ≤ row.attemptCount then
    db.recordAttemptOnce {
      taskId := row.id
      attemptNumber := envelope.attemptNumber
      workerId := some workerId
      outcome := .fenced
      reason := if isAssignee then "stale_attempt" else "task_reassigned"
      correlationId := some row.correlationId
      recordedAt := now }
  else db

/-- A fence adds at most one row, for an attempt the task reached. -/
theorem recordFence_eq (db : Db) (now : Seconds) (row : Task) (envelope : Envelope)
    (workerId : Uuid) (isAssignee : Bool) :
    recordFence db now row envelope workerId isAssignee = db ∨
    ∃ a, a.taskId = row.id ∧ a.attemptNumber = envelope.attemptNumber ∧
      a.attemptNumber ≤ row.attemptCount ∧ a.workerId = some workerId ∧
      recordFence db now row envelope workerId isAssignee =
        { db with attempts := db.attempts ++ [a] } := by
  unfold recordFence
  split
  · next hle =>
      refine (Db.recordAttemptOnce_eq db _).imp_right fun h => ?_
      exact ⟨_, rfl, rfl, hle, rfl, h⟩
  · exact .inl rfl

@[simp] theorem recordFence_tasks (db : Db) (now : Seconds) (row : Task) (envelope : Envelope)
    (workerId : Uuid) (isAssignee : Bool) :
    (recordFence db now row envelope workerId isAssignee).tasks = db.tasks := by
  rcases recordFence_eq db now row envelope workerId isAssignee with h | ⟨_, _, _, _, _, h⟩ <;>
    rw [h]

@[simp] theorem recordFence_results (db : Db) (now : Seconds) (row : Task) (envelope : Envelope)
    (workerId : Uuid) (isAssignee : Bool) :
    (recordFence db now row envelope workerId isAssignee).results = db.results := by
  rcases recordFence_eq db now row envelope workerId isAssignee with h | ⟨_, _, _, _, _, h⟩ <;>
    rw [h]

/-- `complete_task` from the locked row on. -/
def completeRow (db : Db) (now : Seconds) (row : Task) (envelope : Envelope)
    (workerId resultId : Uuid) : Db × Outcome :=
  let isAssignee := row.assignedWorkerId = some workerId
  -- asked first: a task that ended answers from what it stored, whoever asks
  if row.status.isTerminal then
    (db, terminalResultOutcome db row.resultId envelope.idempotencyToken)
  else if ¬ isAssignee ∨ envelope.attemptNumber ≠ row.attemptCount then
    if everHeld db row.id workerId row.assignedWorkerId then
      (recordFence db now row envelope workerId isAssignee, .fenced)
    else (db, .notOwner)
  else
    -- a task that was not reported as started passes through `RUNNING`
    match walk row.status
      (if row.status = .assigned then [.running, .completed] else [.completed]) with
    | .error _ => (db, .illegal)
    -- the `INSERT` raises on what is not strict JSON
    | .ok _ => if envelope.storable = false then (db, .raised) else
        let stored : TaskResult := {
          id := resultId, payload := envelope, sizeBytes := envelope.sizeBytes, submittedAt := now }
        ({ db with results := db.results.insert stored }.updateTask row.id
            (Task.complete now resultId) Task.complete_id, .transitioned)

/-- The branches of `complete_task` on the locked row, each with its guard and
its answer. -/
inductive CompleteCase (db : Db) (now : Seconds) (row : Task) (envelope : Envelope)
    (workerId resultId : Uuid) : Db × Outcome → Prop
  | terminal (hstatus : row.status.isTerminal = true) :
      CompleteCase db now row envelope workerId resultId
        (db, terminalResultOutcome db row.resultId envelope.idempotencyToken)
  | fenced (hstatus : row.status.isTerminal = false)
      (hstale : ¬ (row.assignedWorkerId = some workerId ∧
        envelope.attemptNumber = row.attemptCount))
      (hheld : everHeld db row.id workerId row.assignedWorkerId = true) :
      CompleteCase db now row envelope workerId resultId
        (recordFence db now row envelope workerId (row.assignedWorkerId = some workerId), .fenced)
  | notOwner (hstatus : row.status.isTerminal = false)
      (hstale : ¬ (row.assignedWorkerId = some workerId ∧
        envelope.attemptNumber = row.attemptCount))
      (hheld : everHeld db row.id workerId row.assignedWorkerId = false) :
      CompleteCase db now row envelope workerId resultId (db, .notOwner)
  | illegal (hstatus : row.status.isTerminal = false) (hlive : row.status.isLive = false)
      (howner : row.assignedWorkerId = some workerId)
      (hattempt : envelope.attemptNumber = row.attemptCount) :
      CompleteCase db now row envelope workerId resultId (db, .illegal)
  | raised (hlive : row.status.isLive = true) (howner : row.assignedWorkerId = some workerId)
      (hattempt : envelope.attemptNumber = row.attemptCount)
      (hrefused : envelope.storable = false) :
      CompleteCase db now row envelope workerId resultId (db, .raised)
  | stored (hlive : row.status.isLive = true) (howner : row.assignedWorkerId = some workerId)
      (hattempt : envelope.attemptNumber = row.attemptCount) (htaken : envelope.storable = true) :
      CompleteCase db now row envelope workerId resultId
        ({ db with
            results := db.results.insert ⟨resultId, envelope, envelope.sizeBytes, now⟩ }.updateTask
              row.id (Task.complete now resultId) Task.complete_id, .transitioned)

/-- The walk to `COMPLETED` is legal exactly from the two live states. -/
theorem walk_completed (s : TaskState) :
    (s.isLive = true → walk s (if s = .assigned then [.running, .completed] else [.completed]) =
      .ok .completed) ∧
    (s.isLive = false → s.isTerminal = false →
      ∃ e, walk s (if s = .assigned then [.running, .completed] else [.completed]) = .error e) := by
  cases s <;> simp [TaskState.isLive, TaskState.isTerminal, walk, checkTransition,
    TaskState.allowed]

theorem completeRow_case (db : Db) (now : Seconds) (row : Task) (envelope : Envelope)
    (workerId resultId : Uuid) :
    CompleteCase db now row envelope workerId resultId
      (completeRow db now row envelope workerId resultId) := by
  unfold completeRow
  cases hterm : row.status.isTerminal with
  | true =>
      simp only [if_true]
      exact .terminal hterm
  | false =>
      simp only [Bool.false_eq_true, if_false]
      by_cases howns : row.assignedWorkerId = some workerId ∧
          envelope.attemptNumber = row.attemptCount
      · rw [if_neg (by simp [howns.1, howns.2])]
        cases hlive : row.status.isLive with
        | true =>
            rw [(walk_completed row.status).1 hlive]
            cases hstorable : envelope.storable with
            | true =>
                simp only [Bool.true_eq_false, if_false]
                exact .stored hlive howns.1 howns.2 hstorable
            | false =>
                simp only [if_true]
                exact .raised hlive howns.1 howns.2 hstorable
        | false =>
            obtain ⟨err, herr⟩ := (walk_completed row.status).2 hlive hterm
            rw [herr]
            exact .illegal hterm hlive howns.1 howns.2
      · rw [if_pos (by tauto)]
        cases hheld : everHeld db row.id workerId row.assignedWorkerId with
        | true =>
            rw [if_pos rfl]
            exact .fenced hterm howns hheld
        | false =>
            rw [if_neg (by simp)]
            exact .notOwner hterm howns hheld

/-- The holder's result of the current attempt, where the database does not take it. -/
theorem completeRow_raised {db : Db} {row : Task} {envelope : Envelope} {workerId : Uuid}
    (hlive : row.status.isLive = true) (howner : row.assignedWorkerId = some workerId)
    (hattempt : envelope.attemptNumber = row.attemptCount) (hrefused : envelope.storable = false)
    (now : Seconds) (resultId : Uuid) :
    completeRow db now row envelope workerId resultId = (db, .raised) := by
  have hopen : row.status.isTerminal = false := TaskState.not_isTerminal_of_isLive hlive
  simp only [completeRow, hopen, howner, hattempt, (walk_completed row.status).1 hlive, hrefused,
    Bool.false_eq_true, not_true_eq_false, ne_eq, or_self, if_true, if_false]

/-- `complete_task` once the id is parsed. -/
def completeTaskAt (db : Db) (now : Seconds) (taskId : Uuid) (envelope : Envelope)
    (workerId resultId : Uuid) : Db × Outcome :=
  match db.tasks.get? taskId with
  | none => (db, .notFound)
  | some row => completeRow db now row envelope workerId resultId

/-- `complete_task`. -/
def completeTask (db : Db) (now : Seconds) (envelope : Envelope) (workerId resultId : Uuid) :
    Db × Outcome :=
  match Uuid.parse envelope.taskId with
  | none => (db, .notFound)
  | some id => completeTaskAt db now id envelope workerId resultId

/-- `complete_task` on a task of the table. -/
theorem completeTask_eq_completeRow {db : Db} {envelope : Envelope} {t : Task} (ht : t ∈ db.tasks)
    (hid : Uuid.parse envelope.taskId = some t.id) (now : Seconds) (workerId resultId : Uuid) :
    completeTask db now envelope workerId resultId =
      completeRow db now t envelope workerId resultId := by
  simp only [completeTask, hid, completeTaskAt, Table.get?_of_mem ht]

/-- `complete_task` finds no row and changes nothing, or answers from the row
its envelope names. -/
theorem completeTask_cases (db : Db) (now : Seconds) (envelope : Envelope)
    (workerId resultId : Uuid) :
    completeTask db now envelope workerId resultId = (db, .notFound) ∨
    ∃ row, db.tasks.get? row.id = some row ∧ Uuid.parse envelope.taskId = some row.id ∧
      CompleteCase db now row envelope workerId resultId
        (completeTask db now envelope workerId resultId) := by
  unfold completeTask
  split
  · exact .inl rfl
  · next i hid =>
      unfold completeTaskAt
      split
      · exact .inl rfl
      · next row hrow =>
          obtain ⟨-, rfl⟩ := Table.get?_eq_some_iff.mp hrow
          exact .inr ⟨row, hrow, hid, completeRow_case db now row envelope workerId resultId⟩

/-! ## Leases -/

/-- `_RENEWAL_TARGET`. The source's `COALESCE(deadline_at, 'infinity')` never
is the smaller one, which is how `LEAST` treats a null by itself. -/
def renewalTarget (cfg : Config) (now : Seconds) (deadlineAt : Option Seconds) : Option Seconds :=
  least (some (now + cfg.taskLeaseTtlSeconds)) deadlineAt

def Task.renew (cfg : Config) (now : Seconds) (t : Task) : Task :=
  { t with leaseExpiresAt := renewalTarget cfg now t.deadlineAt, updatedAt := now }

@[simp] theorem Task.renew_id {cfg : Config} {now : Seconds} (t : Task) :
    (t.renew cfg now).id = t.id := rfl

/-- `assigned_worker_id = :worker_id AND` `_LIVE`. -/
def heldLive (workerId : Uuid) (t : Task) : Tri :=
  (rel (fun a b : Uuid => a = b) t.assignedWorkerId (some workerId)).and (test t.status.isLive)

/-- `renew_lease` once the id is parsed. -/
def renewLeaseAt (cfg : Config) (db : Db) (now : Seconds) (taskId workerId : Uuid) : Db × Bool :=
  let matched (t : Task) : Bool := t.id = taskId && (heldLive workerId t).holds
  ({ db with tasks := db.tasks.updateWhere matched (Task.renew cfg now) Task.renew_id },
    db.tasks.rows.any matched)

/-- `renew_lease`. -/
def renewLease (cfg : Config) (db : Db) (now : Seconds) (taskId : String) (workerId : Uuid) :
    Db × Bool :=
  match Uuid.parse taskId with
  | none => (db, false)
  | some id => renewLeaseAt cfg db now id workerId

/-- `renew_worker_leases`. -/
def renewWorkerLeases (cfg : Config) (db : Db) (now : Seconds) (workerId : Uuid) :
    Db × List Uuid :=
  let matched (t : Task) : Bool := (heldLive workerId t).holds
  ({ db with tasks := db.tasks.updateWhere matched (Task.renew cfg now) Task.renew_id },
    (db.tasks.rows.filter matched).map Task.id)

/-- The `SET` clause of `shorten_worker_leases`. -/
def Task.shorten (now : Seconds) (graceSeconds : Int) (t : Task) : Task :=
  { t with leaseExpiresAt := least t.leaseExpiresAt (some (now + graceSeconds)), updatedAt := now }

@[simp] theorem Task.shorten_id {now : Seconds} {graceSeconds : Int} (t : Task) :
    (t.shorten now graceSeconds).id = t.id := rfl

/-- `shorten_worker_leases`. -/
def shortenWorkerLeases (db : Db) (now : Seconds) (workerId : Uuid) (graceSeconds : Int) :
    Db × Nat :=
  let matched (t : Task) : Bool := (heldLive workerId t).holds
  ({ db with
      tasks := db.tasks.updateWhere matched (Task.shorten now graceSeconds) Task.shorten_id },
    (db.tasks.rows.filter matched).length)

/-! ## Reclaim -/

/-- The `WHERE` clause of `_reclaim_sql`. -/
def expired (now : Seconds) (t : Task) : Tri :=
  (test t.status.isLive).and ((isNotNull t.leaseExpiresAt).and
    (rel (fun a b : Seconds => a < b) t.leaseExpiresAt (some now)))

/-- `ORDER BY lease_expires_at`; the column is not null in the rows sorted. -/
def leaseOrder (a b : Task) : Prop := a.leaseExpiresAt.getD 0 ≤ b.leaseExpiresAt.getD 0

instance : DecidableRel leaseOrder := fun _ _ => inferInstanceAs (Decidable (_ ≤ _))

/-- `t.attempt_count + 1 >= max_attempts`. -/
def Task.exhausted (cfg : Config) (policies : TaskPolicies) (t : Task) : Bool :=
  maxAttempts cfg policies t.taskType ≤ t.attemptCount + 1

/-- `_RETRY_BACKOFF`. -/
def retryBackoff (cfg : Config) (draw : ℚ) (attemptCount : Nat) : Seconds :=
  draw * min cfg.taskRetryBackoffMaxSeconds
    (cfg.taskRetryBackoffBaseSeconds * cfg.taskRetryBackoffFactor ^ attemptCount)

/-- The `SET` clause of `_reclaim_sql`. -/
def Task.reclaim (cfg : Config) (policies : TaskPolicies) (now : Seconds) (draw : Uuid → ℚ)
    (t : Task) : Task :=
  { t with
    -- every right-hand side reads the row as it was
    status := if t.exhausted cfg policies then .failed else .queued
    assignedWorkerId := none
    assignedAt := none
    startedAt := none
    leaseExpiresAt := none
    deadlineAt := none
    attemptCount := t.attemptCount + 1
    excludedWorkerId := if t.exhausted cfg policies then none else t.assignedWorkerId
    notBefore :=
      if t.exhausted cfg policies then none
      else some (now + retryBackoff cfg (draw t.id) t.attemptCount)
    updatedAt := now }

@[simp] theorem Task.reclaim_id {cfg : Config} {policies : TaskPolicies} {now : Seconds}
    {draw : Uuid → ℚ} (t : Task) : (t.reclaim cfg policies now draw).id = t.id := rfl

/-- What `reclaim_expired_leases` returns of a reclaimed row: columns of the
new row, and of the old one what the update clears. -/
structure ReclaimedTask where
  id : Uuid
  taskType : TaskType
  correlationId : String
  attemptCount : Nat
  status : TaskState
  notBefore : Option Seconds
  previousWorkerId : Option Uuid
  previousStatus : TaskState
  expiredAt : Option Seconds
  deadlineExceeded : Bool

def Task.reclaimed (cfg : Config) (policies : TaskPolicies) (now : Seconds) (draw : Uuid → ℚ)
    (t : Task) : ReclaimedTask where
  id := t.id
  taskType := t.taskType
  correlationId := t.correlationId
  attemptCount := (t.reclaim cfg policies now draw).attemptCount
  status := (t.reclaim cfg policies now draw).status
  notBefore := (t.reclaim cfg policies now draw).notBefore
  previousWorkerId := t.assignedWorkerId
  previousStatus := t.status
  expiredAt := t.leaseExpiresAt
  deadlineExceeded :=
    ((isNotNull t.deadlineAt).and (rel (fun a b : Seconds => a ≤ b) t.deadlineAt (some now))).holds

@[simp] theorem Task.reclaimed_id {cfg : Config} {policies : TaskPolicies} {now : Seconds}
    {draw : Uuid → ℚ} (t : Task) : (t.reclaimed cfg policies now draw).id = t.id := rfl

/-- The row `_RECORD_EXPIRY_SQL` writes for a reclaimed task: the attempt that
ended, not the one about to start. -/
def ReclaimedTask.attempt (now : Seconds) (r : ReclaimedTask) : TaskAttempt where
  taskId := r.id
  attemptNumber := r.attemptCount - 1
  workerId := r.previousWorkerId
  outcome := if r.status = .failed then .failed else .reassigned
  reason := if r.deadlineExceeded then "execution_deadline_exceeded" else "lease_expired"
  correlationId := some r.correlationId
  recordedAt := now

/-- The `expired` subquery. -/
def expiredRows (db : Db) (now : Seconds) (batch : Int) (skip : List Uuid) : List Task :=
  ((db.tasks.rows.filter fun t =>
      (expired now t).holds && !skip.contains t.id).insertionSort leaseOrder).take batch.toNat

/-- `reclaim_expired_leases`. -/
def reclaimExpiredLeases (cfg : Config) (db : Db) (now : Seconds) (batch : Int) (skip : List Uuid)
    (draw : Uuid → ℚ) : Except QueueLimitExceeded (Db × List ReclaimedTask) :=
  if batch < 1 then .error ⟨"batch must be at least 1"⟩
  else
    let rows := expiredRows db now batch skip
    let reclaimed := rows.map (Task.reclaimed cfg db.policies now draw)
    .ok ({ db with
        tasks := db.tasks.updateWhere (fun t => t.id ∈ rows.map Task.id)
          (Task.reclaim cfg db.policies now draw) Task.reclaim_id
        attempts := db.attempts ++ reclaimed.map (ReclaimedTask.attempt now) },
      reclaimed)

/-- What a sweep that is not refused does. -/
theorem reclaimExpiredLeases_eq_ok {cfg : Config} {db db' : Db} {now : Seconds} {batch : Int}
    {skip : List Uuid} {draw : Uuid → ℚ} {rows : List ReclaimedTask}
    (h : reclaimExpiredLeases cfg db now batch skip draw = .ok (db', rows)) :
    db' = { db with
      tasks := db.tasks.updateWhere (fun t => t.id ∈ (expiredRows db now batch skip).map Task.id)
        (Task.reclaim cfg db.policies now draw) Task.reclaim_id
      attempts := db.attempts ++ rows.map (ReclaimedTask.attempt now) } ∧
    rows = (expiredRows db now batch skip).map (Task.reclaimed cfg db.policies now draw) := by
  unfold reclaimExpiredLeases at h
  split at h
  · cases h
  simp only [Except.ok.injEq, Prod.mk.injEq] at h
  obtain ⟨rfl, rfl⟩ := h
  exact ⟨rfl, rfl⟩

/-! ## Cancel and purge -/

/-- The `SET` clause of `cancel_queued_task`. -/
def Task.cancel (now : Seconds) (t : Task) : Task :=
  { t with status := .cancelled, updatedAt := now }

@[simp] theorem Task.cancel_id {now : Seconds} (t : Task) : (t.cancel now).id = t.id := rfl

/-- `cancel_queued_task` once the id is parsed. -/
def cancelQueuedTaskAt (db : Db) (now : Seconds) (taskId : Uuid) :
    Db × Outcome × Option TaskState :=
  match db.tasks.get? taskId with
  | none => (db, .notFound, none)
  | some row =>
      if row.status ≠ .queued then (db, .notCancellable, some row.status)
      else (db.updateTask taskId (Task.cancel now) Task.cancel_id, .transitioned, some row.status)

/-- `cancel_queued_task`. -/
def cancelQueuedTask (db : Db) (now : Seconds) (taskId : String) :
    Db × Outcome × Option TaskState :=
  match Uuid.parse taskId with
  | none => (db, .notFound, none)
  | some id => cancelQueuedTaskAt db now id

/-- The `WHERE` clause of `purge_expired_results`. -/
def pastRetention (now : Seconds) (retentionDays : Int) (r : TaskResult) : Bool :=
  r.submittedAt < now - 86400 * retentionDays

/-- `ON DELETE SET NULL` on `tasks.result_id`. -/
def Task.clearResult (t : Task) : Task := { t with resultId := none }

@[simp] theorem Task.clearResult_id (t : Task) : t.clearResult.id = t.id := rfl

/-- Whether a row points at one of the deleted results. -/
def pointsInto (deleted : TaskResult → Bool) (results : TaskResults) (t : Task) : Bool :=
  match t.resultId.bind results.get? with
  | some r => deleted r
  | none => false

/-- The results a purge deletes: none when retention is switched off. -/
def purged (now : Seconds) (retentionDays : Int) (r : TaskResult) : Bool :=
  0 < retentionDays && pastRetention now retentionDays r

/-- `purge_expired_results`. -/
def purgeExpiredResults (db : Db) (now : Seconds) (retentionDays : Int) : Db × Nat :=
  if retentionDays ≤ 0 then (db, 0)
  else
    -- the foreign key clears `result_id` of the tasks that pointed there
    ({ db with
        results := db.results.deleteWhere (pastRetention now retentionDays)
        tasks := db.tasks.updateWhere (pointsInto (pastRetention now retentionDays) db.results)
          Task.clearResult Task.clearResult_id },
      (db.results.rows.filter (pastRetention now retentionDays)).length)

theorem pointsInto_iff {deleted : TaskResult → Bool} {results : TaskResults} {t : Task} :
    pointsInto deleted results t = true ↔
      ∃ r ∈ results, t.resultId = some r.id ∧ deleted r = true := by
  unfold pointsInto
  cases hres : t.resultId with
  | none => simp
  | some rid =>
      simp only [Option.bind_some]
      constructor
      · intro h
        split at h
        · next r hget =>
            obtain ⟨hmem, hid⟩ := Table.get?_eq_some_iff.mp hget
            exact ⟨r, hmem, by rw [hid], h⟩
        · cases h
      · rintro ⟨r, hmem, hid, hdel⟩
        rw [Option.some.injEq] at hid
        rw [hid, Table.get?_of_mem hmem]
        exact hdel

/-- The effect of a purge, whatever the retention. -/
theorem purgeExpiredResults_fst (db : Db) (now : Seconds) (retentionDays : Int) :
    (purgeExpiredResults db now retentionDays).1 =
      { db with
        results := db.results.deleteWhere (purged now retentionDays)
        tasks := db.tasks.updateWhere (pointsInto (purged now retentionDays) db.results)
          Task.clearResult Task.clearResult_id } := by
  unfold purgeExpiredResults
  split
  · next hoff =>
      have hnone : ∀ r, purged now retentionDays r = false := by
        intro r
        simp [purged, hoff]
      have hkeep : ∀ t, ¬ pointsInto (purged now retentionDays) db.results t = true := by
        intro t ht
        obtain ⟨r, -, -, hdel⟩ := pointsInto_iff.mp ht
        rw [hnone r] at hdel
        cases hdel
      rw [Table.deleteWhere_eq_self fun r _ => hnone r,
        Table.updateWhere_eq_self fun t _ ht => absurd ht (hkeep t)]
  · next hon =>
      have hsame : purged now retentionDays = pastRetention now retentionDays := by
        funext r
        simp [purged, Int.not_le.mp hon]
      rw [hsame]

end TaskFleet.Model
