import TaskFleet.Model.EnqueueBatch
import TaskFleet.Model.RateLimit
import TaskFleet.Model.TaskViews

/-!
# `main.py`: the operator endpoints

Each endpoint is a check of the request, a guard, and one transaction of the queue, after
which some of them read on. Under `READ COMMITTED` every further statement sees what has
been committed by then, so what is left to read is a state of its own (`ApiRest`).

The body of a response is what the endpoint puts into it; ISO texts and the rounded
durations of `_task_summary` are left out. A refusal carries the exception, whose text is
what `str(exc)` gives.
-/

namespace TaskFleet.Model

open Py

/-- `hmac.compare_digest` on two strings, which raises unless both are ASCII. -/
def compareDigest (a b : String) : Option Bool :=
  if a.toList.all (fun c => c.toNat < 128) && b.toList.all (fun c => c.toNat < 128) then
    some (a = b)
  else none

/-- The settings the endpoints read. -/
structure ApiSettings where
  cfg : Config := {}
  limits : RateLimits := {}
  adminSecret : String
  taskListMaxLimit : Int := 200
  taskThroughputMaxMinutes : Int := 1440

/-- `verify_admin_secret` -/
def ApiSettings.verifyAdminSecret (s : ApiSettings) (provided : String) : Option Bool :=
  compareDigest provided s.adminSecret

/-- What a transaction of a request meets: the clock, `correlation_id_var`, what `uuid4`
returns, the generated keys of `task_attempts`, the rows others have locked, and the ids of
the rows of `workers`. -/
structure ApiContext where
  now : Seconds
  correlationId : String
  taskIds : ℕ → Uuid
  attemptIds : ℕ → Uuid
  locked : List Uuid
  workers : Uuid → Bool

/-- `EnqueueTaskRequest` -/
structure EnqueueTaskRequest where
  adminSecret : String := ""
  taskType : String
  parameters : Option (List (String × Json)) := none
  payload : Option Json := none
  priority : Int := 0
  count : Int := 1

/-- `DequeueTaskRequest` -/
structure DequeueTaskRequest where
  adminSecret : String
  workerId : String
  limit : Int := 1

/-- The query string of `GET /tasks`. -/
structure ListTasksParams where
  status : Option (List String) := none
  taskType : Option String := none
  workerId : Option String := none
  correlationId : Option String := none
  limit : Int := 50
  offset : Int := 0

/-- The query string of `GET /tasks/attempts`. -/
structure ListAttemptsParams where
  outcome : Option (List String) := none
  workerId : Option String := none
  limit : Int := 50

/-- What was called. -/
inductive ApiCall where
  | enqueueTasks (body : EnqueueTaskRequest)
  | listTasks (params : ListTasksParams)
  | taskQueueDepth
  | listAttempts (params : ListAttemptsParams)
  | taskThroughput (minutes : Int)
  | listTaskPolicies
  | upsertTaskPolicy (taskType : String) (body : List (PolicyField × Option Int))
  | deleteTaskPolicy (taskType : String)
  | dequeueTasks (body : DequeueTaskRequest)
  | inspectTask (taskId : String)
  | cancelTask (taskId : String)

/-- A request: who sends it, its `X-Admin-Secret` header, and the call. -/
structure ApiRequest where
  callerIp : String
  xAdminSecret : String := ""
  call : ApiCall

/-- The `detail` of a refusal. -/
inductive ApiDetail where
  /-- `rate limited` -/
  | rateLimited
  /-- `invalid admin credential` -/
  | invalidAdminCredential
  /-- `worker_id is not a valid UUID` -/
  | workerIdNotUuid
  /-- `task not found` -/
  | taskNotFound
  /-- `unknown outcome … expected one of EXPIRED, REASSIGNED, FENCED, FAILED` -/
  | unknownOutcome (value : String)
  | enqueue (refusal : EnqueueRefusal)
  | list (refusal : ListRefusal)
  | limit (error : QueueLimitExceeded)
  | policy (error : PolicyError)
  deriving DecidableEq

/-- The body of a response. -/
inductive ApiBody where
  | detail (detail : ApiDetail)
  /-- FastAPI's own answer to a parameter out of its declared range. -/
  | unprocessable
  /-- An exception no handler catches. -/
  | serverError
  | queued (count : Nat) (taskIds : Option (List Uuid)) (correlationId : String)
  | tasks (tasks : List TaskSummary) (count : Nat) (hasMore : Bool) (params : ListTasksParams)
  | depth (depth : Nat) (counts : List (TaskState × Nat)) (fencedResults : Nat)
  | attempts (attempts : List (TaskAttempt × Uuid)) (count : Nat) (limit : Int)
      (params : ListAttemptsParams)
  | throughput (windowMinutes : Int) (series : List MinuteBucket) (completedInWindow : Nat)
  | policies (policies : List EffectivePolicy) (count : Nat)
  | policyApplied (taskType : String) (applied : List (PolicyField × Int))
      (effective : Option EffectivePolicy)
  | policyRemoved (taskType : String) (removed : Bool) (effective : Option EffectivePolicy)
  | claimed (count : Nat) (tasks : List ClaimedTask)
  | task (detail : TaskDetail) (timeline : List LifecycleEntry) (attempts : List TaskAttempt)
  | notCancellable (taskId : String) (status : Option TaskState)
  | cancelled (taskId : String) (previousStatus : Option TaskState)

/-- A response. -/
structure ApiResponse where
  statusCode : Nat
  body : ApiBody

/-- The response refuses the request. -/
def ApiResponse.refused (r : ApiResponse) : Prop := 400 ≤ r.statusCode

instance (r : ApiResponse) : Decidable r.refused := inferInstanceAs (Decidable (_ ≤ _))

def ApiResponse.refusal (statusCode : Nat) (detail : ApiDetail) : ApiResponse :=
  ⟨statusCode, .detail detail⟩

/-- What a handler has still to read, with what it has read so far. -/
inductive ApiRest where
  /-- `task_queue_depth` before `counts_by_status`. -/
  | counts (depth : Nat)
  /-- `task_queue_depth` before `fenced_result_count`. -/
  | fenced (depth : Nat) (byStatus : List (TaskState × Nat))
  /-- `inspect_task` before `task_attempts`. -/
  | attempts (taskId : String) (detail : TaskDetail) (timeline : List LifecycleEntry)
  /-- `upsert_task_policy` after its commit, before `effective_policies`. -/
  | applied (taskType : String) (values : List (PolicyField × Int))
  /-- `delete_task_policy` before `effective_policies`. -/
  | removed (taskType : String) (any : Bool)

/-- Where a statement leaves a handler. -/
inductive ApiOutcome where
  | reads (rest : ApiRest)
  | replies (response : ApiResponse)

/-- The outcome refuses the request. -/
def ApiOutcome.refused : ApiOutcome → Prop
  | .reads _ => False
  | .replies response => response.refused

def ApiOutcome.refusal (statusCode : Nat) (detail : ApiDetail) : ApiOutcome :=
  .replies (.refusal statusCode detail)

/-! ## The endpoints behind their guards -/

section

variable (s : ApiSettings) (schemas : Schemas) (ctx : ApiContext) (db : Db)

/-- What the body of `POST /tasks` asks of the queue. -/
def EnqueueTaskRequest.request (body : EnqueueTaskRequest) (correlationId : String) :
    EnqueueRequest where
  taskType := body.taskType
  parameters := body.parameters
  payload := body.payload
  priority := body.priority
  correlationId := correlationId

/-- A row the `INSERT` takes: `jsonb` holds no `NaN`, infinity or NUL, and `priority` is an
`int4`. -/
def Task.storable (t : Task) : Bool :=
  t.parameters.storable && t.payload.all Json.storable &&
    (-2147483648 ≤ t.priority && t.priority ≤ 2147483647)

/-- `enqueue_tasks`. A row that cannot be stored makes the `INSERT` raise, which rolls the
others back. -/
def enqueueTasks (body : EnqueueTaskRequest) : Db × ApiOutcome :=
  match enqueueBatch schemas db ctx.now ctx.taskIds body.count s.cfg.taskEnqueueMaxBatch
      (body.request ctx.correlationId) with
  | .error refusal => (db, .refusal 400 (.enqueue refusal))
  | .ok (db', taskIds) =>
      if (taskIds.filterMap db'.tasks.get?).all Task.storable then
        (db', .replies ⟨201, .queued taskIds.length
          (if taskIds.length = 1 then some taskIds else none) ctx.correlationId⟩)
      else (db, .replies ⟨500, .serverError⟩)

/-- `list_tasks_endpoint` -/
def listTasksEndpoint (params : ListTasksParams) : ApiResponse :=
  match params.workerId.map Uuid.parse with
  | some none => .refusal 400 .workerIdNotUuid
  | parsed =>
      let query : ListQuery := {
        statuses := params.status
        taskType := params.taskType
        workerId := parsed.bind id
        correlationId := params.correlationId }
      match TaskFleet.Model.listTasks db query params.limit params.offset s.taskListMaxLimit with
      | .error refusal => .refusal 400 (.list refusal)
      | .ok (rows, hasMore) => ⟨200, .tasks rows rows.length hasMore params⟩

/-- `list_attempts` -/
def listAttempts (params : ListAttemptsParams) : ApiResponse :=
  match (params.outcome.getD []).find? fun value => !knownAttemptOutcomes.contains value with
  | some value => .refusal 400 (.unknownOutcome value)
  | none =>
      if params.workerId.any fun w => (Uuid.parse w).isNone then .refusal 400 .workerIdNotUuid
      else
        let capped := min params.limit s.taskListMaxLimit
        let rows := recentAttempts ctx.attemptIds db capped.toNat params.outcome params.workerId
        ⟨200, .attempts rows rows.length capped params⟩

/-- `task_throughput` -/
def taskThroughput (minutes : Int) : ApiResponse :=
  match completionsPerMinute db ctx.now minutes s.taskThroughputMaxMinutes with
  | .error error => .refusal 400 (.limit error)
  | .ok series => ⟨200, .throughput minutes series (series.map MinuteBucket.completed).sum⟩

/-- `list_task_policies` -/
def listTaskPolicies : ApiResponse :=
  let policies := effectivePolicies s.cfg db.policies
  ⟨200, .policies policies policies.length⟩

/-- `task_queue_depth`, up to its first statement. -/
def taskQueueDepth : ApiOutcome := .reads (.counts (queueDepth db))

/-- `inspect_task`, up to `get_task`. -/
def inspectTask (taskId : String) : ApiOutcome :=
  match (Uuid.parse taskId).bind db.tasks.get? with
  | none => .refusal 404 .taskNotFound
  | some t => .reads (.attempts taskId (t.detail db) (lifecycle t))

/-- `upsert_task_policy`, up to its commit. -/
def upsertTaskPolicy (taskType : String) (body : List (PolicyField × Option Int)) :
    Db × ApiOutcome :=
  match validatePolicy body with
  | .error error => (db, .refusal 400 (.policy error))
  | .ok values =>
      match setPolicy db ctx.now taskType body with
      | .error error => (db, .refusal 400 (.policy error))
      | .ok db' => (db', .reads (.applied taskType values))

/-- `delete_task_policy`, up to the commit of what removed a row. -/
def deleteTaskPolicy (taskType : String) : Db × ApiOutcome :=
  match clearPolicy db taskType with
  | .error error => (db, .refusal 400 (.policy error))
  | .ok (db', removed) => (if removed then db' else db, .reads (.removed taskType removed))

/-- `dequeue_tasks`. The `UPDATE` of a row names the worker, which has to be one
(`ForeignKey("workers.id")`). -/
def dequeueTasks (body : DequeueTaskRequest) : Db × ApiOutcome :=
  match Uuid.parse body.workerId with
  | none => (db, .refusal 400 .workerIdNotUuid)
  | some worker =>
      match dequeue s.cfg db ctx.now worker body.limit s.cfg.taskDequeueMaxBatch none
          ctx.locked with
      | .error error => (db, .refusal 400 (.limit error))
      | .ok (db', rows) =>
          if rows.isEmpty || ctx.workers worker then
            (db', .replies ⟨200, .claimed rows.length rows⟩)
          else (db, .replies ⟨500, .serverError⟩)

/-- `cancel_task` -/
def cancelTask (taskId : String) : Db × ApiOutcome :=
  match cancelQueuedTask db ctx.now taskId with
  | (db', .transitioned, current) => (db', .replies ⟨200, .cancelled taskId current⟩)
  | (_, .notFound, _) => (db, .refusal 404 .taskNotFound)
  | (_, _, current) => (db, .replies ⟨409, .notCancellable taskId current⟩)

/-- The endpoint that is called, once nothing stands in its way: its transaction, or its
first statement where it only reads. -/
def ApiCall.transact : ApiCall → Db × ApiOutcome
  | .enqueueTasks body => TaskFleet.Model.enqueueTasks s schemas ctx db body
  | .listTasks params => (db, .replies (listTasksEndpoint s db params))
  | .taskQueueDepth => (db, TaskFleet.Model.taskQueueDepth db)
  | .listAttempts params => (db, .replies (TaskFleet.Model.listAttempts s ctx db params))
  | .taskThroughput minutes => (db, .replies (TaskFleet.Model.taskThroughput s ctx db minutes))
  | .listTaskPolicies => (db, .replies (TaskFleet.Model.listTaskPolicies s db))
  | .upsertTaskPolicy taskType body => TaskFleet.Model.upsertTaskPolicy ctx db taskType body
  | .deleteTaskPolicy taskType => TaskFleet.Model.deleteTaskPolicy db taskType
  | .dequeueTasks body => TaskFleet.Model.dequeueTasks s ctx db body
  | .inspectTask taskId => (db, TaskFleet.Model.inspectTask db taskId)
  | .cancelTask taskId => TaskFleet.Model.cancelTask ctx db taskId

/-- `next(entry for entry in policies if entry["task_type"] == task_type)` -/
def effectiveEntry (taskType : String) : Option EffectivePolicy :=
  (effectivePolicies s.cfg db.policies).find? fun entry => entry.taskType.name = taskType

/-- The next statement of a handler. -/
def ApiRest.resume : ApiRest → ApiOutcome
  | .counts depth => .reads (.fenced depth (countsByStatus db))
  | .fenced depth byStatus => .replies ⟨200, .depth depth byStatus (fencedResultCount db)⟩
  | .attempts taskId detail timeline =>
      .replies ⟨200, .task detail timeline (taskAttempts db taskId 50)⟩
  | .applied taskType values =>
      .replies ⟨200, .policyApplied taskType values (effectiveEntry s db taskType)⟩
  | .removed taskType any =>
      .replies ⟨200, .policyRemoved taskType any (effectiveEntry s db taskType)⟩

end

/-! ## What stands in its way -/

/-- The ranges the signatures declare, which FastAPI checks before the handler runs. -/
def ApiCall.inRange : ApiCall → Bool
  | .enqueueTasks body => 1 ≤ body.count
  | .listTasks params => 1 ≤ params.limit && 0 ≤ params.offset
  | .listAttempts params => 1 ≤ params.limit
  | .taskThroughput minutes => 1 ≤ minutes
  | .dequeueTasks body => 1 ≤ body.limit
  | _ => true

/-- Whether `_operator_guard` stands before the endpoint. The queue primitive checks the
secret by itself, without the limiter. -/
def ApiCall.limited : ApiCall → Bool
  | .dequeueTasks _ => false
  | _ => true

/-- The credential the guard is given. -/
def ApiRequest.secret (req : ApiRequest) : String :=
  match req.call with
  | .enqueueTasks body => if req.xAdminSecret = "" then body.adminSecret else req.xAdminSecret
  | .dequeueTasks body => body.adminSecret
  | _ => req.xAdminSecret

/-- The credential is the operator's. -/
def ApiRequest.authorized (s : ApiSettings) (req : ApiRequest) : Bool :=
  s.verifyAdminSecret req.secret = some true

/-- `_operator_guard` after its limiter answered, and the check of `dequeue_tasks`. -/
def ApiRequest.rejection (s : ApiSettings) (req : ApiRequest) (rateLimited : Bool) :
    Option ApiResponse :=
  if rateLimited then some (.refusal 429 .rateLimited)
  else
    match s.verifyAdminSecret req.secret with
    | none => some ⟨500, .serverError⟩
    | some false => some (.refusal 401 .invalidAdminCredential)
    | some true => none

/-- Without the operator's secret a request is rejected, whatever the limiter answered. -/
theorem rejection_of_not_authorized {s : ApiSettings} {req : ApiRequest}
    (h : req.authorized s = false) (rateLimited : Bool) :
    ∃ response, req.rejection s rateLimited = some response := by
  unfold ApiRequest.rejection
  split
  · exact ⟨_, rfl⟩
  · split
    · exact ⟨_, rfl⟩
    · exact ⟨_, rfl⟩
    · next hverify =>
        rw [ApiRequest.authorized, hverify] at h
        cases h

end TaskFleet.Model
