import TaskFleet.Model.TaskQueue
import TaskFleet.Lib.Paging

/-!
# `task_queue.py`: the task listing

`list_tasks` is one `SELECT`: the filters that were given, `ORDER BY created_at DESC, id
DESC`, and a window of one row more than was asked for. PostgreSQL orders UUIDs as
numbers. The columns it returns are `TaskSummary`; the result body is not among them.
-/

namespace TaskFleet.Model

open Py Sql

/-- The status as it is stored. -/
def TaskState.text : TaskState → String
  | queued => "QUEUED"
  | assigned => "ASSIGNED"
  | running => "RUNNING"
  | completed => "COMPLETED"
  | failed => "FAILED"
  | cancelled => "CANCELLED"
  | reassigned => "REASSIGNED"

/-- `TASK_STATES`. -/
def taskStates : List String :=
  ["QUEUED", "ASSIGNED", "RUNNING", "COMPLETED", "FAILED", "CANCELLED", "REASSIGNED"]

theorem TaskState.text_mem (s : TaskState) : s.text ∈ taskStates := by
  cases s <;> decide

/-- The filters of `list_tasks`. -/
structure ListQuery where
  statuses : Option (List String) := none
  taskType : Option String := none
  workerId : Option Uuid := none
  correlationId : Option String := none
  deriving DecidableEq

/-- Why `list_tasks` raises. -/
inductive ListRefusal where
  | queueLimitExceeded (error : QueueLimitExceeded)
  | unknownTaskState (state : String)
  | unknownTaskType (name : String)
  deriving DecidableEq

/-- What is wrong with the filters: the first status that is no state, then the type. -/
def ListQuery.refusal (query : ListQuery) : Option ListRefusal :=
  match (query.statuses.getD []).find? fun state => state ∉ taskStates with
  | some state => some (.unknownTaskState state)
  | none =>
      match query.taskType with
      | none => none
      | some name => if (TaskType.ofName name).isNone then some (.unknownTaskType name) else none

/-- The `WHERE` clause. No statuses, or an empty list of them, is no filter. -/
def ListQuery.filter (query : ListQuery) (t : Task) : Tri :=
  (test ((query.statuses.getD []).isEmpty || (query.statuses.getD []).contains t.status.text)).and
    ((test (query.taskType.all fun name => t.taskType.name = name)).and
      ((match query.workerId with
        | none => test true
        | some w => rel (fun a b : Uuid => a = b) t.assignedWorkerId (some w)).and
        (test (query.correlationId.all fun c => t.correlationId = c))))

/-- `ORDER BY created_at DESC, id DESC`. -/
def listOrder (a b : Task) : Prop :=
  b.createdAt < a.createdAt ∨ (a.createdAt = b.createdAt ∧ b.id.int ≤ a.id.int)

instance : DecidableRel listOrder := fun _ _ =>
  inferInstanceAs (Decidable (_ ∨ _))

/-- The columns of a listed row. -/
structure TaskSummary where
  id : Uuid
  taskType : TaskType
  status : TaskState
  priority : Int
  assignedWorkerId : Option Uuid
  assignedAt : Option Seconds
  startedAt : Option Seconds
  completedAt : Option Seconds
  createdAt : Seconds
  updatedAt : Seconds
  attemptCount : Nat
  correlationId : String
  resultId : Option Uuid
  leaseExpiresAt : Option Seconds
  deadlineAt : Option Seconds
  notBefore : Option Seconds
  excludedWorkerId : Option Uuid
  deriving DecidableEq

def Task.summary (t : Task) : TaskSummary where
  id := t.id
  taskType := t.taskType
  status := t.status
  priority := t.priority
  assignedWorkerId := t.assignedWorkerId
  assignedAt := t.assignedAt
  startedAt := t.startedAt
  completedAt := t.completedAt
  createdAt := t.createdAt
  updatedAt := t.updatedAt
  attemptCount := t.attemptCount
  correlationId := t.correlationId
  resultId := t.resultId
  leaseExpiresAt := t.leaseExpiresAt
  deadlineAt := t.deadlineAt
  notBefore := t.notBefore
  excludedWorkerId := t.excludedWorkerId

/-- The query before its window is cut. -/
def listedRows (db : Db) (query : ListQuery) : List Task :=
  (db.tasks.rows.filter fun t => (query.filter t).holds).insertionSort listOrder

/-- `list_tasks`. -/
def listTasks (db : Db) (query : ListQuery) (limit offset maxLimit : Int) :
    Except ListRefusal (List TaskSummary × Bool) :=
  if limit < 1 then .error (.queueLimitExceeded ⟨"limit must be at least 1"⟩)
  else if maxLimit < limit then
    .error (.queueLimitExceeded ⟨"limit " ++ toString limit ++ " exceeds the " ++
      toString maxLimit ++ "-task listing cap"⟩)
  else if offset < 0 then .error (.queueLimitExceeded ⟨"offset must not be negative"⟩)
  else
    match query.refusal with
    | some refusal => .error refusal
    | none =>
        let rows := (((listedRows db query).drop offset.toNat).take (limit + 1).toNat).map
          Task.summary
        let hasMore := decide (limit < rows.length)
        .ok (rows.take limit.toNat, hasMore)

/-- A caller that pages: the calls with the offsets `0`, `limit`, `2 * limit`, … until
`has_more` is false, the `i`th of them on the database `dbs i`. -/
def listAll (dbs : ℕ → Db) (query : ListQuery) (limit maxLimit : Int) (fuel : ℕ) :
    Option (Except ListRefusal (List TaskSummary)) :=
  Paging.collect (fun i => listTasks (dbs i) query limit (i * limit) maxLimit) fuel 0

/-! ## One call -/

/-- A call within the limits is refused for its filters only, and otherwise answers with a
page of the matching rows. -/
theorem listTasks_eq (db : Db) (query : ListQuery) {limit maxLimit : Int} (hlimit : 1 ≤ limit)
    (hmax : limit ≤ maxLimit) (i : ℕ) :
    listTasks db query limit (i * limit) maxLimit =
      match query.refusal with
      | some refusal => .error refusal
      | none => .ok (Paging.page limit.toNat ((listedRows db query).map Task.summary)
          (i * limit.toNat)) := by
  obtain ⟨n, rfl⟩ := Int.eq_ofNat_of_zero_le (show 0 ≤ limit by omega)
  have hoffset : ¬ (i : Int) * n < 0 := by
    rw [← Nat.cast_mul]
    omega
  rw [listTasks, if_neg (by omega), if_neg (by omega), if_neg hoffset]
  cases query.refusal with
  | some refusal => rfl
  | none =>
      have hdrop : ((i : Int) * n).toNat = i * n := by
        rw [← Nat.cast_mul, Int.toNat_natCast]
      have htake : ((n : Int) + 1).toNat = n + 1 := rfl
      simp [Paging.page, hdrop, htake, ← List.map_drop, ← List.map_take]

theorem listedRows_perm (db : Db) (query : ListQuery) :
    (listedRows db query).Perm (db.tasks.rows.filter fun t => (query.filter t).holds) :=
  List.perm_insertionSort _ _

@[simp] theorem mem_listedRows {db : Db} {query : ListQuery} {t : Task} :
    t ∈ listedRows db query ↔ t ∈ db.tasks ∧ (query.filter t).holds = true := by
  rw [(listedRows_perm db query).mem_iff, List.mem_filter]
  rfl

/-- No id is listed twice. -/
theorem listedRows_nodup (db : Db) (query : ListQuery) :
    ((listedRows db query).map Task.id).Nodup :=
  ((listedRows_perm db query).map Task.id).nodup_iff.mpr
    (db.tasks.nodup.sublist (List.filter_sublist.map Task.id))

end TaskFleet.Model
