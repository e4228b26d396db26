import TaskFleet.Lib.Table
import TaskFleet.Model.TaskStates
import TaskFleet.Model.TaskTypes
import TaskFleet.Model.Config
import TaskFleet.Model.Results

/-!
# `models.py`: the four tables the queue lives in

The columns are the source's. `tasks` and `task_results` are keyed by `id`,
`task_policies` by `task_type`; `task_attempts` is only ever appended to and
its generated key is never read, so it is a list. The `workers` table is left
out: the queue reads nothing from it, and no row of it is ever deleted.
-/

namespace TaskFleet.Model

open Py

/-- A row of `tasks`. -/
structure Task where
  id : Uuid
  taskType : TaskType
  payload : Option Json
  parameters : Json
  priority : Int
  status : TaskState
  assignedWorkerId : Option Uuid
  assignedAt : Option Seconds
  startedAt : Option Seconds
  leaseExpiresAt : Option Seconds
  deadlineAt : Option Seconds
  attemptCount : Nat
  excludedWorkerId : Option Uuid
  notBefore : Option Seconds
  resultId : Option Uuid
  completedAt : Option Seconds
  correlationId : String
  createdAt : Seconds
  updatedAt : Seconds

/-- A row of `task_results`. -/
structure TaskResult where
  id : Uuid
  payload : Envelope
  sizeBytes : Nat
  submittedAt : Seconds

/-- The `outcome` strings the queue writes to `task_attempts`. -/
inductive AttemptOutcome where
  | reassigned
  | fenced
  | failed
  deriving DecidableEq, Repr

/-- A row of `task_attempts`: one abnormal ending. -/
structure TaskAttempt where
  taskId : Uuid
  attemptNumber : Nat
  workerId : Option Uuid
  outcome : AttemptOutcome
  reason : String
  correlationId : Option String
  recordedAt : Seconds
  deriving DecidableEq

/-- `POLICY_FIELDS`. -/
inductive PolicyField where
  | ackTimeoutSeconds
  | leaseTtlSeconds
  | maxExecutionSeconds
  | maxAttempts
  deriving DecidableEq, Repr

/-- A row of `task_policies`: the overrides of one type, column by column. -/
structure TaskPolicy where
  taskType : TaskType
  override : PolicyField → Option Int
  updatedAt : Seconds

abbrev Tasks := Table Uuid Task Task.id
abbrev TaskResults := Table Uuid TaskResult TaskResult.id
abbrev TaskPolicies := Table TaskType TaskPolicy TaskPolicy.taskType

/-- The database. -/
structure Db where
  tasks : Tasks
  results : TaskResults
  attempts : List TaskAttempt
  policies : TaskPolicies

/-- The database a deployment starts from. -/
def Db.empty : Db := ⟨.empty, .empty, [], .empty⟩

end TaskFleet.Model
