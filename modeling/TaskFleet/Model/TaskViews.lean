import TaskFleet.Model.Inspection
import TaskFleet.Model.Listing
import Mathlib.Data.List.Dedup
import Mathlib.Data.Rat.Floor

/-!
# `task_queue.py`: the read-only queries

What the operator endpoints and the dashboard ask of the tables. None of them writes.
`task_attempts` has a generated key that only the feed of recent endings reads, to break
ties; it is an argument there, from the row's place in the table.
-/

namespace TaskFleet.Model

open Py Sql

/-! ## Counts -/

/-- `queue_depth`. -/
def queueDepth (db : Db) : Nat := (db.tasks.rows.filter fun t => t.status = .queued).length

/-- The values `tasks.status` can have. -/
def TaskState.all : List TaskState :=
  [.queued, .assigned, .running, .completed, .failed, .cancelled, .reassigned]

/-- The rows of one status. -/
def statusCount (db : Db) (s : TaskState) : Nat :=
  (db.tasks.rows.filter fun t => t.status = s).length

/-- `counts_by_status`: a group for every status that occurs. -/
def countsByStatus (db : Db) : List (TaskState × Nat) :=
  (TaskState.all.map fun s => (s, statusCount db s)).filter fun group => group.2 ≠ 0

/-- `expired_lease_count`. -/
def expiredLeaseCount (db : Db) (now : Seconds) : Nat :=
  (db.tasks.rows.filter fun t => (expired now t).holds).length

/-- `fenced_result_count`. -/
def fencedResultCount (db : Db) : Nat :=
  (db.attempts.filter fun a => a.outcome = .fenced).length

/-! ## Throughput -/

/-- `date_trunc('minute', …)` -/
def truncMinute (time : Seconds) : Seconds := 60 * ⌊time / 60⌋

/-- One bar of the chart. -/
structure MinuteBucket where
  minute : Seconds
  completed : Nat
  deriving DecidableEq

/-- The first minute of a window that ends with the current one. -/
def windowStart (now : Seconds) (minutes : Int) : Seconds :=
  truncMinute now - 60 * (minutes - 1)

/-- `completions_per_minute`: `generate_series` of the window, with the completions
joined to it minute by minute. -/
def completionsPerMinute (db : Db) (now : Seconds) (minutes maxMinutes : Int) :
    Except QueueLimitExceeded (List MinuteBucket) :=
  if minutes < 1 then .error ⟨"minutes must be at least 1"⟩
  else if maxMinutes < minutes then
    .error ⟨"window of " ++ toString minutes ++ " minutes exceeds the " ++ toString maxMinutes ++
      " cap"⟩
  else
    let start := windowStart now minutes
    let hits := ((db.tasks.rows.filterMap Task.completedAt).filter (start ≤ ·)).map truncMinute
    .ok ((List.range minutes.toNat).map fun (i : ℕ) =>
      let minute := start + 60 * (i : Seconds)
      { minute := minute, completed := (hits.filter (· = minute)).length })

/-! ## Endings -/

/-- The `outcome` as it is stored. -/
def AttemptOutcome.text : AttemptOutcome → String
  | reassigned => "REASSIGNED"
  | fenced => "FENCED"
  | failed => "FAILED"

/-- `KNOWN_ATTEMPT_OUTCOMES`. The first is only written by a migration. -/
def knownAttemptOutcomes : List String := ["EXPIRED", "REASSIGNED", "FENCED", "FAILED"]

/-- `ORDER BY recorded_at, attempt_number` -/
def attemptOrder (a b : TaskAttempt) : Prop :=
  a.recordedAt < b.recordedAt ∨
    (a.recordedAt = b.recordedAt ∧ a.attemptNumber ≤ b.attemptNumber)

instance : DecidableRel attemptOrder := fun _ _ => inferInstanceAs (Decidable (_ ∨ _))

/-- `task_attempts` -/
def taskAttempts (db : Db) (taskId : String) (limit : Nat) : List TaskAttempt :=
  match Uuid.parse taskId with
  | none => []
  | some id => ((db.attempts.filter fun a => a.taskId = id).insertionSort attemptOrder).take limit

/-- One row of `worker_failure_counts`. -/
structure FailureCount where
  workerId : Uuid
  outcome : AttemptOutcome
  failures : Nat
  lastFailureAt : Seconds
  deriving DecidableEq

/-- The rows of one group. -/
def failureGroup (db : Db) (workerId : Uuid) (outcome : AttemptOutcome) : List TaskAttempt :=
  db.attempts.filter fun a => a.workerId = some workerId ∧ a.outcome = outcome

/-- `max(recorded_at)` of a group, which has a row. -/
def lastRecorded (attempts : List TaskAttempt) : Seconds :=
  ((attempts.map TaskAttempt.recordedAt).max?).getD 0

/-- `worker_failure_counts`: `GROUP BY worker_id, outcome ORDER BY failures DESC` -/
def workerFailureCounts (db : Db) : List FailureCount :=
  let groups := (db.attempts.filterMap fun a => a.workerId.map fun w => (w, a.outcome)).dedup
  (groups.map fun group =>
    { workerId := group.1
      outcome := group.2
      failures := (failureGroup db group.1 group.2).length
      lastFailureAt := lastRecorded (failureGroup db group.1 group.2) }).insertionSort
    fun a b => b.failures ≤ a.failures

/-- `ORDER BY recorded_at DESC, id DESC`, on a row and its generated key. -/
def recentOrder (a b : TaskAttempt × Uuid) : Prop :=
  b.1.recordedAt < a.1.recordedAt ∨
    (a.1.recordedAt = b.1.recordedAt ∧ b.2.int ≤ a.2.int)

instance : DecidableRel recentOrder := fun _ _ => inferInstanceAs (Decidable (_ ∨ _))

/-- `recent_attempts`. An empty list of outcomes is no filter. -/
def recentAttempts (ids : ℕ → Uuid) (db : Db) (limit : Nat) (outcomes : Option (List String))
    (workerId : Option String) : List (TaskAttempt × Uuid) :=
  let page (p : TaskAttempt → Bool) :=
    (((db.attempts.zipIdx.map fun x => (x.1, ids x.2)).filter fun x => p x.1).insertionSort
      recentOrder).take limit
  let wanted (a : TaskAttempt) : Bool :=
    (outcomes.getD []).isEmpty || (outcomes.getD []).contains a.outcome.text
  match workerId with
  | none => page wanted
  | some text =>
      match Uuid.parse text with
      | none => []
      | some w => page fun a => wanted a && decide (a.workerId = some w)

/-! ## One task -/

/-- What `get_task` selects: the row, and the body it points at. -/
structure TaskDetail where
  row : TaskSummary
  resultPayload : Option Envelope
  resultSizeBytes : Option Nat
  resultSubmittedAt : Option Seconds

/-- The body a row points at: `LEFT JOIN task_results r ON r.id = t.result_id` -/
def joinedResult (db : Db) (t : Task) : Option TaskResult := t.resultId.bind db.results.get?

def Task.detail (db : Db) (t : Task) : TaskDetail where
  row := t.summary
  resultPayload := (joinedResult db t).map TaskResult.payload
  resultSizeBytes := (joinedResult db t).map TaskResult.sizeBytes
  resultSubmittedAt := (joinedResult db t).map TaskResult.submittedAt

/-- `get_task` -/
def getTask (db : Db) (taskId : String) : Option TaskDetail :=
  ((Uuid.parse taskId).bind db.tasks.get?).map (Task.detail db)

end TaskFleet.Model
