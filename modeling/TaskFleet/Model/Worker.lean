import TaskFleet.Model.Assignment

/-!
# `worker.py`: the task runner

What one worker process keeps across its sockets: the tasks that occupy its
slots and the results the coordinator has not answered for yet. The thread
pool is not modelled; an execution is an entry of `running` whose executor has
or has not returned (`ended`). The times in `result_sent_at` only pace the
retry loop, so they are left out and a retry may happen at any moment.
-/

namespace TaskFleet.Model

open Py

/-- The worker's environment. -/
structure WorkerConfig where
  maxConcurrent : Nat := 4
  supportedTaskTypes : List String := ["count_to_n", "hash_rounds", "sleep", "opaque_payload"]
  maxPendingResults : Nat := 64
  maxResultBytes : Nat := 128 * 1024

/-- The keys of `EXECUTORS`. -/
def executors : List String := ["count_to_n", "hash_rounds", "sleep", "opaque_payload"]

/-- `RunningTask`. -/
structure RunningTask where
  taskId : Uuid
  taskType : TaskType
  correlationId : String
  attempt : Nat
  sessionEpoch : Nat
  idempotencyToken : Token
  cancel : Bool := false
  /-- The executor has returned; the report is out and the `finally` is left. -/
  ended : Bool := false

/-- `task.cancel.set()`. -/
def RunningTask.setCancel (t : RunningTask) : RunningTask := { t with cancel := true }

@[simp] theorem RunningTask.setCancel_taskId (t : RunningTask) :
    t.setCancel.taskId = t.taskId := rfl

/-- The executor returned. -/
def RunningTask.setEnded (t : RunningTask) : RunningTask := { t with ended := true }

@[simp] theorem RunningTask.setEnded_taskId (t : RunningTask) : t.setEnded.taskId = t.taskId := rfl

/-- A result envelope the worker can put on the wire: it took no negative time
and `json.dumps` spells it. -/
structure WorkerResult extends Body where
  elapsed : durationSeconds.isNegative = false
  encodable : toBody.toJson.encodable = true

/-- The members of the payload. -/
def Body.payload (b : Body) : List (String × Json) :=
  match b.toJson with
  | .obj fields => fields
  | _ => []

/-- `_build_result_envelope`. -/
def buildResultEnvelope (fl : FloatOps) (maxResultBytes : Nat) (task : RunningTask) (result : Json)
    (duration : PyFloat) : Body :=
  let envelope : Body :=
    { taskId := task.taskId.str
      taskId_canonical := ⟨task.taskId, rfl⟩
      status := ⟨"COMPLETED", completed_accepted⟩
      attemptNumber := task.attempt
      sessionEpoch := task.sessionEpoch
      idempotencyToken := task.idempotencyToken
      durationSeconds := fl.round3 duration
      result := result
      truncated := false
      originalSizeBytes := none }
  let size := (Json.dumps fl envelope.toJson).utf8ByteSize
  if maxResultBytes < size then
    { envelope with result := .null, truncated := true, originalSizeBytes := some size }
  else envelope

/-- The envelope of an execution that returned; executors return numbers and
text that JSON can spell, after a time that is not negative. -/
def RunningTask.result? (fl : FloatOps) (maxResultBytes : Nat) (task : RunningTask) (result : Json)
    (duration : PyFloat) : Option WorkerResult :=
  let body := buildResultEnvelope fl maxResultBytes task result duration
  if h : body.durationSeconds.isNegative = false ∧ body.toJson.encodable = true then
    some ⟨body, h.1, h.2⟩
  else none

/-- `TaskRunner`. -/
structure TaskRunner where
  running : Table Uuid RunningTask RunningTask.taskId := .empty
  /-- The value of the semaphore. -/
  slots : Nat
  sessionEpoch : Nat := 0
  pendingResults : Dict String WorkerResult := .empty

namespace TaskRunner

/-- `tasks_in_flight`. -/
def tasksInFlight (r : TaskRunner) : Nat := r.running.rows.length

/-- The `while` of `record_result`: the oldest entries go until there is room
for one more. -/
def makeRoom (cap : Nat) (r : TaskRunner) : Dict String WorkerResult :=
  r.pendingResults.dropFirst (r.pendingResults.size + 1 - cap)

/-- `record_result`. -/
def recordResult (cap : Nat) (r : TaskRunner) (taskId : String) (envelope : WorkerResult) :
    TaskRunner :=
  { r with pendingResults := (r.makeRoom cap).set taskId envelope }

/-- `result_acknowledged`. -/
def resultAcknowledged (r : TaskRunner) (taskId : String) : TaskRunner :=
  { r with pendingResults := r.pendingResults.erase taskId }

/-- `_handle_cancel`. -/
def handleCancel (r : TaskRunner) (taskId : Uuid) : TaskRunner :=
  { r with
    running := r.running.updateWhere (fun t => t.taskId = taskId) RunningTask.setCancel
      RunningTask.setCancel_taskId }

/-- The executor of the task has returned. -/
def endTask (r : TaskRunner) (taskId : Uuid) : TaskRunner :=
  { r with
    running := r.running.updateWhere (fun t => t.taskId = taskId) RunningTask.setEnded
      RunningTask.setEnded_taskId }

/-- The `finally` of `_execute_task`. -/
def releaseTask (r : TaskRunner) (taskId : Uuid) : TaskRunner :=
  { r with
    running := r.running.deleteWhere fun t => t.taskId = taskId
    slots := r.slots + 1 }

end TaskRunner

/-- The four outcomes of `_handle_assignment`. -/
inductive Admission where
  | unsupportedType
  | duplicate
  | atCapacity
  | admitted
  deriving DecidableEq, Repr

/-- Which of them a `task_assign` meets. -/
def TaskRunner.admission (wc : WorkerConfig) (r : TaskRunner) (taskId : Uuid)
    (taskType : TaskType) :
    Admission :=
  if taskType.name ∉ wc.supportedTaskTypes ∨ taskType.name ∉ executors then .unsupportedType
  else if (r.running.get? taskId).isSome then .duplicate
  else if r.slots = 0 then .atCapacity
  else .admitted

/-- The slot is taken and the task is running. -/
def TaskRunner.admit (r : TaskRunner) (task : ClaimedTask) (token : Token) : TaskRunner :=
  { r with
    slots := r.slots - 1
    running := r.running.insert
      { taskId := task.id
        taskType := task.taskType
        correlationId := task.correlationId
        attempt := task.attemptCount
        sessionEpoch := r.sessionEpoch
        idempotencyToken := token } }

/-! ## What the coordinator makes of a result -/

section

variable (fl : FloatOps) (r : WorkerResult)

theorem payload_eq (b : Body) : Json.obj b.payload = b.toJson := rfl

/-- What `validate` reads back from an envelope of a worker: the same body, its
duration rounded once more. -/
def WorkerResult.readBack (r : WorkerResult) : Body :=
  { r.toBody with
    durationSeconds := fl.round3 r.durationSeconds
    originalSizeBytes := if r.truncated then r.originalSizeBytes else none }

/-- The size of a truncated body reads back as it was written. -/
theorem optionalInt_originalSize (htruncated : r.truncated = true) :
    optionalInt (Json.get r.payload "original_size_bytes") = r.originalSizeBytes := by
  have hget : Json.get r.payload "original_size_bytes" =
      (r.originalSizeBytes.map fun n => Json.int n).getD .null := by
    simp only [Body.payload, Body.toJson, Body.members, htruncated, if_true]
    rfl
  rw [hget]
  cases r.originalSizeBytes with
  | none => rfl
  | some n => simp [optionalInt]

/-- **What a worker sends, the coordinator reads.** An envelope of a worker
passes every check. -/
theorem readBody_payload : readBody fl r.payload = .ok (r.readBack fl) := by
  have hsize : (if (Json.get r.payload "truncated").truthy
      then optionalInt (Json.get r.payload "original_size_bytes") else none) =
      if r.truncated then r.originalSizeBytes else none := by
    show (if r.truncated then _ else none) = _
    split
    · next h => exact optionalInt_originalSize r h
    · rfl
  have hstatus : readStatus (Json.getStr fl r.payload "status") = .ok r.status := by
    have hget : Json.get r.payload "status" = .str r.status.val := rfl
    have hval : r.status.val = "COMPLETED" := List.mem_singleton.mp r.status.property
    have hne : r.status.val ≠ "" := by rw [hval]; decide
    simp [Json.getStr, hget, Json.truthy, Json.pyStr, readStatus, hne, r.status.property]
  have htoken : readToken (Json.get r.payload "idempotency_token") = .ok r.idempotencyToken := by
    have hget : Json.get r.payload "idempotency_token" = .str r.idempotencyToken.val := rfl
    simp [hget, readToken, r.idempotencyToken.property]
  have hduration : readDuration (Json.get r.payload "duration_seconds") = .ok
      (.inr r.durationSeconds) := by
    have hget : Json.get r.payload "duration_seconds" = .float r.durationSeconds := rfl
    simp [hget, readDuration, r.elapsed]
  have hattempt : requireInt r.payload "attempt_number" .badAttempt = .ok r.attemptNumber := by
    have hget : Json.get r.payload "attempt_number" = .int r.attemptNumber := rfl
    simp [requireInt, hget]
  have hepoch : requireInt r.payload "session_epoch" .badEpoch = .ok r.sessionEpoch := by
    have hget : Json.get r.payload "session_epoch" = .int r.sessionEpoch := rfl
    simp [requireInt, hget]
  obtain ⟨⟨_, ⟨u, rfl⟩, status, attempt, epoch, token, duration, result, truncated, size⟩, h,
    h'⟩ := r
  have hid : readTaskId u.str = .ok u := by simp [readTaskId]
  have hget : ∀ fields, Json.get (("task_id", .str u.str) :: fields) "task_id" =
      .str u.str := fun _ => rfl
  have hstr : ∀ fields, Json.getStr fl (("task_id", .str u.str) :: fields) "task_id" = u.str := by
    intro fields
    simp [Json.getStr, hget, Json.truthy, Json.pyStr, Uuid.str_ne_empty]
  rw [readBody, hstatus, htoken, hduration, hattempt, hepoch]
  show (readTaskId (Json.getStr fl (("task_id", .str u.str) :: _) "task_id") >>= _) = _
  rw [hstr, hid]
  exact congrArg (fun n => Except.ok (⟨u.str, ⟨u, rfl⟩, status, attempt, epoch, token,
    fl.round3 duration, result, truncated, n⟩ : Body)) hsize

theorem encodableFields_append (xs ys : List (String × Json)) :
    Json.encodableFields (xs ++ ys) = (Json.encodableFields xs && Json.encodableFields ys) := by
  induction xs with
  | nil => rfl
  | cons x xs ih =>
      obtain ⟨key, value⟩ := x
      simp only [List.cons_append, Json.encodableFields, ih, Bool.and_assoc]

/-- Reading an envelope back does not change what there is to encode. -/
theorem encodable_readBack : (r.readBack fl).toJson.encodable = true := by
  obtain ⟨⟨taskId, hid, status, attempt, epoch, token, duration, result, truncated, size⟩, -,
    h⟩ := r
  rw [← h]
  simp only [Body.toJson, Body.members, Json.encodable, encodableFields_append,
    WorkerResult.readBack]
  cases truncated <;> rfl

/-- An envelope of a worker validates, to an envelope of the same task and
token. -/
theorem validate_payload (maxBytes : Int) :
    ∃ e, validate fl r.payload maxBytes = .ok e ∧ e.taskId = r.taskId ∧
      e.idempotencyToken = r.idempotencyToken ∧ e.attemptNumber = r.attemptNumber := by
  have hread : validate fl r.payload maxBytes = (r.readBack fl).seal fl maxBytes := by
    rw [validate, readBody_payload]
    exact pure_bind (m := Except ValidateError) _ _
  rw [hread, Body.seal, if_neg (by rw [encodable_readBack]; exact Bool.noConfusion)]
  dsimp only
  split
  · exact ⟨_, rfl, rfl, rfl, rfl⟩
  · exact ⟨_, rfl, rfl, rfl, rfl⟩

end

end TaskFleet.Model
