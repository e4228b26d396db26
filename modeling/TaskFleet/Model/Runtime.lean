import TaskFleet.Lib.Trace
import TaskFleet.Model.Declared
import TaskFleet.Model.Worker

/-!
# `worker.py`: the coroutines around a task

`TaskRunner` takes an admission and an execution as one step each. Here they are what runs
between two awaits: `_handle_assignment` lets go in its two sends, `_execute_task` in the
pool and in its report. Any number of coroutines may stand at any of these, and each event
resumes one of them.

A `RunningTask` is an object that its coroutine and `running` share, so `running` holds its
number. What `_handle_assignment` raises before it takes a slot leaves the runner as it was
(`none` of `readAssignment`).
-/

namespace TaskFleet.Model.Runtime

open Py

/-- `asyncio.Semaphore`: its value, and how many wait for it. -/
structure Semaphore where
  value : ℕ
  waiters : ℕ := 0
  deriving DecidableEq

namespace Semaphore

/-- `locked`. -/
def locked (s : Semaphore) : Bool := s.value = 0 || s.waiters ≠ 0

/-- `acquire` up to its first await; the flag says whether it got the slot. -/
def acquire (s : Semaphore) : Semaphore × Bool :=
  if s.locked then ({ s with waiters := s.waiters + 1 }, false)
  else ({ s with value := s.value - 1 }, true)

/-- `release`. A waiter it wakes takes the slot when it runs. -/
def release (s : Semaphore) : Semaphore := { s with value := s.value + 1 }

end Semaphore

/-- `RunningTask`, with any id and type. -/
structure RunningTask where
  taskId : PyStr
  taskType : PyStr
  correlationId : PyStr
  attempt : ℕ
  sessionEpoch : ℕ
  cancel : Bool := false

/-- How the future of `run_in_executor` ends. -/
inductive Ending where
  | returned
  | raised
  /-- `ExecutionCancelled` -/
  | cancelled
  deriving DecidableEq

/-- Where the coroutine of an admitted task stands. -/
inductive Pc where
  /-- `_handle_assignment` in the send of `task_ack` -/
  | acking
  /-- … and of `task_started` -/
  | starting
  /-- `_execute_task`, created and not run yet -/
  | created
  /-- … in `run_in_executor` -/
  | computing
  /-- … in the `report` or in `_submit_result` -/
  | reporting (ending : Ending)
  /-- … behind its `finally` -/
  | finished
  deriving DecidableEq

/-- The execution has run and not come to its end. -/
def Pc.isExecuting : Pc → Bool
  | computing | reporting _ => true
  | _ => false

/-- A task with its coroutine. -/
structure Job where
  task : RunningTask
  parameters : Wire
  pc : Pc := .acking

/-- `TaskRunner` and the coroutines; the `i`th job is the task of the `i`th admission. -/
structure Runner where
  slots : Semaphore
  running : Dict PyStr ℕ := .empty
  sessionEpoch : ℕ := 0
  jobs : List Job := []

/-- What a `task_assign` asks for. -/
structure Assignment where
  taskId : PyStr
  taskType : PyStr
  parameters : Wire
  attempt : Wire
  correlationId : PyStr

/-- The first lines of `_handle_assignment`. `none` is an exception: a payload that is no
object, or a text nested too deep for `str`. -/
def readAssignment (it : Interpreter) (sessionCorrelationId : PyStr)
    (message : List (PyStr × Wire)) : Option Assignment := do
  let payload ← match Wire.get message "payload" with
    | .obj fields => some fields
    | value => if value.truthy then none else some []
  let taskId ← (Loaded.getStr it payload "task_id").toOption
  let taskType ← (Loaded.getStr it payload "task_type").toOption
  let parameters :=
    if (Wire.get payload "parameters").truthy then Wire.get payload "parameters" else .obj []
  let correlationId ←
    if (Wire.get message "correlation_id").truthy then
      (Loaded.getStr it message "correlation_id").toOption
    else some sessionCorrelationId
  return { taskId, taskType, parameters, attempt := Wire.get payload "attempt", correlationId }

/-- `_coerce_int(value)`. -/
def coerceInt (it : Interpreter) (value : Wire) : Except IntError ℕ :=
  match value with
  | .int _ | .float _ | .str _ => (caughtInt it value).map fun n => (n.getD 0).toNat
  | _ => .ok 0

/-- Only an infinity gets past its handler. -/
theorem coerceInt_ok_iff (it : Interpreter) (value : Wire) :
    (∃ n, coerceInt it value = .ok n) ↔ ¬ IsInfinite value := by
  have hcaught : (∃ n, (caughtInt it value).map (fun n => (n.getD 0).toNat) = .ok n) ↔
      ¬ IsInfinite value := by
    rw [← caughtInt_ok_iff it value]
    cases caughtInt it value with
    | ok n => exact iff_of_true ⟨_, rfl⟩ ⟨n, rfl⟩
    | error e =>
        constructor <;>
          rintro ⟨n, hn⟩ <;> cases hn
  cases value with
  | int n => exact hcaught
  | float x => exact hcaught
  | str s => exact hcaught
  | _ => exact iff_of_true ⟨_, rfl⟩ id

/-- What `_handle_assignment` does with an assignment. -/
inductive Handling where
  | answered (admission : Admission)
  /-- It waits in `slots.acquire()`. -/
  | blocked
  /-- `_coerce_int` raised. -/
  | raised (error : IntError)
  deriving DecidableEq

/-- `_handle_assignment` up to its first await, from the reading on. -/
def handleAssignment (it : Interpreter) (wc : WorkerConfig) (r : Runner) (a : Assignment) :
    Runner × Handling :=
  if a.taskType ∉ wc.supportedTaskTypes.map pyStr ∨ a.taskType ∉ executors.map pyStr then
    (r, .answered .unsupportedType)
  else if r.running.contains a.taskId then (r, .answered .duplicate)
  else if r.slots.locked then (r, .answered .atCapacity)
  else
    match r.slots.acquire with
    | (slots, false) => ({ r with slots := slots }, .blocked)
    | (slots, true) =>
        match coerceInt it a.attempt with
        | .error e => ({ r with slots := slots }, .raised e)
        | .ok attempt =>
            let task : RunningTask :=
              { taskId := a.taskId, taskType := a.taskType, correlationId := a.correlationId,
                attempt := attempt, sessionEpoch := r.sessionEpoch }
            ({ r with
              slots := slots
              running := r.running.set a.taskId r.jobs.length
              jobs := r.jobs ++ [{ task := task, parameters := a.parameters }] },
            .answered .admitted)

/-- The assignment is neither refused nor a duplicate. -/
def Runner.Admits (wc : WorkerConfig) (r : Runner) (a : Assignment) : Prop :=
  a.taskType ∈ wc.supportedTaskTypes.map pyStr ∧ a.taskType ∈ executors.map pyStr ∧
    a.taskId ∉ r.running.keys ∧ r.slots.locked = false

namespace Runner

/-- The coroutine of job `i` moves on. -/
def moveTo (r : Runner) (i : ℕ) (pc : Pc) : Runner :=
  { r with jobs := r.jobs.modify i fun job => { job with pc := pc } }

/-- `task.cancel.set()` of job `i`. -/
def setCancel (r : Runner) (i : ℕ) : Runner :=
  { r with jobs := r.jobs.modify i fun job => { job with task.cancel := true } }

/-- `_handle_cancel`. -/
def handleCancel (r : Runner) (taskId : PyStr) : Runner :=
  match r.running.lookup taskId with
  | some i => r.setCancel i
  | none => r

/-- `cancel_all`. -/
def cancelAll (r : Runner) : Runner := (r.running.rows.map Prod.snd).foldl setCancel r

/-- The `finally` of `_execute_task`. -/
def finish (r : Runner) (i : ℕ) (task : RunningTask) : Runner :=
  { r.moveTo i .finished with
    running := r.running.erase task.taskId
    slots := r.slots.release }

end Runner

/-- What happens to the worker. -/
inductive Event where
  /-- A `task_assign` is read. -/
  | assign (sessionCorrelationId : PyStr) (message : List (PyStr × Wire))
  /-- The send of `task_ack` returned; `_send` catches what a dead socket raises. -/
  | acked (job : ℕ)
  /-- The send of `task_started` returned, and the execution is created. -/
  | started (job : ℕ)
  /-- The execution runs, up to `run_in_executor`. -/
  | run (job : ℕ)
  | executed (job : ℕ) (ending : Ending)
  /-- The report is over, or an exception went through it or through the pool's await. -/
  | finish (job : ℕ)
  /-- A `task_cancel`. -/
  | cancel (taskId : PyStr)
  | cancelAll
  /-- `attach` of a new session. -/
  | reconnect (sessionEpoch : ℕ)

/-- One step. -/
def next (it : Interpreter) (wc : WorkerConfig) (r : Runner) : Event → Option Runner
  | .assign sessionCorrelationId message =>
      match readAssignment it sessionCorrelationId message with
      | none => some r
      | some a => some (handleAssignment it wc r a).1
  | .acked i =>
      match r.jobs[i]? with
      | some ⟨_, _, .acking⟩ => some (r.moveTo i .starting)
      | _ => none
  | .started i =>
      match r.jobs[i]? with
      | some ⟨_, _, .starting⟩ => some (r.moveTo i .created)
      | _ => none
  | .run i =>
      match r.jobs[i]? with
      | some ⟨_, _, .created⟩ => some (r.moveTo i .computing)
      | _ => none
  | .executed i ending =>
      match r.jobs[i]? with
      | some ⟨task, _, .computing⟩ =>
          -- an executor raises `ExecutionCancelled` only when it sees the flag
          if ending = .cancelled ∧ task.cancel = false then none
          else some (r.moveTo i (.reporting ending))
      | _ => none
  | .finish i =>
      match r.jobs[i]? with
      | some ⟨task, _, pc⟩ => if pc.isExecuting then some (r.finish i task) else none
      | none => none
  | .cancel taskId => some (r.handleCancel taskId)
  | .cancelAll => some r.cancelAll
  | .reconnect sessionEpoch => some { r with sessionEpoch := sessionEpoch }

/-- The runs of one worker process. -/
def worker (it : Interpreter) (wc : WorkerConfig) : System Runner Event where
  init r := r = { slots := { value := wc.maxConcurrent } }
  step r e t := next it wc r e = some t

theorem worker_deterministic (it : Interpreter) (wc : WorkerConfig) :
    (worker it wc).Deterministic := by
  intro s e t t' h h'
  exact Option.some.inj (h.symm.trans h')

end TaskFleet.Model.Runtime
