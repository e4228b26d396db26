import TaskFleet.Model.Worker
import TaskFleet.Model.Backoff

/-!
# `worker.py`: the submission loop and those who wake it

`retryLoop` takes a pass of `_result_submission_loop` as one step. Here it is what the
code does between two awaits, next to the handlers that record a result, read an
acknowledgement and open or lose a session. The loop looks at one pending result at a
step, and lets go in the send and in the wait. Between two looks it does not, so some
of the orders below cannot happen; nothing proved of them needs that.
-/

namespace TaskFleet.Model

open Py

/-- The worker's environment, with the settings of the loop. -/
structure SubmissionConfig extends WorkerConfig where
  backoff : JitterSettings
  resultAckGraceSeconds : PyFloat

/-- Where the loop stands. -/
inductive SubmissionPc where
  /-- At the `while`. -/
  | testing (failures : ℕ)
  /-- In the `for`, with the task ids to come and what became of those before. -/
  | passing (failures : ℕ) (todo : List String) (done : List Submission)
  /-- In the send of one result. -/
  | sending (failures : ℕ) (taskId : String) (todo : List String) (done : List Submission)
  /-- In `results_pending.wait()`, its future resolved or not. -/
  | parked (failures : ℕ) (delay : PyFloat) (woken : Bool)
  | returned
  | cancelled
  | raised (e : OverflowError)

/-- A task that is over cannot be cancelled any more. -/
def SubmissionPc.cancel : SubmissionPc → SubmissionPc
  | .returned => .returned
  | .raised e => .raised e
  | _ => .cancelled

/-- What setting the event does to the loop that waits for it. -/
def SubmissionPc.notify : SubmissionPc → SubmissionPc
  | .parked failures delay _ => .parked failures delay true
  | pc => pc

/-- The runner, its session and the loop. -/
structure Submitter where
  runner : TaskRunner
  /-- `_ws` and `_send_lock` are those of a session. -/
  attached : Bool := false
  resultSentAt : Dict String Seconds := .empty
  resultsPending : Bool := false
  /-- `time.monotonic()` -/
  clock : Seconds := 0
  stopEvent : Bool := false
  pc : SubmissionPc := .testing 0

namespace Submitter

/-- `results_pending.set()` -/
def setPending (s : Submitter) : Submitter := { s with resultsPending := true, pc := s.pc.notify }

/-- `record_result`. With no room for even one result, `next(iter({}))` raises once all
are dropped. -/
def recordResult (cap : ℕ) (s : Submitter) (taskId : String)
    (envelope : WorkerResult) : Submitter :=
  let dropped := s.runner.pendingResults.keys.take (s.runner.pendingResults.size + 1 - cap)
  let s := { s with resultSentAt := dropped.foldl Dict.erase s.resultSentAt }
  if cap = 0 then { s with runner := { s.runner with pendingResults := s.runner.makeRoom cap } }
  else { s with runner := s.runner.recordResult cap taskId envelope }.setPending

/-- What is pending after a call. -/
theorem recordResult_pendingResults (cap : ℕ) (s : Submitter) (taskId : String)
    (envelope : WorkerResult) :
    (s.recordResult cap taskId envelope).runner.pendingResults =
      if cap = 0 then s.runner.makeRoom cap else (s.runner.makeRoom cap).set taskId envelope := by
  unfold recordResult
  dsimp only
  split <;> rfl

theorem recordResult_resultSentAt (cap : ℕ) (s : Submitter) (taskId : String)
    (envelope : WorkerResult) :
    (s.recordResult cap taskId envelope).resultSentAt =
      (s.runner.pendingResults.keys.take (s.runner.pendingResults.size + 1 - cap)).foldl
        Dict.erase s.resultSentAt := by
  unfold recordResult
  dsimp only
  split <;> rfl

/-- `result_acknowledged`. -/
def resultAcknowledged (s : Submitter) (taskId : String) : Submitter :=
  let runner := s.runner.resultAcknowledged taskId
  { s with
    runner := runner
    resultSentAt := s.resultSentAt.erase taskId
    resultsPending := if runner.pendingResults.size = 0 then false else s.resultsPending }

/-- `attach`. -/
def attach (s : Submitter) (sessionEpoch : ℕ) : Submitter :=
  let s := { s with
    runner := { s.runner with sessionEpoch := sessionEpoch }
    attached := true
    resultSentAt := .empty }
  if s.runner.pendingResults.size = 0 then s else s.setPending

/-- `detach`. -/
def detach (s : Submitter) : Submitter := { s with attached := false }

/-- `awaiting_ack`. -/
def awaitingAck (resultAckGraceSeconds : PyFloat) (s : Submitter) (taskId : String) : Bool :=
  match s.resultSentAt.lookup taskId with
  | none => false
  | some sent => (PyFloat.finite (s.clock - sent)).lt resultAckGraceSeconds

end Submitter

/-- What happens to the loop, and around it. -/
inductive SubmissionEvent where
  | record (taskId : String) (envelope : WorkerResult)
  | acknowledge (taskId : String)
  | attach (sessionEpoch : ℕ)
  | detach
  /-- The `while`, and the start of a pass. -/
  | test
  /-- At the next pending result, or at the end of the pass. -/
  | look (draw : PyFloat.Draw)
  /-- `_send` returned. -/
  | sent (delivered : Bool)
  /-- `results_pending.wait()` returned. -/
  | wake
  | timeout
  | elapse (now : Seconds)
  | stop
  /-- `task.cancel()`, once `stop_event.wait()` has returned. -/
  | cancel

/-- One step. -/
def Submitter.next (cfg : SubmissionConfig) (s : Submitter) : SubmissionEvent → Option Submitter
  | .record taskId envelope => some (s.recordResult cfg.maxPendingResults taskId envelope)
  | .acknowledge taskId => some (s.resultAcknowledged taskId)
  | .attach sessionEpoch => some (s.attach sessionEpoch)
  | .detach => some s.detach
  | .test =>
      match s.pc with
      | .testing failures =>
          if s.stopEvent then some { s with pc := .returned }
          else
            some { s with
              resultsPending := false, pc := .passing failures s.runner.pendingResults.keys [] }
      | _ => none
  | .look draw =>
      match s.pc with
      | .passing failures [] done =>
          match resultSubmissionLoop cfg.backoff cfg.resultAckGraceSeconds s.stopEvent
            failures done draw with
          | (failures, none) => some { s with pc := .testing failures }
          | (failures, some (.ok delay)) => some
              { s with pc := .parked failures delay s.resultsPending }
          | (_, some (.error e)) => some { s with pc := .raised e }
      | .passing failures (taskId :: todo) done =>
          if s.awaitingAck cfg.resultAckGraceSeconds taskId then
            some { s with pc := .passing failures todo (done ++ [.awaitingAck]) }
          else if (s.runner.pendingResults.lookup taskId).isSome ∧ s.attached then
            some { s with pc := .sending failures taskId todo done }
          else some { s with pc := .passing failures [] (done ++ [.submitted false]) }
      | _ => none
  | .sent delivered =>
      match s.pc with
      | .sending failures taskId todo done =>
          if delivered then
            some { s with
              resultSentAt := s.resultSentAt.set taskId s.clock
              pc := .passing failures todo (done ++ [.submitted true]) }
          else some { s with pc := .passing failures [] (done ++ [.submitted false]) }
      | _ => none
  | .wake =>
      match s.pc with
      | .parked failures _ true => some { s with pc := .testing failures }
      | _ => none
  | .timeout =>
      match s.pc with
      | .parked failures _ _ => some { s with pc := .testing failures }
      | _ => none
  | .elapse now => if s.clock ≤ now then some { s with clock := now } else none
  | .stop => some { s with stopEvent := true }
  | .cancel => if s.stopEvent then some { s with pc := s.pc.cancel } else none

/-- The runs of the loop, from the start of the process on. -/
def submission (cfg : SubmissionConfig) : System Submitter SubmissionEvent where
  init s := s = { runner := { slots := cfg.maxConcurrent } }
  step s e t := s.next cfg e = some t

end TaskFleet.Model
