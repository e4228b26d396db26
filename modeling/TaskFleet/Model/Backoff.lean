import TaskFleet.Lib.Trace
import TaskFleet.Py.Float

/-!
# `worker.py`: the two loops that retry for ever

`_run_ws_forever` and `_result_submission_loop` have one shape: test the stop
event, work, count the failure, park for a jittered delay. The work is awaited
inside exception handlers and cannot raise, so a step takes its outcome as
given. The delay is computed outside of them, and `await asyncio.sleep` is where
the loop lets go.
-/

namespace TaskFleet.Model

open Py

/-- The three environment variables of one backoff. -/
structure JitterSettings where
  base : ℚ
  factor : ℚ
  maximum : ℚ
  base_double : IsDouble base
  factor_double : IsDouble factor
  maximum_double : IsDouble maximum
  base_pos : 0 < base
  one_lt_factor : 1 < factor
  maximum_pos : 0 < maximum

/-- `_full_jitter` -/
def fullJitter (consecutiveFailures : ℕ) (base factor maximum : PyFloat) (draw : PyFloat.Draw) :
    Except OverflowError PyFloat := do
  let power ← factor.pow consecutiveFailures
  return .uniform (.finite 0) (maximum.min (base.mul power)) draw

/-- `_full_jitter` with the settings of one of its callers. -/
def JitterSettings.fullJitter (s : JitterSettings) (consecutiveFailures : ℕ) (draw : PyFloat.Draw) :
    Except OverflowError PyFloat :=
  Model.fullJitter consecutiveFailures (.finite s.base) (.finite s.factor) (.finite s.maximum) draw

/-- Where a loop stands. -/
inductive RetryPc where
  /-- At the `while`, with its failures so far. -/
  | testing (failures : ℕ)
  /-- In the body. -/
  | working (failures : ℕ)
  /-- In the wait at the end of the body. -/
  | parked (failures : ℕ) (delay : PyFloat)
  | returned
  | cancelled
  | raised (e : OverflowError)

/-- The loop is over. -/
def RetryPc.Ended : RetryPc → Prop
  | .testing _ | .working _ | .parked _ _ => False
  | .returned | .cancelled | .raised _ => True

/-- A task that is over cannot be cancelled any more. -/
def RetryPc.cancel : RetryPc → RetryPc
  | .testing _ | .working _ | .parked _ _ => .cancelled
  | .returned => .returned
  | .cancelled => .cancelled
  | .raised e => .raised e

/-- The process as far as a loop sees it. -/
structure RetryState where
  stopEvent : Bool := false
  pc : RetryPc := .testing 0

/-- What happens to a loop whose work can come out as an `α`. -/
inductive RetryEvent (α : Type) where
  /-- `stop_event.set()` -/
  | stop
  | test
  | work (outcome : α) (draw : PyFloat.Draw)
  | wake
  /-- `task.cancel()`, once `stop_event.wait()` has returned. -/
  | cancel

/-- One step of a loop. The body is given the stop event as it is when the work
is done, and leaves the failures and the delay, if it waits. -/
def retryStep {α : Type}
    (body : Bool → ℕ → α → PyFloat.Draw → ℕ × Option (Except OverflowError PyFloat))
    (s : RetryState) : RetryEvent α → Option RetryState
  | .stop => some { s with stopEvent := true }
  | .test =>
      match s.pc with
      | .testing failures => some
          { s with pc := if s.stopEvent then .returned else .working failures }
      | _ => none
  | .work outcome draw =>
      match s.pc with
      | .working failures =>
          match body s.stopEvent failures outcome draw with
          | (failures, none) => some { s with pc := .testing failures }
          | (failures, some (.ok delay)) => some { s with pc := .parked failures delay }
          | (_, some (.error e)) => some { s with pc := .raised e }
      | _ => none
  | .wake =>
      match s.pc with
      | .parked failures _ => some { s with pc := .testing failures }
      | _ => none
  | .cancel => if s.stopEvent then some { s with pc := s.pc.cancel } else none

/-- The runs of a loop. -/
def retryLoop {α : Type}
    (body : Bool → ℕ → α → PyFloat.Draw → ℕ × Option (Except OverflowError PyFloat)) :
    System RetryState (RetryEvent α) where
  init s := s = {}
  step s e t := retryStep body s e = some t

/-- The rest of an iteration of `_run_ws_forever`, after a connection that was
or was not established. -/
def runWsForever (s : JitterSettings) (stopEvent : Bool) (consecutiveFailures : ℕ)
    (established : Bool) (draw : PyFloat.Draw) : ℕ × Option (Except OverflowError PyFloat) :=
  let consecutiveFailures := if established then 0 else consecutiveFailures + 1
  if stopEvent then (consecutiveFailures, none)
  else (consecutiveFailures, some (s.fullJitter consecutiveFailures draw))

/-- What becomes of one pending result in a pass. -/
inductive Submission where
  /-- `awaiting_ack` -/
  | awaitingAck
  /-- `_submit_result` returned this. -/
  | submitted (sent : Bool)

/-- The `for` over the pending results: how many were delivered and how many
wait. The first that cannot be sent ends it. -/
def submitPending : List Submission → ℕ × ℕ
  | [] => (0, 0)
  | .awaitingAck :: rest => ((submitPending rest).1, (submitPending rest).2 + 1)
  | .submitted true :: rest => ((submitPending rest).1 + 1, (submitPending rest).2)
  | .submitted false :: _ => (0, 0)

/-- An iteration of `_result_submission_loop` over the results it found pending. -/
def resultSubmissionLoop (s : JitterSettings) (resultAckGraceSeconds : PyFloat) (_stopEvent : Bool)
    (failures : ℕ) (pending : List Submission) (draw : PyFloat.Draw) :
    ℕ × Option (Except OverflowError PyFloat) :=
  if pending.isEmpty then (0, some (.ok (.finite s.maximum)))
  else
    let (delivered, waiting) := submitPending pending
    let failures := if 0 < delivered ∨ 0 < waiting then 0 else failures + 1
    let delay := do
      let delay ← s.fullJitter failures draw
      return if 0 < waiting ∧ delivered = 0 then delay.max resultAckGraceSeconds else delay
    (failures, some delay)

end TaskFleet.Model
