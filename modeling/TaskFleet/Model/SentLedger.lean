import TaskFleet.Model.QueueRun
import TaskFleet.Model.Submission

/-!
# `worker.py`: when a result was last put on the wire

`_submit_result` is awaited by the submission loop and by every execution that has just
returned, so any number of them can be in their send at a time. Here they are next to
the handlers that change the two dictionaries, and any of these can run while a send is
out.
-/

namespace TaskFleet.Model

open Py

/-- The runner, and the sends that are out. -/
structure SentLedger where
  submitter : Submitter
  /-- The task of each `_submit_result` that is in `runner.report`. -/
  sending : List String := []

/-- What runs without letting go. -/
inductive LedgerEvent where
  | record (taskId : String) (envelope : WorkerResult)
  /-- `_submit_result`, up to its send. -/
  | submit (taskId : String)
  /-- The send has returned, and what comes after it. -/
  | sent (taskId : String) (delivered : Bool)
  | acknowledge (taskId : String)
  | attach (sessionEpoch : ℕ)
  | detach
  | elapse (now : Seconds)

/-- `runner.result_sent_at[task_id] = time.monotonic()` -/
def Submitter.markSent (s : Submitter) (taskId : String) : Submitter :=
  { s with resultSentAt := s.resultSentAt.set taskId s.clock }

/-- One step. -/
def SentLedger.next (cfg : WorkerConfig) (l : SentLedger) : LedgerEvent → Option SentLedger
  | .record taskId envelope =>
      some { l with submitter := l.submitter.recordResult cfg.maxPendingResults taskId envelope }
  | .submit taskId =>
      -- no result, or no session: nothing is sent
      if (l.submitter.runner.pendingResults.lookup taskId).isSome ∧ l.submitter.attached then
        some { l with sending := taskId :: l.sending }
      else some l
  | .sent taskId delivered =>
      if taskId ∈ l.sending then
        some {
          submitter := if delivered then l.submitter.markSent taskId else l.submitter
          sending := l.sending.erase taskId }
      else none
  | .acknowledge taskId => some { l with submitter := l.submitter.resultAcknowledged taskId }
  | .attach sessionEpoch => some { l with submitter := l.submitter.attach sessionEpoch }
  | .detach => some { l with submitter := l.submitter.detach }
  | .elapse now =>
      if l.submitter.clock ≤ now then
        some { l with submitter := { l.submitter with clock := now } }
      else none

/-- The runs of a worker process, as far as the two dictionaries go. -/
def sentLedger (cfg : WorkerConfig) : System SentLedger LedgerEvent where
  init l := l = { submitter := { runner := { slots := cfg.maxConcurrent } } }
  step l e m := l.next cfg e = some m

theorem sentLedger_deterministic (cfg : WorkerConfig) : (sentLedger cfg).Deterministic :=
  fun _ _ _ _ h h' => Option.some.inj (h.symm.trans h')

end TaskFleet.Model
