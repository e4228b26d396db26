import TaskFleet.Py.Dict
import TaskFleet.Model.TaskQueue

/-!
# `assignment.py`: a worker's session and its credits

A `LocalSession` is what one coordinator process keeps for one socket. Its
credits are of two kinds, and every rule below is about telling them apart:

* **keyed** — `credited` holds the id of each task delivered on this socket
  that no message has given back yet;
* **counted** — `residualInFlight` is what the worker declared to be running
  when it connected; those tasks came over an earlier socket, so they have no
  key here.

Each handler is split where the source awaits the database: the transaction
is an operation of `TaskQueue`, and what happens to the session afterwards is
a function of the answer. The dashboard's `current_tasks` and the renewal
clock `lease_renew_due` are left out; whether a renewal is due is an argument.
-/

namespace TaskFleet.Model

open Py

/-- `REFUSE_AT_CAPACITY`. -/
def refuseAtCapacity : String := "at_capacity"

/-- `REFUSE_UNSUPPORTED_TYPE`. -/
def refuseUnsupportedType : String := "unsupported_task_type"

/-- `LocalSession`. -/
structure LocalSession where
  workerId : Uuid
  sessionEpoch : Nat
  maxConcurrent : Nat
  supportedTaskTypes : List String
  pendingAcks : Dict String String := .empty
  credited : Dict String String := .empty
  residualInFlight : Nat := 0
  recoveredTasks : List String := []
  saturated : Bool := false

/-- The first half of `parse_capabilities`. `declared` is what `int()` made of
the field, `none` where it raised. -/
def parseMaxConcurrent (cfg : Config) (declared : Option Int) : Nat :=
  (max 1 (min (declared.getD cfg.workerDefaultMaxConcurrent) cfg.workerMaxConcurrentCeiling)).toNat

/-- `parse_tasks_in_flight`, on the same terms. -/
def parseTasksInFlight (declared : Option Int) (maxConcurrent : Nat) : Nat :=
  (max 0 (min (declared.getD 0) maxConcurrent)).toNat

namespace LocalSession

/-- `in_flight`. -/
def inFlight (s : LocalSession) : Nat := s.residualInFlight + s.credited.size

/-- `free_credits`. -/
def freeCredits (s : LocalSession) : Nat := if s.saturated then 0 else s.maxConcurrent - s.inFlight

/-- `_release_credit`, without the flag it returns. -/
def releaseCredit (s : LocalSession) (taskId : String) (freed : Nat) : LocalSession :=
  if taskId ≠ "" then
    if s.credited.contains taskId then { s with credited := s.credited.erase taskId }
    -- taken for a task of an earlier socket, whichever task it names
    else if 0 < s.residualInFlight then { s with residualInFlight := s.residualInFlight - 1 }
    else s
  else
    let released := min (max 1 freed) s.residualInFlight
    { s with
      residualInFlight := s.residualInFlight - released
      credited := s.credited.dropFirst (freed - released) }

/-- What `_deliver` records once the frame is on the socket. -/
def deliver (s : LocalSession) (taskId correlationId : String) : LocalSession :=
  { s with
    pendingAcks := s.pendingAcks.set taskId correlationId
    credited := s.credited.set taskId correlationId }

/-- `handle_task_ack`. An accepted one changes no credit; it renews the lease. -/
def handleTaskAck (s : LocalSession) (taskId : String) (accepted : Bool) (reasonCode : String) :
    LocalSession :=
  if s.pendingAcks.contains taskId then
    let s := { s with pendingAcks := s.pendingAcks.erase taskId }
    -- a refusal for want of a slot keeps the credit, any other gives it back
    if accepted then s
    else if reasonCode = refuseAtCapacity then { s with saturated := true }
    else s.releaseCredit taskId 1
  else s

/-- `session.recovered_tasks.discard(task_id)`. -/
def forget (s : LocalSession) (taskId : String) : LocalSession :=
  { s with recoveredTasks := s.recoveredTasks.filter (· ≠ taskId) }

/-- `handle_capacity`. -/
def handleCapacity (s : LocalSession) (taskId : String) (freed : Int) : LocalSession :=
  if freed < 1 then s
  else { (s.releaseCredit taskId freed.toNat).forget taskId with saturated := false }

/-- `handle_task_failed` after its transaction. -/
def finishFailed (s : LocalSession) (taskId : String) (outcome : Outcome) : LocalSession :=
  -- a report of somebody else's task frees a credit only if the session delivered it
  let s :=
    if outcome ∉ [.notOwner, .notFound] ∨ s.credited.contains taskId then s.releaseCredit taskId 1
    else s
  { s.forget taskId with saturated := false }

/-- `handle_task_result` after its transaction. -/
def finishResult (s : LocalSession) (taskId : String) (outcome : Outcome) : LocalSession :=
  if outcome ∉ [.notOwner, .notFound, .fenced] ∨ s.credited.contains taskId then
    { (s.releaseCredit taskId 1).forget taskId with saturated := false }
  else s

/-- `handle_task_result` on a payload that is not a result. -/
def rejectResult (s : LocalSession) (taskId : String) : LocalSession :=
  let s := if taskId ≠ "" ∧ s.credited.contains taskId then s.releaseCredit taskId 1 else s
  { s.forget taskId with saturated := false }

/-- The two sets `_renew_if_due` checks a task against. -/
def mayRenew (s : LocalSession) (taskId : String) : Bool :=
  s.credited.contains taskId || s.recoveredTasks.contains taskId

end LocalSession

/-- The session a `hello` opens. -/
def LocalSession.open (cfg : Config) (workerId : Uuid) (sessionEpoch : Nat)
    (maxConcurrent tasksInFlight : Option Int) (supportedTaskTypes : List String) :
    LocalSession where
  workerId := workerId
  sessionEpoch := sessionEpoch
  maxConcurrent := parseMaxConcurrent cfg maxConcurrent
  supportedTaskTypes := supportedTaskTypes
  residualInFlight := parseTasksInFlight tasksInFlight (parseMaxConcurrent cfg maxConcurrent)

/-! ## Results -/

/-- The payload of a `task_result_ack`. -/
structure ResultAck where
  taskId : String
  accepted : Bool
  outcome : String
  reasonCode : Option String
  deriving DecidableEq, Repr

/-- The answer to a result the database decided on. -/
def ResultAck.decided (taskId : String) (outcome : Outcome) : ResultAck where
  taskId := taskId
  accepted := outcome ∈ [.transitioned, .duplicate]
  outcome := outcome.text
  reasonCode := none

/-- The answer to a payload that is not a result. -/
def ResultAck.rejected (taskId : String) (reason : RejectReason) : ResultAck where
  taskId := taskId
  accepted := false
  outcome := "rejected"
  reasonCode := some reason.code

/-- `_renew_if_due`, where `due` says that the lease is due and the write got
through. -/
def renewIfDue (cfg : Config) (db : Db) (now : Seconds) (due : Bool) (s : LocalSession)
    (taskId : String) : Db :=
  if s.mayRenew taskId && due then (renewLease cfg db now taskId s.workerId).1 else db

/-- `handle_task_result`: the database and the session it leaves, and the
acknowledgement it sends. `none` is an exception, which ends the read loop without an
answer: the `OverflowError` of `validate`, or what `complete_task` raised. -/
def handleTaskResult (cfg : Config) (fl : FloatOps) (db : Db) (now : Seconds) (due : Bool)
    (s : LocalSession) (payload : List (String × Json)) (resultId : Uuid) :
    Option (Db × LocalSession × ResultAck) :=
  match validate fl payload cfg.taskResultMaxBytes with
  | .error .overflow => none
  | .error (.malformed reason) =>
      -- nothing is stored, but the task it names is heard of and gives its credit back
      let rawTaskId := Json.getStr fl payload "task_id"
      some (renewIfDue cfg db now due s rawTaskId, s.rejectResult rawTaskId,
        .rejected rawTaskId reason)
  | .ok envelope =>
      let r := completeTask db now envelope s.workerId resultId
      if r.2 = .raised then none
      else some (r.1, s.finishResult envelope.taskId r.2, .decided envelope.taskId r.2)

section

variable {cfg : Config} {fl : FloatOps} {db : Db} {now : Seconds} {due : Bool} {s : LocalSession}
  {payload : List (String × Json)} {resultId : Uuid} {r : Db × LocalSession × ResultAck}

/-- What `handle_task_result` answers to a payload that validates. -/
theorem handleTaskResult_of_valid {envelope : Envelope}
    (hvalid : validate fl payload cfg.taskResultMaxBytes = .ok envelope)
    (h : handleTaskResult cfg fl db now due s payload resultId = some r) :
    r = ((completeTask db now envelope s.workerId resultId).1,
      s.finishResult envelope.taskId (completeTask db now envelope s.workerId resultId).2,
      .decided envelope.taskId (completeTask db now envelope s.workerId resultId).2) := by
  simp only [handleTaskResult, hvalid] at h
  split at h
  · cases h
  · exact (Option.some.inj h).symm

/-- An acceptance comes from a payload that validates and that the database
took or already had. -/
theorem handleTaskResult_accepted
    (h : handleTaskResult cfg fl db now due s payload resultId = some r)
    (hack : r.2.2.accepted = true) :
    ∃ envelope, validate fl payload cfg.taskResultMaxBytes = .ok envelope ∧
      r.1 = (completeTask db now envelope s.workerId resultId).1 ∧
      ((completeTask db now envelope s.workerId resultId).2 = .transitioned ∨
        (completeTask db now envelope s.workerId resultId).2 = .duplicate) := by
  cases hvalid : validate fl payload cfg.taskResultMaxBytes with
  | ok envelope =>
      obtain rfl := handleTaskResult_of_valid hvalid h
      exact ⟨envelope, rfl, rfl, by simpa [ResultAck.decided] using hack⟩
  | error e =>
      cases e with
      | overflow =>
          simp only [handleTaskResult, hvalid] at h
          cases h
      | malformed reason =>
          simp only [handleTaskResult, hvalid] at h
          cases h
          cases hack

end

end TaskFleet.Model
