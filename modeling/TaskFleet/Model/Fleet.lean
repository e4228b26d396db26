import TaskFleet.Lib.Trace
import TaskFleet.Model.QueueRun
import TaskFleet.Model.Worker

/-!
# One honest worker, its session and the queue

The worker of `worker.py`, the session a coordinator keeps for its socket, the
two directions of that socket, and the database. A step is what one side does
between two awaits, so the sides interleave at every await of the source:

* a frame is on the socket before `_deliver` registers it (`send`,
  `registerDelivery`), because the send is awaited first;
* a result or a failure changes the database before it changes the session
  (`coordRead`, `conclude`), and a result is answered after that (`answer`);
* an execution has left its executor before its slot is free (`finish`,
  `release`).

Each direction of the socket is first in, first out, and loses what is in it
when the socket closes. `environment` is any committed transaction of anybody
else: other workers, other replicas, the sweep, an operator, and what is left
of an earlier session of this worker. A replica may push a `task_cancel` at any
time.

Four fields are ghosts, which no step reads: `minted` (tokens in use),
`declared` (the executions in the last `hello`), `started` (those the frames of
this session started) and `reported` (those whose result, failure or capacity
message this session has handled). For them a message carries the token of the
execution that sent it, and the answer to a result the token it answers.
-/

namespace TaskFleet.Model

open Py

/-- A deployment with one worker under watch. -/
structure Setting where
  cfg : Config := {}
  schemas : Schemas
  floats : FloatOps
  worker : WorkerConfig := {}
  workerId : Uuid

/-- The worker's end of the socket. -/
inductive Link where
  | down
  /-- `hello` is out and `hello_ack` is awaited. -/
  | greeting
  | up
  deriving DecidableEq, Repr

/-- What a coordinator sends. -/
inductive ToWorker where
  | helloAck (sessionEpoch : Nat)
  /-- `delivery` numbers the frames of a session; it is a ghost. -/
  | taskAssign (delivery : Nat) (task : ClaimedTask)
  | taskCancel (taskId : Uuid)
  /-- `answers` is the token of the submission; it is a ghost. -/
  | taskResultAck (ack : ResultAck) (answers : Token)

/-- What the worker sends. `execution` is a ghost. -/
inductive ToCoordinator where
  | taskAck (taskId : Uuid) (accepted : Bool) (reasonCode : String)
  | taskStarted (taskId : Uuid)
  | taskProgress (taskId : Uuid)
  | capacity (taskId : Uuid) (execution : Token)
  | taskFailed (taskId : Uuid) (errorType correlationId : String) (execution : Token)
  | taskResult (result : WorkerResult)

/-- Where the read loop of the session stands: a transaction may have answered
for a message whose effect on the session is still to come. -/
inductive Handling where
  | idle
  | failed (taskId : Uuid) (execution : Token) (outcome : Outcome)
  | result (envelope : Envelope) (outcome : Outcome)
  | answering (ack : ResultAck) (answers : Token)

structure Fleet where
  db : Db
  runner : TaskRunner
  link : Link := .down
  /-- The `tasks_in_flight` of a `hello` that has no session yet. -/
  hello : Option Nat := none
  /-- The epoch of a `hello_ack` that was sent. -/
  epoch : Option Nat := none
  session : Option LocalSession := none
  /-- The claimed tasks `assign_once` has not registered yet. -/
  assigning : List ClaimedTask := []
  /-- The frame of the first of them is on the socket. -/
  sent : Bool := false
  registered : Nat := 0
  handling : Handling := .idle
  toWorker : List ToWorker := []
  toCoordinator : List ToCoordinator := []
  minted : List Token := []
  declared : Finset Token := ∅
  started : Finset (Token × String) := ∅
  reported : Finset Token := ∅

/-- How an execution ends. -/
inductive Ending where
  | returned (result : Json) (duration : PyFloat)
  | raised (errorType : String)
  /-- `ExecutionCancelled`. -/
  | cancelled

inductive Label where
  | environment (now : Seconds) (op : Op)
  | connect
  | welcome (sessionEpoch : Nat)
  | register
  | recover (now : Seconds)
  | disconnect
  | claim (now : Seconds) (skip : List Uuid)
  | send
  | registerDelivery
  | pushCancel (taskId : Uuid)
  | workerRead (token : Token)
  | progress (taskId : Uuid)
  | finish (taskId : Uuid) (ending : Ending)
  | release (taskId : Uuid)
  | resubmit (taskId : String)
  | coordRead (now : Seconds) (due : Bool) (resultId : Uuid)
  | conclude
  | answer

/-- What `random()` guarantees of a label. -/
def Label.Drawn : Label → Prop
  | .environment _ (.reclaim _ _ draw) => ∀ id, 0 ≤ draw id ∧ draw id < 1
  | _ => True

namespace Fleet

/-- `TaskRunner.report`: without a session the report is dropped. -/
def report (f : Fleet) (m : ToCoordinator) : Fleet :=
  { f with toCoordinator := f.toCoordinator ++ if f.link = .up then [m] else [] }

/-- The worker's socket is gone, and the session with it. -/
def disconnect (f : Fleet) : Fleet :=
  { f with
    link := .down
    hello := none
    epoch := none
    session := none
    assigning := []
    sent := false
    registered := 0
    handling := .idle
    toWorker := []
    toCoordinator := [] }

/-- The worker opens a socket, which starts out empty, and declares what it is
executing. -/
def connect (f : Fleet) : Fleet :=
  { f.disconnect with
    link := .greeting
    hello := some f.runner.tasksInFlight
    declared := (f.runner.running.rows.map RunningTask.idempotencyToken).toFinset
    started := ∅
    reported := ∅ }

/-- The `LocalSession` the handshake ends in. -/
def opened (x : Setting) (sessionEpoch tasksInFlight : Nat) : LocalSession :=
  .open x.cfg x.workerId sessionEpoch (some x.worker.maxConcurrent) (some tasksInFlight)
    (x.worker.supportedTaskTypes.filter fun name => (TaskType.ofName name).isSome)

/-- `renew_worker_leases` on behalf of a session, which learns the ids. -/
def recover (x : Setting) (f : Fleet) (s : LocalSession) (now : Seconds) : Fleet :=
  let r := renewWorkerLeases x.cfg f.db now x.workerId
  { f with
    db := r.1
    session := some { s with recoveredTasks := s.recoveredTasks ++ r.2.map Uuid.str } }

/-- `_handle_assignment`. The answer to an `unsupported_task_type` or an
`at_capacity` is a refusal; a duplicate is acknowledged and not started. -/
def assign (x : Setting) (f : Fleet) (task : ClaimedTask) (token : Token) : Fleet :=
  match f.runner.admission x.worker task.id task.taskType with
  | .unsupportedType => f.report (.taskAck task.id false refuseUnsupportedType)
  | .duplicate => f.report (.taskAck task.id true "")
  | .atCapacity => f.report (.taskAck task.id false refuseAtCapacity)
  | .admitted =>
      { (f.report (.taskAck task.id true "")).report (.taskStarted task.id) with
        runner := f.runner.admit task token
        minted := token :: f.minted
        started := insert (token, task.id.str) f.started }

/-- The worker handles the frame `m`, which was the first on the socket. -/
def workerRead (x : Setting) (f : Fleet) (token : Token) : ToWorker → Fleet
  | .helloAck sessionEpoch =>
      { f with link := .up, runner := { f.runner with sessionEpoch := sessionEpoch } }
  | .taskAssign _ task => f.assign x task token
  | .taskCancel taskId => { f with runner := f.runner.handleCancel taskId }
  | .taskResultAck ack _ => { f with runner := f.runner.resultAcknowledged ack.taskId }

/-- The report of an execution that ended, and the result it leaves. -/
def finish (x : Setting) (f : Fleet) (task : RunningTask) : Ending → Option Fleet
  | .returned result duration =>
      (task.result? x.floats x.worker.maxResultBytes result duration).map fun envelope =>
        { f with
          runner := (f.runner.endTask task.taskId).recordResult x.worker.maxPendingResults
            task.taskId.str envelope }.report (.taskResult envelope)
  | .raised errorType =>
      some ({ f with runner := f.runner.endTask task.taskId }.report
        (.taskFailed task.taskId errorType task.correlationId task.idempotencyToken))
  | .cancelled =>
      if task.cancel then
        some ({ f with runner := f.runner.endTask task.taskId }.report
          (.capacity task.taskId task.idempotencyToken))
      else none

/-- The read loop handles the message `m`, which was the first on the socket,
up to where it awaits the database or to its end. -/
def coordRead (x : Setting) (f : Fleet) (s : LocalSession) (now : Seconds) (due : Bool)
    (resultId : Uuid) : ToCoordinator → Option Fleet
  | .taskAck taskId accepted reasonCode =>
      some { f with
        db :=
          if s.pendingAcks.contains taskId.str && accepted then
            renewIfDue x.cfg f.db now due s taskId.str
          else f.db
        session := some (s.handleTaskAck taskId.str accepted reasonCode) }
  | .taskStarted taskId =>
      some { f with db := (markStatus x.cfg f.db now taskId.str x.workerId .running).1 }
  | .taskProgress taskId => some { f with db := renewIfDue x.cfg f.db now due s taskId.str }
  -- the credit is back before anything is awaited
  | .capacity taskId execution =>
      some { f with
        session := some (s.handleCapacity taskId.str 1)
        reported := insert execution f.reported }
  | .taskFailed taskId errorType correlationId execution =>
      let r := failTask x.cfg f.db now taskId.str x.workerId errorType correlationId
      some { f with db := r.1, handling := .failed taskId execution r.2 }
  | .taskResult result =>
      match validate x.floats result.payload x.cfg.taskResultMaxBytes with
      | .ok envelope =>
          let r := completeTask f.db now envelope x.workerId resultId
          -- what the transaction raised ends the loop: the session `disconnect`s
          if r.2 = .raised then none
          else some { f with db := r.1, handling := .result envelope r.2 }
      -- not reached: a worker's envelope validates (`validate_payload`)
      | .error _ => none

/-- What the two handlers do to the session once the database has answered. -/
def conclude (f : Fleet) (s : LocalSession) : Handling → Option Fleet
  | .failed taskId execution outcome =>
      some { f with
        session := some (s.finishFailed taskId.str outcome)
        handling := .idle
        reported := insert execution f.reported }
  | .result envelope outcome =>
      some { f with
        session := some (s.finishResult envelope.taskId outcome)
        handling := .answering (.decided envelope.taskId outcome) envelope.idempotencyToken
        reported := insert envelope.idempotencyToken f.reported }
  | _ => none

/-- Before `hello_ack` the worker reads nothing else, and after it no other. -/
def readable (f : Fleet) : ToWorker → Bool
  | .helloAck _ => f.link = .greeting
  | _ => f.link = .up

/-- One step of the fleet; `none` where it cannot be taken. -/
def step (x : Setting) (f : Fleet) : Label → Option Fleet
  | .environment now op => some { f with db := (apply x.cfg x.schemas f.db now op).1 }
  | .connect => if f.link = .down then some f.connect else none
  | .welcome sessionEpoch =>
      if f.hello.isSome ∧ f.epoch = none then
        some { f with
          epoch := some sessionEpoch
          toWorker := f.toWorker ++ [.helloAck sessionEpoch] }
      else none
  | .register =>
      match f.hello, f.epoch with
      | some tasksInFlight, some sessionEpoch =>
          some { f with hello := none, session := some (opened x sessionEpoch tasksInFlight) }
      | _, _ => none
  | .recover now => f.session.map fun s => f.recover x s now
  | .disconnect => if f.link = .down then none else some f.disconnect
  -- `assign_once` claims no more before the last batch is registered
  | .claim now skip =>
      match f.session, f.assigning with
      | some s, [] =>
          if 0 < s.freeCredits then
            match dequeue x.cfg f.db now x.workerId (min s.freeCredits x.cfg.taskDequeueMaxBatch)
              x.cfg.taskDequeueMaxBatch (some s.supportedTaskTypes) skip with
            | .ok (db', rows) => some { f with db := db', assigning := rows }
            | .error _ => none
          else none
      | _, _ => none
  | .send =>
      match f.assigning, f.sent with
      | task :: _, false =>
          some { f with
            sent := true
            toWorker := f.toWorker ++ [.taskAssign f.registered task] }
      | _, _ => none
  | .registerDelivery =>
      match f.session, f.assigning, f.sent with
      | some s, task :: rest, true =>
          some { f with
            session := some (s.deliver task.id.str task.correlationId)
            assigning := rest
            sent := false
            registered := f.registered + 1 }
      | _, _, _ => none
  | .pushCancel taskId =>
      if f.epoch.isSome then some
        { f with toWorker := f.toWorker ++ [.taskCancel taskId] } else none
  | .workerRead token =>
      match f.toWorker with
      | m :: rest =>
          if f.readable m then some ({ f with toWorker := rest }.workerRead x token m) else none
      | [] => none
  | .progress taskId =>
      (f.runner.running.get? taskId).map fun task => f.report (.taskProgress task.taskId)
  | .finish taskId ending =>
      match f.runner.running.get? taskId with
      | some task => if task.ended then none else f.finish x task ending
      | none => none
  | .release taskId =>
      match f.runner.running.get? taskId with
      | some task =>
          if task.ended then some { f with runner := f.runner.releaseTask task.taskId } else none
      | none => none
  -- the retry loop may send what it sent before
  | .resubmit taskId =>
      (f.runner.pendingResults.lookup taskId).map fun result => f.report (.taskResult result)
  | .coordRead now due resultId =>
      match f.session, f.handling, f.toCoordinator with
      | some s, .idle, m :: rest =>
          { f with toCoordinator := rest }.coordRead x s now due resultId m
      | _, _, _ => none
  | .conclude => f.session.bind fun s => f.conclude s f.handling
  | .answer =>
      match f.handling with
      | .answering ack answers =>
          some { f with
            handling := .idle
            toWorker := f.toWorker ++ [.taskResultAck ack answers] }
      | _ => none

/-- A worker that was just started, on an existing database. -/
def initial (x : Setting) (db : Db) : Fleet where
  db := db
  runner := { slots := x.worker.maxConcurrent }

/-- What the database and `uuid4` guarantee about a step. -/
def Admissible (f : Fleet) : Label → Prop
  | .environment _ op => op.Admissible f.db
  | .workerRead token => token ∉ f.minted
  | .coordRead _ _ resultId => f.db.results.get? resultId = none
  | _ => True

end Fleet

/-- The worker, its session and the queue as a transition system. -/
def fleet (x : Setting) : System Fleet Label where
  init f := ∃ db, (queue x.cfg x.schemas).init db ∧ f = .initial x db
  step f l f' := f.Admissible l ∧ f.step x l = some f'

theorem fleet_deterministic (x : Setting) : (fleet x).Deterministic := by
  rintro f l f₁ f₂ ⟨-, h₁⟩ ⟨-, h₂⟩
  exact Option.some.inj (h₁.symm.trans h₂)

namespace Fleet

/-! ## What a step can do -/

/-- The steps, one rule for each kind, with what each of them found. -/
inductive Step (x : Setting) (f : Fleet) : Label → Fleet → Prop
  | environment {now : Seconds} {op : Op} (hadm : op.Admissible f.db) :
      Step x f (.environment now op) { f with db := (apply x.cfg x.schemas f.db now op).1 }
  | connect (hlink : f.link = .down) : Step x f .connect f.connect
  | welcome {n sessionEpoch : Nat} (hhello : f.hello = some n) (hepoch : f.epoch = none) :
      Step x f (.welcome sessionEpoch) { f with
        epoch := some sessionEpoch
        toWorker := f.toWorker ++ [.helloAck sessionEpoch] }
  | register {n sessionEpoch : Nat} (hhello : f.hello = some n)
      (hepoch : f.epoch = some sessionEpoch) :
      Step x f .register { f with hello := none, session := some (opened x sessionEpoch n) }
  | recover {now : Seconds} {s : LocalSession} (hs : f.session = some s) :
      Step x f (.recover now) (f.recover x s now)
  | disconnect (hlink : f.link ≠ .down) : Step x f .disconnect f.disconnect
  | claim {now : Seconds} {skip : List Uuid} {s : LocalSession} {db' : Db} {rows : List ClaimedTask}
      (hs : f.session = some s) (hidle : f.assigning = []) (hfree : 0 < s.freeCredits)
      (hdequeue : dequeue x.cfg f.db now x.workerId (min s.freeCredits x.cfg.taskDequeueMaxBatch)
        x.cfg.taskDequeueMaxBatch (some s.supportedTaskTypes) skip = .ok (db', rows)) :
      Step x f (.claim now skip) { f with db := db', assigning := rows }
  | send {task : ClaimedTask} {rest : List ClaimedTask} (hassigning : f.assigning = task :: rest)
      (hsent : f.sent = false) :
      Step x f .send { f with
        sent := true
        toWorker := f.toWorker ++ [.taskAssign f.registered task] }
  | registerDelivery {s : LocalSession} {task : ClaimedTask} {rest : List ClaimedTask}
      (hs : f.session = some s) (hassigning : f.assigning = task :: rest) (hsent : f.sent = true) :
      Step x f .registerDelivery { f with
        session := some (s.deliver task.id.str task.correlationId)
        assigning := rest
        sent := false
        registered := f.registered + 1 }
  | pushCancel {taskId : Uuid} (hepoch : f.epoch.isSome) :
      Step x f (.pushCancel taskId) { f with toWorker := f.toWorker ++ [.taskCancel taskId] }
  | workerRead {token : Token} {m : ToWorker} {rest : List ToWorker} (hfresh : token ∉ f.minted)
      (hm : f.toWorker = m :: rest) (hread : f.readable m) :
      Step x f (.workerRead token) ({ f with toWorker := rest }.workerRead x token m)
  | progress {taskId : Uuid} {task : RunningTask}
      (htask : f.runner.running.get? taskId = some task) :
      Step x f (.progress taskId) (f.report (.taskProgress task.taskId))
  | finish {taskId : Uuid} {ending : Ending} {task : RunningTask} {f' : Fleet}
      (htask : f.runner.running.get? taskId = some task) (hended : task.ended = false)
      (hfinish : f.finish x task ending = some f') : Step x f (.finish taskId ending) f'
  | release {taskId : Uuid} {task : RunningTask} (htask : f.runner.running.get? taskId = some task)
      (hended : task.ended = true) :
      Step x f (.release taskId) { f with runner := f.runner.releaseTask task.taskId }
  | resubmit {taskId : String} {result : WorkerResult}
      (hpending : f.runner.pendingResults.lookup taskId = some result) :
      Step x f (.resubmit taskId) (f.report (.taskResult result))
  | coordRead {now : Seconds} {due : Bool} {resultId : Uuid} {s : LocalSession} {m : ToCoordinator}
      {rest : List ToCoordinator} {f' : Fleet} (hfresh : f.db.results.get? resultId = none)
      (hs : f.session = some s) (hidle : f.handling = .idle) (hm : f.toCoordinator = m :: rest)
      (hread : { f with toCoordinator := rest }.coordRead x s now due resultId m = some f') :
      Step x f (.coordRead now due resultId) f'
  | conclude {s : LocalSession} {f' : Fleet} (hs : f.session = some s)
      (hconclude : f.conclude s f.handling = some f') : Step x f .conclude f'
  | answer {ack : ResultAck} {answers : Token} (hanswer : f.handling = .answering ack answers) :
      Step x f .answer { f with
        handling := .idle
        toWorker := f.toWorker ++ [.taskResultAck ack answers] }

variable {x : Setting} {f f' : Fleet} {l : Label}

/-- Every step is one of the rules. -/
theorem step_cases (h : (fleet x).step f l f') : Step x f l f' := by
  obtain ⟨hadm, hstep⟩ := h
  cases l with
  | environment now op => cases hstep; exact .environment hadm
  | connect =>
      simp only [step] at hstep
      split at hstep <;> cases hstep
      next hlink => exact .connect hlink
  | welcome sessionEpoch =>
      simp only [step] at hstep
      split at hstep <;> cases hstep
      next hcond =>
        obtain ⟨n, hn⟩ := Option.isSome_iff_exists.mp hcond.1
        exact .welcome hn hcond.2
  | register =>
      simp only [step] at hstep
      split at hstep <;> cases hstep
      next n e hn he => exact .register hn he
  | recover now =>
      obtain ⟨s, hs, rfl⟩ := Option.map_eq_some_iff.mp hstep
      exact .recover hs
  | disconnect =>
      simp only [step] at hstep
      split at hstep <;> cases hstep
      next hlink => exact .disconnect hlink
  | claim now skip =>
      simp only [step] at hstep
      split at hstep
      · next s hs hidle =>
          split at hstep
          · next hfree =>
              split at hstep <;> cases hstep
              next hdequeue => exact .claim hs hidle hfree hdequeue
          · cases hstep
      · cases hstep
  | send =>
      simp only [step] at hstep
      split at hstep <;> cases hstep
      next hassigning hsent => exact .send hassigning hsent
  | registerDelivery =>
      simp only [step] at hstep
      split at hstep <;> cases hstep
      next hs hassigning hsent => exact .registerDelivery hs hassigning hsent
  | pushCancel taskId =>
      simp only [step] at hstep
      split at hstep <;> cases hstep
      next hepoch => exact .pushCancel hepoch
  | workerRead token =>
      simp only [step] at hstep
      split at hstep
      · next m rest hm =>
          split at hstep <;> cases hstep
          next hread => exact .workerRead hadm hm hread
      · cases hstep
  | progress taskId =>
      obtain ⟨task, htask, rfl⟩ := Option.map_eq_some_iff.mp hstep
      exact .progress htask
  | finish taskId ending =>
      simp only [step] at hstep
      split at hstep
      · next task htask =>
          split at hstep
          · cases hstep
          · next hended => exact .finish htask (Bool.eq_false_of_not_eq_true hended) hstep
      · cases hstep
  | release taskId =>
      simp only [step] at hstep
      split at hstep
      · next task htask =>
          split at hstep <;> cases hstep
          next hended => exact .release htask hended
      · cases hstep
  | resubmit taskId =>
      obtain ⟨result, hpending, rfl⟩ := Option.map_eq_some_iff.mp hstep
      exact .resubmit hpending
  | coordRead now due resultId =>
      simp only [step] at hstep
      split at hstep
      · next s m rest hs hidle hm => exact .coordRead hadm hs hidle hm hstep
      · cases hstep
  | conclude =>
      obtain ⟨s, hs, hconclude⟩ := Option.bind_eq_some_iff.mp hstep
      exact .conclude hs hconclude
  | answer =>
      simp only [step] at hstep
      split at hstep <;> cases hstep
      next hanswer => exact .answer hanswer

/-! ## Playing labels -/

/-- The values the label was made with are new. -/
def fresh (f : Fleet) : Label → Bool
  | .environment _ (.enqueue id _) => (f.db.tasks.get? id).isNone
  | .environment _ (.complete _ _ resultId) => (f.db.results.get? resultId).isNone
  | .workerRead token => token ∉ f.minted
  | .coordRead _ _ resultId => (f.db.results.get? resultId).isNone
  | _ => true

theorem admissible_of_fresh (hdrawn : l.Drawn) (hfresh : f.fresh l = true) : f.Admissible l := by
  cases l with
  | environment now op =>
      cases op with
      | enqueue => exact Option.isNone_iff_eq_none.mp hfresh
      | complete => exact Option.isNone_iff_eq_none.mp hfresh
      | reclaim => exact hdrawn
      | _ => trivial
  | workerRead token => exact of_decide_eq_true (p := token ∉ f.minted) hfresh
  | coordRead => exact Option.isNone_iff_eq_none.mp hfresh
  | _ => trivial

/-- One label after another, each of which meets `G`. -/
def play (x : Setting) (G : Fleet → Label → Prop) [∀ f l, Decidable (G f l)] :
    Fleet → List Label → Option Fleet
  | f, [] => some f
  | f, l :: ls => if f.fresh l ∧ G f l then (f.step x l).bind fun g => play x G g ls else none

theorem play_trace {G : Fleet → Label → Prop} [∀ f l, Decidable (G f l)] {ls : List Label} :
    ∀ {f g : Fleet}, (∀ l ∈ ls, l.Drawn) → play x G f ls = some g →
      ((fleet x).guarded G).Trace f ls g := by
  induction ls with
  | nil =>
      intro f g _ h
      obtain rfl := Option.some.inj h
      exact .nil
  | cons l ls ih =>
      intro f g hdrawn h
      simp only [play] at h
      split at h
      · next hcond =>
          obtain ⟨f', hstep, hplay⟩ := Option.bind_eq_some_iff.mp h
          have hadm := admissible_of_fresh (hdrawn l (.head _)) hcond.1
          exact .cons ⟨⟨hadm, hstep⟩, hcond.2⟩ (ih (fun l' hl' => hdrawn l' (.tail _ hl')) hplay)
      · cases h

/-- Every label that draws nothing is drawn well. -/
theorem drawn_of_noReclaim {ls : List Label} (h : ls.all fun
    | .environment _ (.reclaim _ _ _) => false
    | _ => true) : ∀ l ∈ ls, l.Drawn := by
  intro l hl
  have hthis := List.all_eq_true.mp h l hl
  unfold Label.Drawn
  split
  · cases hthis
  · trivial

/-- What is played on the empty database is a run. -/
theorem play_run {G : Fleet → Label → Prop} [∀ f l, Decidable (G f l)] {ls : List Label} {g : Fleet}
    (hdrawn : ∀ l ∈ ls, l.Drawn) (h : play x G (.initial x .empty) ls = some g) :
    ((fleet x).guarded G).Run ls g :=
  ⟨_, ⟨.empty, ⟨rfl, rfl, rfl⟩, rfl⟩, play_trace hdrawn h⟩

end Fleet

/-! ## A worker to watch -/

namespace Demo

def otherTask : Uuid := ⟨6, by decide⟩

def thirdToken : Token := ⟨"third", by decide⟩

/-- The small deployment with `worker` under watch. -/
def setting : Setting where
  schemas := schemas
  floats := floats
  workerId := worker

/-- The worker connects and is given a session. -/
def greeted (sessionEpoch : Nat) : List Label :=
  [.connect, .welcome sessionEpoch, .register, .workerRead otherToken]

/-- The first queued task is claimed and delivered. -/
def delivered (now : Seconds) : List Label := [.claim now [], .send, .registerDelivery]

/-- An execution that returns a result. -/
def returned : Ending := .returned .null (.finite 1)

/-- A sweep of the coordinator. -/
def swept (now : Seconds) : Label := .environment now (.reclaim 100 [] fun _ => 0)

/-- A run that is swept once. -/
theorem drawn_swept {ls ms : List Label} {now : Seconds} (hls : ∀ l ∈ ls, l.Drawn)
    (hms : ∀ l ∈ ms, l.Drawn) : ∀ l ∈ ls ++ swept now :: ms, l.Drawn := by
  intro l hl
  rcases List.mem_append.mp hl with hbefore | htail
  · exact hls l hbefore
  · rcases List.mem_cons.mp htail with rfl | hafter
    · exact fun _ => ⟨le_refl _, one_pos⟩
    · exact hms l hafter

end Demo

end TaskFleet.Model
