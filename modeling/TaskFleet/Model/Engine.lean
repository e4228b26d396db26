import TaskFleet.Lib.Trace
import TaskFleet.Model.Assignment
import TaskFleet.Model.QueueRun

/-!
# `assignment.py`: the assignment engine of one replica

`assignment_loop` with its passes, the sessions the replica holds, what the read
loops do to them meanwhile, and the drain of a shutdown. An event is what one
coroutine does between two awaits; the transaction of a handler is left to
`database`, and what it does to its session to `handled`.

The engine's own claims are split in two: the rows are chosen and locked by the
statement, and move to `ASSIGNED` by the commit.
-/

namespace TaskFleet.Model

open Py

/-- What a handler of the read loop does to its session between two awaits, with
what its transaction answered. One whose transaction raises does nothing more to it. -/
inductive SessionTurn where
  | taskAck (taskId : String) (accepted : Bool) (reasonCode : String)
  | capacity (taskId : String) (freed : Int)
  | failed (taskId : String) (outcome : Outcome)
  | result (taskId : String) (outcome : Outcome)
  | malformedResult (taskId : String)

def LocalSession.turn (s : LocalSession) : SessionTurn → LocalSession
  | .taskAck taskId accepted reasonCode => s.handleTaskAck taskId accepted reasonCode
  | .capacity taskId freed => s.handleCapacity taskId freed
  | .failed taskId outcome => s.finishFailed taskId outcome
  | .result taskId outcome => s.finishResult taskId outcome
  | .malformedResult taskId => s.rejectResult taskId

/-- One socket of the replica. -/
structure EngineSession where
  session : LocalSession
  /-- Its read loop has ended. -/
  ended : Bool := false
  /-- The tasks whose `task_assign` frame is written and not answered, which no
  code reads. -/
  unanswered : List String := []

/-- A handler's turn. An answer to a frame is a `task_ack` that is handled. -/
def EngineSession.handle (x : EngineSession) (turn : SessionTurn) : EngineSession :=
  { x with
    session := x.session.turn turn
    unanswered :=
      match turn with
      | .taskAck taskId _ _ => x.unanswered.erase taskId
      | _ => x.unanswered }

/-- The rows a transaction of the engine has claimed and not committed. -/
structure OpenClaim where
  policies : TaskPolicies
  now : Seconds
  rows : List ClaimedTask

/-- Its commit. -/
def OpenClaim.commit (cfg : Config) (claim : OpenClaim) (workerId : Uuid) (db : Db) : Db :=
  { db with
    tasks := db.tasks.updateWhere (fun t => t.id ∈ claim.rows.map ClaimedTask.id)
      (Task.claim cfg claim.policies claim.now workerId) Task.claim_id }

/-- The candidate a pass is at, those it has not got to, and what it delivered. -/
structure Pass where
  current : ℕ
  rest : List ℕ
  delivered : Nat

/-- The await `assignment_loop` stands at. -/
inductive EnginePc where
  /-- `_work_available.wait()` -/
  | waiting
  | queueDepth (candidates : List ℕ)
  | dequeue (limit : Int) (pass : Pass)
  | commit (claim : OpenClaim) (pass : Pass)
  /-- `_deliver`, before the frame is written. -/
  | send (task : ClaimedTask) (tasks : List ClaimedTask) (pass : Pass)
  /-- The same await, with the frame written. -/
  | sent (task : ClaimedTask) (tasks : List ClaimedTask) (pass : Pass)
  /-- The end of `async with get_session()`. -/
  | leave (raised : Bool) (delivered : Nat)
  /-- `asyncio.sleep(0)` -/
  | yield
  /-- `asyncio.sleep(1)` -/
  | backOff
  | cancelled

/-- Where `drain_local_sessions` stands. -/
inductive DrainPc where
  | idle
  | polling
  | returned (timedOut : Bool)
  deriving DecidableEq, Repr

/-- One replica's engine, over the database it shares. -/
structure Engine where
  db : Db
  sessions : ℕ → Option EngineSession
  /-- `_local_sessions` -/
  localSessions : Dict Uuid ℕ := .empty
  /-- `_work_available` -/
  workAvailable : Bool := false
  /-- `_draining` -/
  draining : Bool := false
  pc : EnginePc := .waiting
  drain : DrainPc := .idle

namespace Engine

def modify (s : Engine) (i : ℕ) (f : EngineSession → EngineSession) : Engine :=
  { s with sessions := Function.update s.sessions i ((s.sessions i).map f) }

/-- The `candidates` of `assign_once`. -/
def candidates (s : Engine) : List ℕ :=
  (s.localSessions.rows.map Prod.snd).filter fun i =>
    match s.sessions i with
    | none => false
    | some x => 0 < x.session.freeCredits && !x.session.supportedTaskTypes.isEmpty

/-- `assign_once` from its first line to its first await. -/
def assignOnce (s : Engine) : Engine :=
  if s.draining then { s with pc := .waiting }
  else
    match s.candidates with
    | [] => { s with pc := .waiting }
    | candidates => { s with pc := .queueDepth candidates }

/-- The `limit` a pass asks for. -/
def limit (cfg : Config) (session : LocalSession) : Int :=
  min (session.freeCredits : Int) cfg.taskDequeueMaxBatch

/-- The three checks of `dequeue`, made before its first await. -/
def refuses (limit maxBatch : Int) (taskTypes : List String) : Bool :=
  limit < 1 || maxBatch < limit || taskTypes.isEmpty

/-- The `for session in candidates` goes on. -/
def nextCandidate (cfg : Config) (s : Engine) (delivered : Nat) : List ℕ → Option Engine
  | [] => some { s with pc := .leave false delivered }
  | i :: rest =>
      match s.sessions i with
      | none => none
      | some x =>
          let limit := limit cfg x.session
          if refuses limit cfg.taskDequeueMaxBatch x.session.supportedTaskTypes then
            some { s with pc := .leave true delivered }
          else some { s with pc := .dequeue limit ⟨i, rest, delivered⟩ }

/-- The `for task in claimed` goes on. -/
def nextTask (cfg : Config) (s : Engine) (pass : Pass) : List ClaimedTask → Option Engine
  | [] => s.nextCandidate cfg pass.delivered pass.rest
  | task :: tasks => some { s with pc := .send task tasks pass }

/-- `register_session`. It rings the doorbell. -/
def registerSession (s : Engine) (i : ℕ) (session : LocalSession) : Engine :=
  { s with
    sessions := Function.update s.sessions i (some { session := session })
    localSessions := s.localSessions.set session.workerId i
    workAvailable := true }

/-- `unregister_session` -/
def unregisterSession (s : Engine) (session : LocalSession) : Engine :=
  { s with
    localSessions :=
      match (s.localSessions.lookup session.workerId).bind s.sessions with
      | none => s.localSessions
      | some current =>
          if current.session.sessionEpoch = session.sessionEpoch then
            s.localSessions.erase session.workerId
          else s.localSessions }

/-- The inner `outstanding` of `drain_local_sessions`. -/
def outstanding (s : Engine) : Nat :=
  (s.localSessions.rows.map fun r =>
    match s.sessions r.2 with
    | none => 0
    | some x => x.session.pendingAcks.size).sum

end Engine

/-- What happens on a replica. -/
inductive EngineEvent where
  /-- `_work_available` is set, or the poll interval is over. -/
  | wake
  | depthRead
  | dequeued (now : Seconds) (skip : List Uuid)
  | committed
  /-- The frame gets onto the socket. -/
  | written
  /-- `send_text` returns. -/
  | sendReturned
  | sendRaised
  | left
  | resumed
  | rested
  /-- The loop's await raises. -/
  | raised
  | cancel
  /-- `notify_local()` -/
  | notify
  | beginDrain
  /-- `outstanding()` is looked at, `elapsed` seconds after the drain began. -/
  | poll (elapsed : Seconds)
  | register (i : ℕ) (session : LocalSession)
  /-- A socket closes, and its read loop ends. -/
  | hangUp (i : ℕ)
  | handled (i : ℕ) (turn : SessionTurn)
  /-- Somebody else's transaction. -/
  | database (db : Db)

namespace Engine

/-- `assignment_loop` goes on. -/
def loopStep (cfg : Config) (s : Engine) : EngineEvent → Option Engine
  | .wake =>
      match s.pc with
      | .waiting => some { s with workAvailable := false }.assignOnce
      | _ => none
  | .depthRead =>
      match s.pc with
      | .queueDepth candidates =>
          if (s.db.tasks.rows.filter fun t => t.status = .queued).length = 0 then
            some { s with pc := .leave false 0 }
          else s.nextCandidate cfg 0 candidates
      | _ => none
  | .dequeued now skip =>
      match s.pc with
      | .dequeue limit pass =>
          match s.sessions pass.current with
          | none => none
          | some x =>
              match TaskFleet.Model.dequeue cfg s.db now x.session.workerId limit
                cfg.taskDequeueMaxBatch
                  (some x.session.supportedTaskTypes) skip with
              | .error _ => none
              | .ok (_, []) => s.nextCandidate cfg pass.delivered pass.rest
              | .ok (_, rows) => some { s with pc := .commit ⟨s.db.policies, now, rows⟩ pass }
      | _ => none
  | .committed =>
      match s.pc with
      | .commit claim pass =>
          match s.sessions pass.current with
          | none => none
          | some x =>
              let s := { s with db := claim.commit cfg x.session.workerId s.db }
              s.nextTask cfg pass claim.rows
      | _ => none
  | .written =>
      match s.pc with
      | .send task tasks pass =>
          match s.sessions pass.current with
          | none => none
          | some x =>
              if x.ended then none
              else
                some ({ s with pc := .sent task tasks pass }.modify pass.current fun x =>
                  { x with unanswered := task.id.str :: x.unanswered })
      | _ => none
  | .sendReturned =>
      match s.pc with
      | .sent task tasks pass =>
          (s.modify pass.current fun x =>
            { x with session := x.session.deliver task.id.str task.correlationId }).nextTask cfg
              { pass with delivered := pass.delivered + 1 } tasks
      | _ => none
  | .sendRaised =>
      match s.pc with
      | .send _ tasks pass | .sent _ tasks pass => s.nextTask cfg pass tasks
      | _ => none
  | .left =>
      match s.pc with
      | .leave raised delivered =>
          some { s with
            pc := if raised then .backOff else if 0 < delivered then .yield else .waiting }
      | _ => none
  | .resumed =>
      match s.pc with
      | .yield => some s.assignOnce
      | _ => none
  | .rested =>
      match s.pc with
      | .backOff => some { s with pc := .waiting }
      | _ => none
  | .raised =>
      match s.pc with
      | .queueDepth _ => some { s with pc := .leave true 0 }
      | .dequeue _ pass | .commit _ pass => some { s with pc := .leave true pass.delivered }
      | .leave _ _ => some { s with pc := .backOff }
      | _ => none
  | .cancel => some { s with pc := .cancelled }
  | _ => none

/-- What happens beside the loop. -/
def otherStep (drainSeconds : Seconds) (s : Engine) : EngineEvent → Option Engine
  | .notify => some { s with workAvailable := true }
  | .beginDrain => some { s with draining := true }
  | .poll elapsed =>
      match s.drain with
      | .returned _ => none
      | _ =>
          if !s.draining then none
          else if s.outstanding = 0 then some { s with drain := .returned false }
          else some { s with drain := if elapsed < drainSeconds then .polling else .returned true }
  | .register i session =>
      match s.sessions i with
      | none => some (s.registerSession i session)
      | some _ => none
  | .hangUp i =>
      match s.sessions i with
      | none => none
      | some x =>
          if x.ended then none
          else some ((s.unregisterSession x.session).modify i fun x => { x with ended := true })
  | .handled i turn =>
      match s.sessions i with
      | none => none
      | some x =>
          if x.ended then none
          else some (s.modify i (·.handle turn))
  | .database db => some { s with db := db }
  | _ => none

/-- The rows the engine's transaction holds. -/
def locked (s : Engine) : List Uuid :=
  match s.pc with
  | .commit claim _ => claim.rows.map ClaimedTask.id
  | _ => []

end Engine

/-- A new session has an epoch of its own and has been handed nothing, and nobody
else's transaction touches the rows the engine's has locked. -/
def EngineEvent.Allowed (s : Engine) : EngineEvent → Prop
  | .register _ session => session.pendingAcks = .empty ∧ session.credited = .empty ∧
      ∀ j x, s.sessions j = some x → x.session.workerId = session.workerId →
        x.session.sessionEpoch ≠ session.sessionEpoch
  | .database db => ∀ id ∈ s.locked, db.tasks.get? id = s.db.tasks.get? id
  | _ => True

/-- The step of a replica. -/
def engineStep (cfg : Config) (drainSeconds : Seconds) (s : Engine) (e : EngineEvent) :
    Option Engine :=
  (s.loopStep cfg e).or (s.otherStep drainSeconds e)

/-- A replica from its start on, over any database. -/
def engine (cfg : Config) (drainSeconds : Seconds) : System Engine EngineEvent where
  init s := ∃ db, s = { db := db, sessions := fun _ => none }
  step s e t := e.Allowed s ∧ engineStep cfg drainSeconds s e = some t

namespace Demo

/-- A session the worker has just opened. -/
def idle : LocalSession where
  workerId := worker
  sessionEpoch := 1
  maxConcurrent := 2
  supportedTaskTypes := ["sleep"]

/-- A replica that has just started, with one task in the queue. -/
def replica : Engine where
  db := (play {} schemas .empty [(0, .enqueue task request)]).2
  sessions := fun _ => none

theorem idle_allowed : (EngineEvent.register 0 idle).Allowed replica :=
    ⟨rfl, rfl, by simp [replica]⟩

end Demo

end TaskFleet.Model
