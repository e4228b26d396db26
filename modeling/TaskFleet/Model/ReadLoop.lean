import TaskFleet.Model.Assignment
import TaskFleet.Model.QueueRun

/-!
# `main.py`: a worker's read loop

A worker is heard through one loop on one socket: its `hello` opens a session
and renews what the database says it holds, each message after it goes to one
handler of `assignment.py`, and the close shortens its leases.

`Assignment` has what the handlers do to the credits. Here they are put
together with their transactions and with `lease_renew_due`, the map that
decides which messages are worth a write. The map is kept on
`time.monotonic()`, the leases on the clock of the database; the two run at
one rate, and `clockOffset` is what lies between them.

`through` says that the transaction of a renewal got through: its failure is
swallowed. A failure of any other transaction leaves the database as it was
and ends the loop, and so does a payload that `validate` cannot read or an
envelope that the database does not take.
-/

namespace TaskFleet.Model

open Py

/-- A session with its renewal clock. -/
structure Channel where
  session : LocalSession
  leaseRenewDue : Dict String Seconds := .empty
  clockOffset : Seconds := 0

namespace Channel

/-- `time.monotonic()`, when the database's clock shows `now`. -/
def monotonic (ch : Channel) (now : Seconds) : Seconds := now + ch.clockOffset

/-- `_lease_due`. -/
def leaseDue (ch : Channel) (now : Seconds) (taskId : String) : Bool :=
  match ch.leaseRenewDue.lookup taskId with
  | none => true
  | some due => due ≤ ch.monotonic now

/-- `_mark_renewed`. -/
def markRenewed (cfg : Config) (ch : Channel) (now : Seconds) (taskId : String) : Channel :=
  { ch with
    leaseRenewDue := ch.leaseRenewDue.set taskId
      (ch.monotonic now + cfg.taskLeaseTtlSeconds * cfg.taskLeaseRenewFraction) }

/-- `_renew_if_due`. A renewal that matched no row is marked all the same. -/
def renewIfDue (cfg : Config) (db : Db) (now : Seconds) (through : Bool) (ch : Channel)
    (taskId : String) : Db × Channel :=
  if ch.session.mayRenew taskId && ch.leaseDue now taskId && through then
    ((renewLease cfg db now taskId ch.session.workerId).1, ch.markRenewed cfg now taskId)
  else (db, ch)

/-- A task is over for the session: `lease_renew_due.pop(task_id)`, beside
what the handler does to the credits. -/
def settle (ch : Channel) (session : LocalSession) (taskId : String) : Channel :=
  { ch with session := session, leaseRenewDue := ch.leaseRenewDue.erase taskId }

end Channel

/-- What a worker can send on an open session, with the fields its handler
reads. -/
inductive WorkerMessage where
  | taskAck (taskId : String) (accepted : Bool) (reasonCode : String)
  | capacity (taskId : String) (freed : Int)
  | taskStarted (taskId : String)
  | taskProgress (taskId : String)
  | taskFailed (taskId errorType correlationId : String)
  | taskResult (payload : List (String × Json))
  /-- A pong, a heartbeat, or a type the loop only logs. -/
  | other

namespace Channel

/-- `handle_task_ack`. -/
def handleTaskAck (cfg : Config) (db : Db) (now : Seconds) (through : Bool) (ch : Channel)
    (taskId : String) (accepted : Bool) (reasonCode : String) : Db × Channel :=
  let ch' := { ch with session := ch.session.handleTaskAck taskId accepted reasonCode }
  if ch.session.pendingAcks.contains taskId && accepted then
    ch'.renewIfDue cfg db now through taskId
  else (db, ch')

/-- `handle_capacity`. -/
def handleCapacity (ch : Channel) (taskId : String) (freed : Int) : Channel :=
  if freed < 1 then ch else ch.settle (ch.session.handleCapacity taskId freed) taskId

/-- `handle_task_started`. -/
def handleTaskStarted (cfg : Config) (db : Db) (now : Seconds) (ch : Channel) (taskId : String) :
    Db × Channel :=
  let r := markStatus cfg db now taskId ch.session.workerId .running
  (r.1, if r.2 = .transitioned then ch.markRenewed cfg now taskId else ch)

/-- `handle_task_failed`. -/
def handleTaskFailed (cfg : Config) (db : Db) (now : Seconds) (ch : Channel)
    (taskId errorType correlationId : String) : Db × Channel :=
  let r := failTask cfg db now taskId ch.session.workerId errorType correlationId
  (r.1, ch.settle (ch.session.finishFailed taskId r.2) taskId)

/-- `handle_task_result`, without the acknowledgement it sends. -/
def handleTaskResult (cfg : Config) (fl : FloatOps) (db : Db) (now : Seconds) (through : Bool)
    (ch : Channel) (payload : List (String × Json)) (resultId : Uuid) : Option (Db × Channel) :=
  match validate fl payload cfg.taskResultMaxBytes with
  | .error .overflow => none
  | .error (.malformed _) =>
      let rawTaskId := Json.getStr fl payload "task_id"
      let r := ch.renewIfDue cfg db now through rawTaskId
      some (r.1, r.2.settle (r.2.session.rejectResult rawTaskId) rawTaskId)
  | .ok envelope =>
      let r := completeTask db now envelope ch.session.workerId resultId
      let session := ch.session.finishResult envelope.taskId r.2
      if r.2 = .raised then none else some (r.1,
        if r.2 ∉ [.notOwner, .notFound, .fenced] ∨ ch.session.credited.contains envelope.taskId then
          ch.settle session envelope.taskId
        else { ch with session := session })

/-- One turn of the loop. `resultId` is what `uuid4` returns if a result is
stored; `none` ends the loop. -/
def handle (cfg : Config) (fl : FloatOps) (db : Db) (now : Seconds) (through : Bool)
    (resultId : Uuid) (ch : Channel) : WorkerMessage → Option (Db × Channel)
  | .taskAck taskId accepted reasonCode =>
      some (ch.handleTaskAck cfg db now through taskId accepted reasonCode)
  | .capacity taskId freed => some (db, ch.handleCapacity taskId freed)
  | .taskStarted taskId => some (ch.handleTaskStarted cfg db now taskId)
  | .taskProgress taskId => some (ch.renewIfDue cfg db now through taskId)
  | .taskFailed taskId errorType correlationId =>
      some (ch.handleTaskFailed cfg db now taskId errorType correlationId)
  | .taskResult payload => ch.handleTaskResult cfg fl db now through payload resultId
  | .other => some (db, ch)

/-- The session a `hello` opens, with the renewal that follows. -/
def hello (cfg : Config) (db : Db) (now : Seconds) (through : Bool) (session : LocalSession)
    (clockOffset : Seconds) : Db × Channel :=
  if through then
    let r := renewWorkerLeases cfg db now session.workerId
    (r.1,
      { session := { session with recoveredTasks := session.recoveredTasks ++ r.2.map Uuid.str }
        clockOffset := clockOffset })
  else (db, { session := session, clockOffset := clockOffset })

/-- What the close of the socket does to the database: `shorten_local_leases`,
if the registry still names this session. -/
def close (cfg : Config) (db : Db) (now : Seconds) (through registered : Bool)
    (ch : Channel) : Db :=
  if registered && through then
    (shortenWorkerLeases db now ch.session.workerId cfg.leaseDisconnectGraceSeconds).1
  else db

/-- `_deliver` of the rows a `dequeue` handed out, those whose frame got onto
the socket. -/
def deliverAll (ch : Channel) (rows : List ClaimedTask) : Channel :=
  { ch with
    session := rows.foldl (fun s r => s.deliver r.id.str r.correlationId) ch.session }

/-- `assign_once`, as far as it serves the session: it is passed over without a free
credit. `sent` are the ids whose frame got onto the socket. -/
def assignOnce (cfg : Config) (db : Db) (now : Seconds) (skip sent : List Uuid) (ch : Channel) :
    Db × Channel :=
  if 0 < ch.session.freeCredits && !ch.session.supportedTaskTypes.isEmpty then
    match dequeue cfg db now ch.session.workerId
      (min ch.session.freeCredits cfg.taskDequeueMaxBatch) cfg.taskDequeueMaxBatch
      (some ch.session.supportedTaskTypes) skip with
    | .ok (db', rows) => (db', ch.deliverAll (rows.filter fun r => r.id ∈ sent))
    | .error _ => (db, ch)
  else (db, ch)

/-- A pass hands out what one `dequeue` claimed, or does nothing. -/
theorem assignOnce_cases (cfg : Config) (db : Db) (now : Seconds) (skip sent : List Uuid)
    (ch : Channel) : ch.assignOnce cfg db now skip sent = (db, ch) ∨
    ∃ limit maxBatch taskTypes db' rows,
      dequeue cfg db now ch.session.workerId limit maxBatch taskTypes skip = .ok (db', rows) ∧
      ch.assignOnce cfg db now skip sent =
        (db', ch.deliverAll (rows.filter fun r => r.id ∈ sent)) := by
  unfold assignOnce
  split
  · split
    · next db' rows hok => exact .inr ⟨_, _, _, db', rows, hok, rfl⟩
    · exact .inl rfl
  · exact .inl rfl

end Channel

/-! ## One session over time -/

/-- What can happen next: a message is handled, the assignment pass serves the
session, or a call is made on behalf of anyone else. -/
inductive LoopAct where
  | message (resultId : Uuid) (msg : WorkerMessage)
  | assign (skip sent : List Uuid)
  | other (op : Op)

structure LoopEvent where
  now : Seconds
  act : LoopAct

/-- One open session, the database behind it, and the time. -/
structure Loop where
  db : Db
  channel : Channel
  clock : Seconds

/-- Whose call it is. -/
def Op.sender : Op → Option Uuid
  | .start _ w => some w
  | .fail _ w _ _ => some w
  | .complete _ w _ => some w
  | .renewLease _ w => some w
  | .renewWorkerLeases w => some w
  | .shortenWorkerLeases w _ => some w
  | _ => none

/-- Time goes on, and what anyone else does is not done in the worker's name:
this is its one session. -/
def LoopEvent.Allowed (e : LoopEvent) (s : Loop) : Prop :=
  s.clock ≤ e.now ∧
    match e.act with
    | .message resultId _ => s.db.results.get? resultId = none
    | .assign _ _ => True
    | .other op => op.sender ≠ some s.channel.session.workerId ∧ op.Admissible s.db

/-- What comes of it, when every transaction gets through at once. -/
def Loop.turn (cfg : Config) (fl : FloatOps) (schemas : Schemas) (s : Loop) (e : LoopEvent) :
    Option Loop :=
  match e.act with
  | .message resultId msg =>
      (s.channel.handle cfg fl s.db e.now true resultId msg).map fun r => ⟨r.1, r.2, e.now⟩
  | .assign skip sent =>
      let r := s.channel.assignOnce cfg s.db e.now skip sent
      some ⟨r.1, r.2, e.now⟩
  | .other op => some ⟨(apply cfg schemas s.db e.now op).1, s.channel, e.now⟩

/-- The session from its `hello` on, over any database a deployment can have
come to. -/
def readLoop (cfg : Config) (fl : FloatOps) (schemas : Schemas) : System Loop LoopEvent where
  init s := (queue cfg schemas).Reachable s.db ∧ s.channel.session.pendingAcks = .empty ∧
    s.channel.session.credited = .empty ∧ s.channel.leaseRenewDue = .empty
  step s e s' := e.Allowed s ∧ s.turn cfg fl schemas e = some s'

/-! ## Playing events -/

/-- The loop after an event, if the event does not end it. -/
def Loop.next (cfg : Config) (fl : FloatOps) (schemas : Schemas) (s : Loop)
    (e : LoopEvent) : Loop :=
  (s.turn cfg fl schemas e).getD s

/-- One event after another. -/
def Loop.play (cfg : Config) (fl : FloatOps) (schemas : Schemas) (s : Loop) (es : List LoopEvent) :
    Loop :=
  es.foldl (Loop.next cfg fl schemas) s

/-- Each event is one that can happen, and none of them ends the loop. -/
def Loop.Playable (cfg : Config) (fl : FloatOps) (schemas : Schemas) : Loop → List LoopEvent → Prop
  | _, [] => True
  | s, e :: es => e.Allowed s ∧ (s.turn cfg fl schemas e).isSome = true ∧
      Playable cfg fl schemas (s.next cfg fl schemas e) es

theorem Loop.step_next {cfg : Config} {fl : FloatOps} {schemas : Schemas} {s : Loop} {e : LoopEvent}
    (hallowed : e.Allowed s) (hgoes : (s.turn cfg fl schemas e).isSome = true) :
    (readLoop cfg fl schemas).step s e (s.next cfg fl schemas e) := by
  obtain ⟨s', hs'⟩ := Option.isSome_iff_exists.mp hgoes
  refine ⟨hallowed, ?_⟩
  rw [Loop.next, hs', Option.getD_some]

theorem Loop.play_trace {cfg : Config} {fl : FloatOps} {schemas : Schemas} {es : List LoopEvent} :
    ∀ {s : Loop}, Loop.Playable cfg fl schemas s es →
      (readLoop cfg fl schemas).Trace s es (s.play cfg fl schemas es) := by
  induction es with
  | nil => intro s _; exact .nil
  | cons e es ih =>
      intro s h
      exact .cons (Loop.step_next h.1 h.2.1) (ih h.2.2)

/-! ## What one turn does to the database -/

section

variable {cfg : Config} {fl : FloatOps} {schemas : Schemas} {db : Db} {now : Seconds}
  {through : Bool} {resultId : Uuid} {ch : Channel} {taskId : String}

/-- The database is left alone, or changed by one call of the worker `w`. -/
def CalledBy (cfg : Config) (schemas : Schemas) (w : Uuid) (db : Db) (now : Seconds) (db' : Db) :
    Prop :=
  db' = db ∨ ∃ op : Op, op.sender = some w ∧ op.Admissible db ∧
    db' = (apply cfg schemas db now op).1

theorem Channel.renewIfDue_calledBy :
    CalledBy cfg schemas ch.session.workerId db now
      (ch.renewIfDue cfg db now through taskId).1 := by
  unfold Channel.renewIfDue
  split
  · exact .inr ⟨.renewLease taskId ch.session.workerId, rfl, trivial, rfl⟩
  · exact .inl rfl

theorem LocalSession.releaseCredit_workerId (s : LocalSession) (taskId : String) (freed : Nat) :
    (s.releaseCredit taskId freed).workerId = s.workerId := by
  unfold LocalSession.releaseCredit
  split
  · split
    · rfl
    · split <;> rfl
  · rfl

theorem LocalSession.handleTaskAck_workerId (s : LocalSession) (taskId : String) (accepted : Bool)
    (reasonCode : String) : (s.handleTaskAck taskId accepted reasonCode).workerId = s.workerId := by
  unfold LocalSession.handleTaskAck
  split
  · split
    · rfl
    · split
      · rfl
      · exact LocalSession.releaseCredit_workerId ..
  · rfl

theorem Channel.handleTaskAck_calledBy {accepted : Bool} {reasonCode : String} :
    CalledBy cfg schemas ch.session.workerId db now
      (ch.handleTaskAck cfg db now through taskId accepted reasonCode).1 := by
  unfold Channel.handleTaskAck
  split
  · have hcall : CalledBy cfg schemas (ch.session.handleTaskAck taskId accepted reasonCode).workerId
        db now (Channel.renewIfDue cfg db now through
          { ch with session := ch.session.handleTaskAck taskId accepted reasonCode } taskId).1 :=
      Channel.renewIfDue_calledBy
    rwa [LocalSession.handleTaskAck_workerId] at hcall
  · exact .inl rfl

/-- What `handle_task_result` does with a payload it can answer for. -/
theorem Channel.handleTaskResult_cases {payload : List (String × Json)} {r : Db × Channel}
    (h : ch.handleTaskResult cfg fl db now through payload resultId = some r) :
    ((∃ reason, validate fl payload cfg.taskResultMaxBytes = .error reason) ∧
      ∃ renewed, ch.renewIfDue cfg db now through (Json.getStr fl payload "task_id") = renewed ∧
        r = (renewed.1, renewed.2.settle
          (renewed.2.session.rejectResult (Json.getStr fl payload "task_id"))
          (Json.getStr fl payload "task_id"))) ∨
    ∃ envelope answer, validate fl payload cfg.taskResultMaxBytes = .ok envelope ∧
      completeTask db now envelope ch.session.workerId resultId = answer ∧ answer.2 ≠ .raised ∧
      r.1 = answer.1 ∧
      (r.2 = ch.settle (ch.session.finishResult envelope.taskId answer.2) envelope.taskId ∨
        r.2 = { ch with session := ch.session.finishResult envelope.taskId answer.2 }) := by
  unfold Channel.handleTaskResult at h
  split at h
  · cases h
  · next reason hvalid => exact .inl ⟨⟨_, hvalid⟩, _, rfl, (Option.some.inj h).symm⟩
  · next envelope hvalid =>
      dsimp only at h
      split at h
      · cases h
      · next htaken =>
          refine .inr ⟨envelope, _, hvalid, rfl, htaken, ?_⟩
          rw [← Option.some.inj h]
          refine ⟨rfl, ?_⟩
          dsimp only
          split
          · exact .inl rfl
          · exact .inr rfl

theorem Channel.handleTaskResult_calledBy {payload : List (String × Json)} {r : Db × Channel}
    (hfresh : db.results.get? resultId = none)
    (h : ch.handleTaskResult cfg fl db now through payload resultId = some r) :
    CalledBy cfg schemas ch.session.workerId db now r.1 := by
  rcases Channel.handleTaskResult_cases h with
    ⟨-, renewed, rfl, rfl⟩ | ⟨envelope, answer, -, rfl, -, hdb, -⟩
  · exact Channel.renewIfDue_calledBy
  · refine .inr ⟨.complete envelope ch.session.workerId resultId, rfl, hfresh, ?_⟩
    simp only [hdb, apply]

/-- **One turn** makes at most one call, and makes it in the name of the
session's worker. -/
theorem Channel.handle_calledBy {msg : WorkerMessage} {r : Db × Channel}
    (hfresh : db.results.get? resultId = none)
    (h : ch.handle cfg fl db now through resultId msg = some r) :
    CalledBy cfg schemas ch.session.workerId db now r.1 := by
  cases msg with
  | taskAck taskId accepted reasonCode =>
      rw [← Option.some.inj h]
      exact Channel.handleTaskAck_calledBy
  | capacity taskId freed =>
      rw [← Option.some.inj h]
      exact .inl rfl
  | taskStarted taskId =>
      rw [← Option.some.inj h]
      exact .inr ⟨.start taskId ch.session.workerId, rfl, trivial, rfl⟩
  | taskProgress taskId =>
      rw [← Option.some.inj h]
      exact Channel.renewIfDue_calledBy
  | taskFailed taskId errorType correlationId =>
      rw [← Option.some.inj h]
      exact .inr ⟨.fail taskId ch.session.workerId errorType correlationId, rfl, trivial, rfl⟩
  | taskResult payload =>
      rw [Channel.handle] at h
      exact Channel.handleTaskResult_calledBy hfresh h
  | other =>
      rw [← Option.some.inj h]
      exact .inl rfl

theorem Channel.hello_calledBy {session : LocalSession} {clockOffset : Seconds} :
    CalledBy cfg schemas session.workerId db now
      (Channel.hello cfg db now through session clockOffset).1 := by
  unfold Channel.hello
  split
  · exact .inr ⟨.renewWorkerLeases session.workerId, rfl, trivial, rfl⟩
  · exact .inl rfl

theorem Channel.close_calledBy {registered : Bool} :
    CalledBy cfg schemas ch.session.workerId db now (ch.close cfg db now through registered) := by
  unfold Channel.close
  split
  · exact .inr ⟨.shortenWorkerLeases ch.session.workerId cfg.leaseDisconnectGraceSeconds, rfl,
      trivial, rfl⟩
  · exact .inl rfl

end

end TaskFleet.Model
