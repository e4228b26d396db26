import TaskFleet.Model.TaskQueue
import TaskFleet.Model.Workers

/-!
# `main.py`: the sockets of one worker

`ws_connect` from the token check to the end of its `finally` block, and the
`_control_listener` it starts, for any number of sockets of one worker on any
replicas. An event is one turn of one of these coroutines: the await it stands
at completes, and it runs on to the next. Redis commands are atomic, and a
transaction is its commit.

Of what a session does while it reads, its end is what touches the sockets and
their keys. A `heartbeat` also moves the worker's status, like the sweep and a
revocation; these are requests of `Presence` and `Workers` and no events here.
The metrics, the pings and the pushes are left out.
-/

namespace TaskFleet.Model

open Py

/-- `COORDINATOR_INSTANCE_ID`. -/
abbrev InstanceId := String

/-- The await `ws_connect` stands at. -/
inductive WsPc where
  /-- The read of the row in `_transition_status(…, "CONNECTING", …)`. -/
  | connecting
  | connectingCommit (loaded : WorkerRow)
  | hello
  | incrEpoch
  | publish
  | setRegistry
  | helloAck
  | online
  | onlineCommit (loaded : WorkerRow)
  | mergeMetrics
  | renewLeases
  /-- The read loop. -/
  | receive
  /-- The first await of the `finally` block. -/
  | getRegistry
  | deleteRegistry
  | deleteTasks
  | offline
  | offlineCommit (loaded : WorkerRow)
  | shortenLeases
  | returned

/-- Where `_control_listener` stands. -/
inductive Listener where
  | absent
  /-- The task exists and has not subscribed yet. -/
  | created
  /-- Subscribed, with `seen` messages of the channel behind it. -/
  | listening (seen : Nat)
  /-- Sending `session_evicted`. -/
  | evicting
  /-- Closing the socket. -/
  | closing
  | ended
  deriving DecidableEq, Repr

/-- One socket of the worker and the coroutines that serve it. -/
structure WsSession where
  instanceId : InstanceId
  pc : WsPc := .connecting
  /-- `session_epoch`, 0 until it is drawn. -/
  sessionEpoch : Nat := 0
  closed : Bool := false
  listener : Listener := .absent

/-- The value of `worker:{id}:connection`, as far as it is read again. -/
structure Registration where
  sessionEpoch : Nat
  coordinatorInstance : InstanceId
  deriving DecidableEq, Repr

/-- A value of `_local_sessions`: which socket it is of, and its epoch. -/
structure LocalEntry where
  session : ℕ
  sessionEpoch : Nat
  deriving DecidableEq, Repr

/-- What the sockets share: Redis, Postgres and the worker's entry in the
`_local_sessions` of each replica. -/
structure SharedState where
  epochCounter : Nat := 0
  /-- The messages of the control channel, oldest first. -/
  published : List Nat := []
  registry : Option Registration := none
  /-- Whether the `current_tasks` hash exists. -/
  currentTasks : Bool := false
  row : WorkerRow
  db : Db
  localSessions : InstanceId → Option LocalEntry := fun _ => none

/-- `_transition_status` has something to commit over the row it read. -/
def WorkerRow.moves (worker : WorkerRow) (newStatus : WorkerStatus) : Bool :=
  worker.status ≠ newStatus && worker.status ≠ .quarantined

/-- The commit of `_transition_status`. -/
def SharedState.transition (s : SharedState) (loaded : WorkerRow)
    (newStatus : WorkerStatus) : SharedState :=
  { s with row := loaded.flush { loaded with status := newStatus } s.row }

/-- The registry key is deleted, or its time to live is over. -/
def SharedState.dropRegistry (s : SharedState) : SharedState := { s with registry := none }

/-- `register_session` -/
def SharedState.registerSession (s : SharedState) (i : ℕ) (x : WsSession) : SharedState :=
  { s with
    localSessions := Function.update s.localSessions x.instanceId (some ⟨i, x.sessionEpoch⟩) }

/-- `unregister_session` -/
def SharedState.unregisterSession (s : SharedState) (x : WsSession) : SharedState :=
  { s with
    localSessions :=
      match s.localSessions x.instanceId with
      | none => s.localSessions
      | some current =>
          if current.sessionEpoch = x.sessionEpoch then
            Function.update s.localSessions x.instanceId none
          else s.localSessions }

theorem SharedState.unregisterSession_ne {s : SharedState} {x : WsSession} {instanceId : InstanceId}
    (h : instanceId ≠ x.instanceId) :
    (s.unregisterSession x).localSessions instanceId = s.localSessions instanceId := by
  cases hcurrent : s.localSessions x.instanceId with
  | none => simp [unregisterSession, hcurrent]
  | some current => by_cases hown :
      current.sessionEpoch = x.sessionEpoch <;> simp [unregisterSession, *]

/-- `ws_connect` goes on from the await it stands at. -/
def wsConnect (cfg : Config) (workerId : Uuid) (now : Seconds) (i : ℕ) (s : SharedState)
    (x : WsSession) :
    Option (SharedState × WsSession) :=
  match x.pc with
  | .connecting =>
      some (s, { x with pc := if s.row.moves .connecting then .connectingCommit s.row else .hello })
  | .connectingCommit loaded => some (s.transition loaded .connecting, { x with pc := .hello })
  | .hello => some (s, { x with pc := .incrEpoch })
  | .incrEpoch =>
      let sessionEpoch := s.epochCounter + 1
      some ({ s with epochCounter := sessionEpoch },
        { x with pc := .publish, sessionEpoch := sessionEpoch })
  | .publish => some ({ s with published := s.published ++ [x.sessionEpoch] },
      { x with pc := .setRegistry })
  | .setRegistry =>
      some ({ s with registry := some ⟨x.sessionEpoch, x.instanceId⟩ }, { x with pc := .helloAck })
  | .helloAck => some (s, { x with pc := .online })
  | .online =>
      some (s, { x with pc := if s.row.moves .online then .onlineCommit s.row else .mergeMetrics })
  | .onlineCommit loaded => some (s.transition loaded .online, { x with pc := .mergeMetrics })
  | .mergeMetrics => some
      (s.registerSession i x, { x with pc := .renewLeases, listener := .created })
  | .renewLeases =>
      some ({ s with db := (renewWorkerLeases cfg s.db now workerId).1 }, { x with pc := .receive })
  | .receive => none
  | .getRegistry =>
      match s.registry with
      | some current =>
          if current.sessionEpoch = x.sessionEpoch then some (s, { x with pc := .deleteRegistry })
          else some (s, { x with pc := .returned, closed := true })
      | none => some (s, { x with pc := .returned, closed := true })
  | .deleteRegistry => some (s.dropRegistry, { x with pc := .deleteTasks })
  | .deleteTasks => some ({ s with currentTasks := false }, { x with pc := .offline })
  | .offline =>
      some (s, { x with
        pc := if s.row.moves .offline then .offlineCommit s.row else .shortenLeases })
  | .offlineCommit loaded => some (s.transition loaded .offline, { x with pc := .shortenLeases })
  | .shortenLeases =>
      let grace := cfg.leaseDisconnectGraceSeconds
      some ({ s with db := (shortenWorkerLeases s.db now workerId grace).1 },
        { x with pc := .returned, closed := true })
  | .returned => none

/-- The await raises. A failed renewal is only logged, and it takes the read loop
to get to the `finally` block. -/
def wsConnectRaise (s : SharedState) (x : WsSession) : Option (SharedState × WsSession) :=
  match x.pc with
  | .renewLeases => some (s, { x with pc := .receive })
  | .receive => some (s.unregisterSession x, { x with pc := .getRegistry, listener := .ended })
  | .returned => none
  | _ => some (s, { x with pc := .returned, closed := true })

/-- `_control_listener` goes on. -/
def controlListener (s : SharedState) (x : WsSession) : Option WsSession :=
  match x.listener with
  | .created => some { x with listener := .listening s.published.length }
  | .listening seen =>
      match s.published[seen]? with
      | none => none
      | some newEpoch =>
          if newEpoch ≤ x.sessionEpoch then some { x with listener := .listening (seen + 1) }
          else some { x with listener := .evicting }
  | .evicting => some { x with listener := .closing }
  | .closing => some { x with closed := true, listener := .ended }
  | .absent | .ended => none

/-- What may happen to a socket. -/
inductive WsAction where
  | turn (now : Seconds)
  | raise
  /-- The worker goes away. -/
  | hangUp
  | listen

/-- What happens to a worker's sockets. -/
inductive WsEvent where
  /-- A socket has shown a valid token. -/
  | accept (i : ℕ) (instanceId : InstanceId)
  | act (i : ℕ) (action : WsAction)
  /-- The time to live of the registry key is over. -/
  | expireRegistry

/-- All sockets of the worker, by number. -/
structure WsState where
  shared : SharedState
  sessions : ℕ → Option WsSession

/-- One action of a socket. -/
def wsAct (cfg : Config) (workerId : Uuid) (i : ℕ) (s : SharedState) (x : WsSession) :
    WsAction → Option (SharedState × WsSession)
  | .turn now => wsConnect cfg workerId now i s x
  | .raise => wsConnectRaise s x
  | .hangUp => some (s, { x with closed := true })
  | .listen => (controlListener s x).map fun x' => (s, x')

def wsStep (cfg : Config) (workerId : Uuid) (s : WsState) : WsEvent → Option WsState
  | .accept i instanceId =>
      match s.sessions i with
      | none =>
          some { s with
            sessions := Function.update s.sessions i (some { instanceId := instanceId }) }
      | some _ => none
  | .act i action =>
      match s.sessions i with
      | none => none
      | some x => (wsAct cfg workerId i s.shared x action).map fun r =>
          ⟨r.1, Function.update s.sessions i (some r.2)⟩
  | .expireRegistry => some { s with shared := s.shared.dropRegistry }

/-- The sockets of `workerId`, from before its first connection on. -/
def sockets (cfg : Config) (workerId : Uuid) : System WsState WsEvent where
  init s := ∃ row db, s = ⟨{ row := row, db := db }, fun _ => none⟩
  step s e t := wsStep cfg workerId s e = some t

/-! ## A small deployment -/

namespace Demo

/-- `ws_connect` of socket `i` goes on `n` times. -/
def turns (i n : ℕ) : List WsEvent := List.replicate n (.act i (.turn 0))

/-- Before the first connection. -/
def noSockets : WsState := ⟨{ row := { credentialHash := none }, db := .empty }, fun _ => none⟩

/-- A worker connects and its socket gets to the read loop. -/
def connected : List WsEvent :=
  .accept 0 "a" :: turns 0 10 ++ [.act 0 .listen] ++ turns 0 1

end Demo

end TaskFleet.Model
