import TaskFleet.Lib.ExpiringKeys
import TaskFleet.Model.OperatorApi
import TaskFleet.Model.Workers
import TaskFleet.Py.Dict
import TaskFleet.Py.Json

/-!
# `main.py`: enrollment, heartbeats and the liveness sweep

The requests that keep `worker:{id}:claim` and `worker:{id}:metrics` in Redis, each with a time
to live, and the sweep that reads the second against two thresholds. They share the `workers`
table with the requests of `Workers`, and move its rows by the same handlers. Redis and the
replicas go by one clock, which `elapse` moves.
-/

namespace TaskFleet.Model

open Py Handler

/-- The settings these requests read. -/
structure PresenceSettings extends SecurityConfig where
  enrollmentSecret : String
  workerClaimTtlSeconds : Int := 10
  heartbeatSuspectThresholdSeconds : Int := 12
  heartbeatOfflineThresholdSeconds : Int := 25

/-- The body of `POST /workers/register`. -/
structure RegisterRequest where
  enrollmentSecret : Option String := none
  workerId : Option String := none
  workerCredential : Option String := none

/-- The body of `POST /workers/release`. -/
structure ReleaseRequest where
  workerId : String
  workerCredential : String

/-- The value of `worker:{id}:metrics`. -/
structure Metrics where
  lastHeartbeatAt : Option Seconds := none
  others : Dict String Json := .empty

/-- `metrics.update(fields)` -/
def Metrics.update (m : Metrics) (heartbeat : Option Seconds) (fields : List (String × Json)) :
    Metrics where
  lastHeartbeatAt := heartbeat.or m.lastHeartbeatAt
  others := fields.foldl (fun d field => d.set field.1 field.2) m.others

/-! ## The stores -/

/-- What the requests ask of Postgres, Redis and the clock. -/
inductive PresenceCmd where
  | worker (c : WorkerCmd)
  /-- `_rate_limited` -/
  | rateLimited
  /-- `SET worker:{id}:claim … EX`, with or without `NX`. -/
  | setClaim (id : Uuid) (nx : Bool)
  | deleteClaim (id : Uuid)
  | getMetrics (id : Uuid)
  /-- `heartbeat` is the `last_heartbeat_at` among the merged fields, which no code reads here. -/
  | setMetrics (id : Uuid) (metrics : Metrics) (heartbeat : Option Seconds)
  /-- The `SELECT` of the sweep. -/
  | candidates
  | elapse (seconds : Seconds)

/-- The reply to a command; what is set in Redis is answered with the time as well. -/
abbrev PresenceCmd.Reply : PresenceCmd → Type
  | .worker c => c.Reply
  | .rateLimited => Bool
  | .setClaim .. => Bool × Seconds
  | .deleteClaim _ => Unit
  | .getMetrics _ => Option Metrics
  | .setMetrics .. => Seconds
  | .candidates => List (Uuid × WorkerStatus)
  | .elapse _ => Unit

abbrev presenceCommands : Commands := ⟨PresenceCmd, PresenceCmd.Reply⟩

structure PresenceStore where
  identities : WorkerStore := {}
  clock : Seconds := 0
  claims : ExpiringKeys Uuid Seconds Unit := fun _ => none
  metrics : ExpiringKeys Uuid Seconds Metrics := fun _ => none

/-- `Worker.status.in_(["CONNECTING", "ONLINE", "SUSPECT"])` -/
def WorkerStatus.swept : WorkerStatus → Bool
  | connecting | online | suspect => true
  | _ => false

/-- The replies a command may get. -/
def PresenceStore.replies (s : PresenceStore) : (c : PresenceCmd) → c.Reply → Prop
  | .worker .now, now => now = s.clock
  | .worker c, r => s.identities.replies c r
  | .rateLimited, _ => True
  | .setClaim id nx, (granted, now) =>
      now = s.clock ∧ granted = (!nx || (s.claims.live s.clock id).isNone)
  | .deleteClaim _, _ => True
  | .getMetrics id, metrics => metrics = s.metrics.live s.clock id
  | .setMetrics .., now => now = s.clock
  | .candidates, rows => (rows.map Prod.fst).Nodup ∧ ∀ id status, (id, status) ∈ rows ↔
      status.swept = true ∧ ∃ row, s.identities.workers id = some row ∧ row.status = status
  | .elapse seconds, _ => 0 ≤ seconds

/-- What a command leaves. -/
def PresenceStore.after (cfg : PresenceSettings) (s : PresenceStore) :
    (c : PresenceCmd) → c.Reply → PresenceStore
  | .worker c, r => { s with identities := s.identities.after cfg.toSecurityConfig c r }
  | .setClaim id _, (granted, now) =>
      if granted then { s with claims := s.claims.put id () (now + cfg.workerClaimTtlSeconds) }
        else s
  | .deleteClaim id, _ => { s with claims := s.claims.drop id }
  | .setMetrics id metrics _, now =>
      -- `HEARTBEAT_METRICS_TTL_MULTIPLIER`
      { s with
        metrics := s.metrics.put id metrics (now + cfg.heartbeatOfflineThresholdSeconds * 3) }
  | .elapse seconds, _ => { s with clock := s.clock + seconds }
  | .rateLimited, _ | .getMetrics _, _ | .candidates, _ => s

def presenceStore (cfg : PresenceSettings) : Store presenceCommands PresenceStore where
  replies := PresenceStore.replies
  after := PresenceStore.after cfg

/-! ## The handlers -/

abbrev PresenceHandler := Handler presenceCommands

/-- Await one command. -/
abbrev awaits (c : PresenceCmd) : PresenceHandler c.Reply := call (K := presenceCommands) c

/-- A handler of `Workers`, run here. -/
def ofWorkers {α : Type} (h : WorkerHandler α) : PresenceHandler α :=
  h.lift PresenceCmd.worker fun _ r => r

/-- `verify_enrollment_secret` -/
def PresenceSettings.verifyEnrollmentSecret (cfg : PresenceSettings) (provided : String) :
    Option Bool :=
  compareDigest provided cfg.enrollmentSecret

/-- How `register_worker` may turn out. -/
inductive RegisterReply where
  | rateLimited
  | invalidIdentity
  /-- 409: "identity already active elsewhere" -/
  | alreadyActive
  | reaffirmed (id : Uuid)
  | invalidEnrollment
  | registered (id : Uuid) (rawCredential : String)
  /-- The comparison of the secrets raised. -/
  | serverError

/-- The course of a caller that presents an identity. -/
def reaffirmWorker (cfg : PresenceSettings) (workerId workerCredential : String) :
    PresenceHandler RegisterReply :=
  match Uuid.parse workerId with
  | none => pure .invalidIdentity
  | some workerUuid => do
      match ← awaits (.worker (.getWorker workerUuid)) with
      | none => pure .invalidIdentity
      | some worker =>
          if worker.revoked || !worker.hasCredential cfg.toSecurityConfig workerCredential then
            pure .invalidIdentity
          else
            let (claimSet, _) ← awaits (.setClaim workerUuid true)
            if claimSet then
              awaits (.worker (.commitWorker workerUuid worker worker))
              pure (.reaffirmed workerUuid)
            else pure .alreadyActive

/-- The course of a caller that does not. -/
def enrollWorker (cfg : PresenceSettings) (enrollmentSecret rawCredential : String) :
    PresenceHandler RegisterReply :=
  if enrollmentSecret = "" then pure .invalidEnrollment
  else
    match cfg.verifyEnrollmentSecret enrollmentSecret with
    | none => pure .serverError
    | some false => pure .invalidEnrollment
    | some true => do
        let id ← awaits (.worker (.addWorker (cfg.hashCredential rawCredential)))
        let _ ← awaits (.setClaim id false)
        pure (.registered id rawCredential)

/-- `register_worker`, with the credential it draws if it has to. -/
def registerWorker (cfg : PresenceSettings) (body : RegisterRequest) (rawCredential : String) :
    PresenceHandler RegisterReply := do
  if ← awaits .rateLimited then pure .rateLimited
  else
    let workerId := body.workerId.getD ""
    let workerCredential := body.workerCredential.getD ""
    if workerId ≠ "" ∧ workerCredential ≠ "" then reaffirmWorker cfg workerId workerCredential
    else enrollWorker cfg (body.enrollmentSecret.getD "") rawCredential

/-- `release_worker`: whether a claim was released. -/
def releaseWorker (cfg : PresenceSettings) (body : ReleaseRequest) : PresenceHandler Bool :=
  match Uuid.parse body.workerId with
  | none => pure false
  | some workerUuid => do
      match ← awaits (.worker (.getWorker workerUuid)) with
      | none => pure false
      | some worker =>
          if worker.hasCredential cfg.toSecurityConfig body.workerCredential then
            awaits (.deleteClaim workerUuid)
            pure true
          else pure false

/-- `_merge_metrics` -/
def mergeMetrics (workerUuid : Uuid) (heartbeat : Option Seconds) (fields : List (String × Json)) :
    PresenceHandler Unit := do
  let existing ← awaits (.getMetrics workerUuid)
  let metrics := (existing.getD {}).update heartbeat fields
  let _ ← awaits (.setMetrics workerUuid metrics heartbeat)
  pure ()

/-- What `ws_connect` does of a session that is established. -/
def sessionEstablished (workerUuid : Uuid) : PresenceHandler Unit := do
  ofWorkers (transitionStatus workerUuid Trigger.wsSessionEstablished.newStatus)
  let now ← awaits (.worker .now)
  mergeMetrics workerUuid (some now) [("sequence", .int 0)]

/-- What a `heartbeat` says of the worker. -/
def heartbeatFields (payload : List (String × Json)) : List (String × Json) :=
  [("sequence", Json.get payload "sequence"),
    ("uptime_seconds", Json.get payload "uptime_seconds"),
    ("agent_version", Json.get payload "agent_version"),
    ("reported_status", Json.get payload "status"),
    ("cpu_percent", Json.get payload "cpu_percent"),
    ("memory_percent", Json.get payload "memory_percent")]

/-- What it does of a `heartbeat`. -/
def heartbeatReceived (workerUuid : Uuid) (payload : List (String × Json)) :
    PresenceHandler Unit := do
  let now ← awaits (.worker .now)
  mergeMetrics workerUuid (some now) (heartbeatFields payload)
  ofWorkers (transitionStatus workerUuid Trigger.heartbeatReceived.newStatus)

/-- What the sweep asks for, of a candidate with this status and these metrics. -/
def sweepVerdict (cfg : PresenceSettings) (now : Seconds) (currentStatus : WorkerStatus)
    (metrics : Option Metrics) : Option Trigger :=
  match metrics.bind Metrics.lastHeartbeatAt with
  | none =>
      if currentStatus ≠ .offline then some .heartbeatMissedOfflineThreshold else none
  | some last =>
      let elapsed := now - last
      if cfg.heartbeatOfflineThresholdSeconds < elapsed then
        if currentStatus ≠ .offline then some .heartbeatMissedOfflineThreshold else none
      else if cfg.heartbeatSuspectThresholdSeconds < elapsed ∧ currentStatus ≠ .suspect then
        some .heartbeatMissedSuspectThreshold
      else none

/-- The loop of the sweep. -/
def sweepCandidates (cfg : PresenceSettings) (now : Seconds) :
    List (Uuid × WorkerStatus) → PresenceHandler Unit
  | [] => pure ()
  | (workerUuid, currentStatus) :: rest => do
      let metrics ← awaits (.getMetrics workerUuid)
      match sweepVerdict cfg now currentStatus metrics with
      | none => sweepCandidates cfg now rest
      | some trigger => do
          ofWorkers (transitionStatus workerUuid trigger.newStatus)
          sweepCandidates cfg now rest

/-- `_sweep_heartbeats` -/
def sweepHeartbeats (cfg : PresenceSettings) : PresenceHandler Unit := do
  let now ← awaits (.worker .now)
  let candidates ← awaits .candidates
  sweepCandidates cfg now candidates

/-! ## The requests -/

inductive PresenceRequest where
  | register (body : RegisterRequest) (rawCredential : String)
  | release (body : ReleaseRequest)
  | revoke (workerId adminSecret : String)
  /-- A status write of `ws_connect` with no merge beside it. -/
  | transition (workerUuid : Uuid) (trigger : Trigger)
  | established (workerUuid : Uuid)
  | heartbeat (workerUuid : Uuid) (payload : List (String × Json))
  /-- A `pong` of a worker that was sent a ping. -/
  | pong (workerUuid : Uuid) (latencyMs : Json)
  | sweep
  | elapse (seconds : Seconds)

/-- What a request returns. -/
inductive PresenceOutcome where
  | register (reply : RegisterReply)
  | release (released : Bool)
  | revoke (reply : RevokeReply)
  | unit

def PresenceRequest.handler (cfg : PresenceSettings) :
    PresenceRequest → PresenceHandler PresenceOutcome
  | .register body rawCredential => .register <$> registerWorker cfg body rawCredential
  | .release body => .release <$> releaseWorker cfg body
  | .revoke workerId adminSecret =>
      .revoke <$> ofWorkers (revokeWorker cfg.toSecurityConfig workerId adminSecret)
  | .transition workerUuid trigger =>
      (fun _ => .unit) <$> ofWorkers (transitionStatus workerUuid trigger.newStatus)
  | .established workerUuid => (fun _ => .unit) <$> sessionEstablished workerUuid
  | .heartbeat workerUuid payload => (fun _ => .unit) <$> heartbeatReceived workerUuid payload
  | .pong workerUuid latencyMs =>
      (fun _ => .unit) <$> mergeMetrics workerUuid none [("latency_ms", latencyMs)]
  | .sweep => (fun _ => .unit) <$> sweepHeartbeats cfg
  | .elapse seconds => (fun _ => .unit) <$> awaits (.elapse seconds)

abbrev PresencePool := Pool presenceCommands PresenceStore PresenceRequest PresenceOutcome

abbrev PresenceEvent := PoolEvent presenceCommands PresenceRequest

/-- The coordinator's part in who is there, from empty stores on. -/
def presence (cfg : PresenceSettings) : System PresencePool PresenceEvent :=
  Pool.system (presenceStore cfg) (PresenceRequest.handler cfg) (· = {})

/-! ## A small deployment -/

/-- The reply the stores give, with the key to use for a new row and the rows the sweep gets. -/
def PresenceStore.answer (fresh : Uuid) (rows : List (Uuid × WorkerStatus)) (s : PresenceStore) :
    (c : PresenceCmd) → c.Reply
  | .worker c => s.identities.answer fresh "" s.clock c
  | .rateLimited => false
  | .setClaim id nx => (!nx || (s.claims.live s.clock id).isNone, s.clock)
  | .deleteClaim _ => ()
  | .getMetrics id => s.metrics.live s.clock id
  | .setMetrics .. => s.clock
  | .candidates => rows
  | .elapse _ => ()

namespace Demo

def presenceSettings : PresenceSettings := { security with enrollmentSecret := "join" }

/-- The coordinator before its first request. -/
def nobodyThere : PresencePool := ⟨{}, fun _ => none⟩

end Demo

end TaskFleet.Model
