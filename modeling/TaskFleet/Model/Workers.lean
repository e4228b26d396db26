import TaskFleet.Lib.Handlers
import TaskFleet.Py.Uuid
import TaskFleet.Model.Config

/-!
# `main.py`: worker identities

The `workers` table, the access tokens in Redis, and the requests that read and
write them. A request awaits one database or Redis command at a time; what it
does between two of them, drawing a token or reading the clock included, is
part of the reply that let it go on.
-/

namespace TaskFleet.Model

open Py Handler

/-- The `status` strings of a worker. -/
inductive WorkerStatus where
  | registered
  | connecting
  | online
  | suspect
  | offline
  | quarantined
  deriving DecidableEq, Repr

/-- A row of `workers`. -/
structure WorkerRow where
  credentialHash : Option String
  status : WorkerStatus := .registered
  revoked : Bool := false

/-- `session.commit()`: the columns changed since the row was loaded are
written. -/
def WorkerRow.flush (loaded wanted row : WorkerRow) : WorkerRow where
  credentialHash :=
    if wanted.credentialHash = loaded.credentialHash
      then row.credentialHash else wanted.credentialHash
  status := if wanted.status = loaded.status then row.status else wanted.status
  revoked := if wanted.revoked = loaded.revoked then row.revoked else wanted.revoked

/-- The value of `access_token:{hash}`. -/
structure TokenRecord where
  workerId : Uuid
  generation : Nat
  expiresAt : Seconds

/-- `security.py`, and the setting `refresh_token` reads. -/
structure SecurityConfig where
  hashCredential : String → String
  adminSecret : String
  accessTokenTtlSeconds : Int := 60

/-! ## The stores -/

/-- What the requests ask of Postgres and Redis. -/
inductive WorkerCmd where
  | getWorker (id : Uuid)
  | commitWorker (id : Uuid) (loaded wanted : WorkerRow)
  | addWorker (credentialHash : String)
  | incrTokenGen (id : Uuid)
  | getTokenGen (id : Uuid)
  | setAccessToken (id : Uuid) (generation : Nat)
  | getAccessToken (hash : String)
  | expireAccessToken (hash : String)
  | now

/-- The reply to a command. `setAccessToken` is answered with the token drawn
for it and the time. -/
abbrev WorkerCmd.Reply : WorkerCmd → Type
  | .getWorker _ => Option WorkerRow
  | .commitWorker .. => Unit
  | .addWorker _ => Uuid
  | .incrTokenGen _ => Nat
  | .getTokenGen _ => Option Nat
  | .setAccessToken .. => String × Seconds
  | .getAccessToken _ => Option TokenRecord
  | .expireAccessToken _ => Unit
  | .now => Seconds

abbrev workerCommands : Commands := ⟨WorkerCmd, WorkerCmd.Reply⟩

/-- The two stores. -/
structure WorkerStore where
  workers : Uuid → Option WorkerRow := fun _ => none
  tokenGen : Uuid → Option Nat := fun _ => none
  accessTokens : String → Option TokenRecord := fun _ => none
  /-- Every token handed out so far, which no code reads. -/
  issued : List (String × TokenRecord) := []

/-- The replies a command may get. A new row has a new key, and a new token is
one nobody holds. -/
def WorkerStore.replies (s : WorkerStore) : (c : WorkerCmd) → c.Reply → Prop
  | .getWorker id, row => row = s.workers id
  | .commitWorker .., _ => True
  | .addWorker _, id => s.workers id = none
  | .incrTokenGen id, generation => generation = (s.tokenGen id).getD 0 + 1
  | .getTokenGen id, generation => generation = s.tokenGen id
  | .setAccessToken .., (rawToken, _) => ∀ issued ∈ s.issued, issued.1 ≠ rawToken
  | .getAccessToken hash, record => record = s.accessTokens hash
  | .expireAccessToken _, _ => True
  | .now, _ => True

/-- What a command leaves. A token record may be gone at any moment, its time to
live being a matter of Redis. -/
def WorkerStore.after (sec : SecurityConfig) (s : WorkerStore) : (c : WorkerCmd) →
    c.Reply → WorkerStore
  | .getWorker _, _ => s
  | .commitWorker id loaded wanted, _ =>
      { s with workers := Function.update s.workers id ((s.workers id).map (loaded.flush wanted)) }
  | .addWorker credentialHash, id =>
      { s with
        workers := Function.update s.workers id (some { credentialHash := some credentialHash }) }
  | .incrTokenGen id, generation =>
      { s with tokenGen := Function.update s.tokenGen id (some generation) }
  | .getTokenGen _, _ => s
  | .setAccessToken id generation, (rawToken, now) =>
      let record := ⟨id, generation, now + sec.accessTokenTtlSeconds⟩
      { s with
        accessTokens := Function.update s.accessTokens (sec.hashCredential rawToken) (some record)
        issued := (rawToken, record) :: s.issued }
  | .getAccessToken _, _ => s
  | .expireAccessToken hash,
      _ => { s with accessTokens := Function.update s.accessTokens hash none }
  | .now, _ => s

def workerStore (sec : SecurityConfig) : Store workerCommands WorkerStore where
  replies := WorkerStore.replies
  after := WorkerStore.after sec

/-! ## The handlers -/

abbrev WorkerHandler := Handler workerCommands

/-- Await one command. -/
abbrev await (c : WorkerCmd) : WorkerHandler c.Reply := call (K := workerCommands) c

/-- `worker.credential_hash` is there and `verify_credential` accepts. -/
def WorkerRow.hasCredential (sec : SecurityConfig) (worker : WorkerRow) (raw : String) : Bool :=
  match worker.credentialHash with
  | none => false
  | some hash => hash != "" && sec.hashCredential raw == hash

/-- Why `refresh_token` answers 401. -/
inductive RefreshRejection where
  | invalidIdentity
  | invalidCredential
  deriving DecidableEq, Repr

/-- `refresh_token`: the new token and its lifetime. -/
def refreshToken (sec : SecurityConfig) (workerId workerCredential : String) :
    WorkerHandler (Except RefreshRejection (String × Int)) :=
  match Uuid.parse workerId with
  | none => pure (.error .invalidIdentity)
  | some workerUuid => do
      match ← await (.getWorker workerUuid) with
      | none => pure (.error .invalidCredential)
      | some worker =>
          if worker.revoked || !worker.hasCredential sec workerCredential then
            pure (.error .invalidCredential)
          else
            let generation ← await (.incrTokenGen workerUuid)
            let (rawToken, _) ← await (.setAccessToken workerUuid generation)
            pure (.ok (rawToken, sec.accessTokenTtlSeconds))

/-- What follows `Bearer ` in an authorization header. -/
def bearerToken (authorization : String) : Option String :=
  if authorization.toList.take 7 = "Bearer ".toList then
    some (String.ofList (authorization.toList.drop 7))
  else none

/-- Why `verify_token` turns a caller away. -/
inductive TokenRejection where
  | malformed
  | expired
  | superseded
  | revoked
  deriving DecidableEq, Repr

/-- `verify_token` -/
def verifyToken (sec : SecurityConfig) (authorization : String) :
    WorkerHandler (Except TokenRejection Uuid) :=
  match bearerToken authorization with
  | none => pure (.error .malformed)
  | some rawToken => do
      match ← await (.getAccessToken (sec.hashCredential rawToken)) with
      | none => pure (.error .malformed)
      | some record =>
          let now ← await .now
          if record.expiresAt ≤ now then pure (.error .expired)
          else
            let currentGeneration ← await (.getTokenGen record.workerId)
            if currentGeneration ≠ none ∧ currentGeneration ≠ some record.generation then
              pure (.error .superseded)
            else
              match ← await (.getWorker record.workerId) with
              | none => pure (.error .revoked)
              | some worker =>
                  if worker.revoked then pure (.error .revoked) else pure (.ok record.workerId)

/-- `_authenticate_ws_token` -/
def authenticateWsToken (sec : SecurityConfig) (rawToken : String) :
    WorkerHandler (Option Uuid) := do
  match ← await (.getAccessToken (sec.hashCredential rawToken)) with
  | none => pure none
  | some record =>
      let now ← await .now
      if record.expiresAt ≤ now then pure none
      else
        let workerUuid := record.workerId
        let currentGeneration ← await (.getTokenGen workerUuid)
        if currentGeneration ≠ none ∧ currentGeneration ≠ some record.generation then pure none
        else
          match ← await (.getWorker workerUuid) with
          | none => pure none
          | some worker => if worker.revoked then pure none else pure (some workerUuid)

/-- How `revoke_worker` may turn out. -/
inductive RevokeReply where
  | invalidAdminCredential
  | notFound
  | revoked
  deriving DecidableEq, Repr

/-- `revoke_worker` -/
def revokeWorker (sec : SecurityConfig) (workerId adminSecret : String) :
    WorkerHandler RevokeReply :=
  if adminSecret ≠ sec.adminSecret then pure .invalidAdminCredential
  else
    match Uuid.parse workerId with
    | none => pure .notFound
    | some workerUuid => do
        match ← await (.getWorker workerUuid) with
        | none => pure .notFound
        | some worker =>
            await (.commitWorker workerUuid worker
              { worker with revoked := true, status := .quarantined })
            pure .revoked

/-- The call sites of `_transition_status`, by the trigger they log. -/
inductive Trigger where
  | wsAuthenticated
  | wsSessionEstablished
  | heartbeatReceived
  | wsDisconnected
  | heartbeatMissedOfflineThreshold
  | heartbeatMissedSuspectThreshold
  deriving DecidableEq, Repr

/-- The status a call site asks for. -/
def Trigger.newStatus : Trigger → WorkerStatus
  | .wsAuthenticated => .connecting
  | .wsSessionEstablished => .online
  | .heartbeatReceived => .online
  | .wsDisconnected => .offline
  | .heartbeatMissedOfflineThreshold => .offline
  | .heartbeatMissedSuspectThreshold => .suspect

/-- `_transition_status` -/
def transitionStatus (workerUuid : Uuid) (newStatus : WorkerStatus) : WorkerHandler Unit := do
  match ← await (.getWorker workerUuid) with
  | none => pure ()
  | some worker =>
      if worker.status = newStatus then pure ()
      else if worker.status = .quarantined then pure ()
      else await (.commitWorker workerUuid worker { worker with status := newStatus })

/-! ## The requests -/

/-- The requests made of the stores. -/
inductive WorkerRequest where
  /-- The end of a first registration. -/
  | register (rawCredential : String)
  | refresh (workerId workerCredential : String)
  | verify (authorization : String)
  | authenticateWs (rawToken : String)
  | revoke (workerId adminSecret : String)
  | transition (workerUuid : Uuid) (trigger : Trigger)
  /-- Redis drops a token record. -/
  | expire (hash : String)

/-- What a request returns. -/
inductive WorkerOutcome where
  | registered (id : Uuid)
  | refreshed (reply : Except RefreshRejection (String × Int))
  | verified (reply : Except TokenRejection Uuid)
  | authenticated (worker : Option Uuid)
  | revoked (reply : RevokeReply)
  | transitioned
  | expired

def WorkerRequest.handler (sec : SecurityConfig) : WorkerRequest → WorkerHandler WorkerOutcome
  | .register rawCredential => .registered <$> await (.addWorker (sec.hashCredential rawCredential))
  | .refresh workerId workerCredential => .refreshed <$> refreshToken sec workerId workerCredential
  | .verify authorization => .verified <$> verifyToken sec authorization
  | .authenticateWs rawToken => .authenticated <$> authenticateWsToken sec rawToken
  | .revoke workerId adminSecret => .revoked <$> revokeWorker sec workerId adminSecret
  | .transition workerUuid trigger => (fun _ => .transitioned) <$> transitionStatus workerUuid
      trigger.newStatus
  | .expire hash => (fun _ => .expired) <$> await (.expireAccessToken hash)

/-- The identity service, from empty stores on. -/
def identities (sec : SecurityConfig) :
    System (Pool workerCommands WorkerStore WorkerRequest WorkerOutcome)
      (PoolEvent workerCommands WorkerRequest) :=
  Pool.system (workerStore sec) (WorkerRequest.handler sec) (· = {})

/-! ## A small deployment -/

/-- The reply the stores give, with the key, the token and the time to use where
they leave it open. -/
def WorkerStore.answer (fresh : Uuid) (rawToken : String) (time : Seconds) (s : WorkerStore) :
    (c : WorkerCmd) → c.Reply
  | .getWorker id => s.workers id
  | .commitWorker .. => ()
  | .addWorker _ => fresh
  | .incrTokenGen id => (s.tokenGen id).getD 0 + 1
  | .getTokenGen id => s.tokenGen id
  | .setAccessToken .. => (rawToken, time)
  | .getAccessToken hash => s.accessTokens hash
  | .expireAccessToken _ => ()
  | .now => time

namespace Demo

def security : SecurityConfig where
  hashCredential raw := "hmac:" ++ raw
  adminSecret := "admin"

/-- The identity service before its first request. -/
def noRequests : Pool workerCommands WorkerStore WorkerRequest WorkerOutcome := ⟨{}, fun _ => none⟩

/-- A request is answered, at an hour that does not matter. -/
def served (i : ℕ) (fresh : Uuid) : Pool.Move workerCommands WorkerStore WorkerRequest :=
  .answer i (WorkerStore.answer fresh "token" 0)

end Demo

end TaskFleet.Model
