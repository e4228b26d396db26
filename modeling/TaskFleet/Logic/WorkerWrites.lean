import TaskFleet.Model.Workers

/-!
# What leads a request to write

A handler commits a worker row, takes a token generation or stores a token only
right after the exchange that made it decide so.
-/

namespace TaskFleet.Model

open Py Handler

abbrev WorkerPool := Pool workerCommands WorkerStore WorkerRequest WorkerOutcome

abbrev WorkerEvent := PoolEvent workerCommands WorkerRequest

/-- What a commit may change, seen from the row it loaded. -/
inductive WorkerChange (loaded : WorkerRow) : WorkerRow → Prop
  | transition (newStatus : WorkerStatus) (hne : loaded.status ≠ newStatus)
      (hloaded : loaded.status ≠ .quarantined) (hnew : newStatus ≠ .quarantined) :
      WorkerChange loaded { loaded with status := newStatus }
  | revoke : WorkerChange loaded { loaded with revoked := true, status := .quarantined }

/-- The commands a handler decides on. -/
def WorkerCmd.write? : WorkerCmd → Option WorkerCmd
  | .commitWorker id loaded wanted => some (.commitWorker id loaded wanted)
  | .incrTokenGen id => some (.incrTokenGen id)
  | .setAccessToken id generation => some (.setAccessToken id generation)
  | _ => none

/-- The write a handler has decided on and is about to make. -/
def pendingWrite {α : Type} : WorkerHandler α → Option WorkerCmd
  | .done _ => none
  | .send c _ => c.write?

@[simp] theorem pendingWrite_done {α : Type} (a : α) :
    pendingWrite (.done a : WorkerHandler α) = none := rfl

@[simp] theorem pendingWrite_send {α : Type} (c : WorkerCmd) (next : c.Reply → WorkerHandler α) :
    pendingWrite (.send c next : WorkerHandler α) = c.write? := rfl

/-- The exchange after which a handler makes a write. -/
def LeadsTo : (c : WorkerCmd) → c.Reply → WorkerCmd → Prop
  | .getWorker id, row, .commitWorker id' loaded wanted =>
      id = id' ∧ row = some loaded ∧ WorkerChange loaded wanted
  | .getWorker id, row, .incrTokenGen id' => id = id' ∧ ∃ worker, row = some worker ∧
      worker.revoked = false
  | .incrTokenGen id, generation, .setAccessToken id' generation' => id = id' ∧
      generation = generation'
  | _, _, _ => False

section

variable {β : Type} (sec : SecurityConfig) (reject : TokenRejection → β) (accept : Uuid → β)

/-- The last part of a token check. -/
def checkRow (record : TokenRecord) : WorkerHandler β :=
  .send (.getWorker record.workerId) fun worker =>
    match worker with
    | none => .done (reject .revoked)
    | some worker => if worker.revoked then .done (reject .revoked) else .done
        (accept record.workerId)

/-- A token check from the counter on. -/
def checkGeneration (record : TokenRecord) : WorkerHandler β :=
  .send (.getTokenGen record.workerId) fun generation =>
    if generation ≠ none ∧ generation ≠ some record.generation then .done (reject .superseded)
    else checkRow reject accept record

/-- A token check from the clock on. -/
def checkExpiry (record : TokenRecord) : WorkerHandler β :=
  .send .now fun now =>
    if record.expiresAt ≤ now then .done (reject .expired) else checkGeneration reject accept record

/-- The course the two token checks share, with the results they make of it. -/
def checkToken (rawToken : String) : WorkerHandler β :=
  .send (.getAccessToken (sec.hashCredential rawToken)) fun record =>
    match record with
    | none => .done (reject .malformed)
    | some record => checkExpiry reject accept record

end

variable {sec : SecurityConfig} {p t : WorkerPool} {e : WorkerEvent} {i : ℕ} {q : WorkerRequest}
  {h : WorkerHandler WorkerOutcome} {id : Uuid}

theorem Trigger.newStatus_ne (trigger : Trigger) : trigger.newStatus ≠ .quarantined := by
  cases trigger <;> decide

theorem checkToken_bind {β γ : Type} (rawToken : String) (reject : TokenRejection → β)
    (accept : Uuid → β)
    (g : β → γ) :
    ((checkToken sec reject accept rawToken).bind fun b => .done (g b)) =
      checkToken sec (fun r => g (reject r)) (fun id => g (accept id)) rawToken := by
  refine congrArg (send _) (funext fun record => ?_)
  cases record with
  | none => rfl
  | some record =>
      refine congrArg (send _) (funext fun now => ?_)
      dsimp only
      split
      · rfl
      · refine congrArg (send _) (funext fun generation => ?_)
        dsimp only
        split
        · rfl
        · refine congrArg (send _) (funext fun worker => ?_)
          cases worker with
          | none => rfl
          | some worker => cases hrevoked : worker.revoked <;> simp [hrevoked]

/-- `verify_token` takes this course with the token of a well-formed header. -/
theorem verifyToken_eq {authorization rawToken : String}
    (h : bearerToken authorization = some rawToken) :
    verifyToken sec authorization = checkToken sec .error .ok rawToken := by
  simp only [verifyToken, h]
  rfl

/-- So does `_authenticate_ws_token`. -/
theorem authenticateWsToken_eq (rawToken : String) :
    authenticateWsToken sec rawToken = checkToken sec (fun _ => none) some rawToken := by
  refine congrArg (send _) (funext fun record => ?_)
  cases record with
  | none => rfl
  | some record =>
      refine congrArg (send _) (funext fun now => ?_)
      dsimp only [bind_done]
      split
      · rfl
      · refine congrArg (send _) (funext fun generation => ?_)
        dsimp only [bind_done]
        split
        · rfl
        · refine congrArg (send _) (funext fun worker => ?_)
          cases worker <;> rfl

theorem handler_verify {authorization rawToken : String}
    (h : bearerToken authorization = some rawToken) :
    (WorkerRequest.verify authorization).handler sec =
      checkToken sec (fun r => .verified (.error r)) (fun id => .verified (.ok id)) rawToken := by
  rw [WorkerRequest.handler, map_eq_bind, verifyToken_eq h, checkToken_bind]

theorem handler_authenticateWs (rawToken : String) :
    (WorkerRequest.authenticateWs rawToken).handler sec =
      checkToken sec (fun _ => .authenticated none)
        (fun id => .authenticated (some id)) rawToken := by
  rw [WorkerRequest.handler, map_eq_bind, authenticateWsToken_eq, checkToken_bind]

/-- No request begins with such a write. -/
theorem pendingWrite_handler (q : WorkerRequest) : pendingWrite (q.handler sec) = none := by
  cases q with
  | register raw => rfl
  | expire hash => rfl
  | authenticateWs raw => rfl
  | transition id trigger => rfl
  | refresh workerId credential =>
      simp only [WorkerRequest.handler, refreshToken]
      split <;> rfl
  | verify authorization =>
      simp only [WorkerRequest.handler, verifyToken]
      split <;> rfl
  | revoke workerId secret =>
      simp only [WorkerRequest.handler, revokeWorker]
      split
      · rfl
      · split <;> rfl

/-- A check writes nothing. -/
theorem checkToken_leadsTo {β : Type} (rawToken : String) (reject : TokenRejection → β)
    (accept : Uuid → β) :
    (checkToken sec reject accept rawToken).Always fun c r h =>
      ∀ w, pendingWrite h = some w → LeadsTo c r w := by
  rw [checkToken, always_send]
  rintro (_ | record)
  · simp
  · refine ⟨by simp [checkExpiry, WorkerCmd.write?], fun now => ?_⟩
    dsimp only
    split
    · simp
    · refine ⟨by simp [checkGeneration, WorkerCmd.write?], fun generation => ?_⟩
      dsimp only
      split
      · simp
      · refine ⟨by simp [checkRow, WorkerCmd.write?], ?_⟩
        rintro (_ | worker)
        · simp
        · cases hrevoked : worker.revoked <;> simp [hrevoked]

/-- **Every handler** writes only what the exchange before leads to. -/
theorem always_leadsTo (q : WorkerRequest) :
    (q.handler sec).Always fun c r h => ∀ w, pendingWrite h = some w → LeadsTo c r w := by
  cases q with
  | register raw => simp [WorkerRequest.handler]
  | expire hash => simp [WorkerRequest.handler]
  | refresh workerId credential =>
      cases hid : Uuid.parse workerId with
      | none => simp [WorkerRequest.handler, refreshToken, hid]
      | some id =>
          simp only [WorkerRequest.handler, refreshToken, hid, await, call,
            bind_eq_bind, map_eq_bind,
            bind_send, always_send]
          rintro (_ | worker)
          · simp
          · cases hrevoked : worker.revoked with
            | true => simp [hrevoked]
            | false =>
                cases hcredential : worker.hasCredential sec credential with
                | false => simp [hcredential]
                | true => simp [hrevoked, hcredential, WorkerCmd.write?, LeadsTo]
  | verify authorization =>
      cases htoken : bearerToken authorization with
      | none => simp [WorkerRequest.handler, verifyToken, htoken]
      | some raw =>
          rw [handler_verify htoken]
          exact checkToken_leadsTo _ _ _
  | authenticateWs raw =>
      rw [handler_authenticateWs]
      exact checkToken_leadsTo _ _ _
  | revoke workerId secret =>
      by_cases hsecret : secret ≠ sec.adminSecret
      · simp [WorkerRequest.handler, revokeWorker, hsecret]
      · cases hid : Uuid.parse workerId with
        | none => simp [WorkerRequest.handler, revokeWorker, hsecret, hid]
        | some id =>
            simp only [WorkerRequest.handler, revokeWorker, if_neg hsecret, hid, await, call,
              bind_eq_bind, map_eq_bind, bind_send, always_send]
            rintro (_ | worker)
            · simp
            · simp [WorkerCmd.write?, LeadsTo, WorkerChange.revoke]
  | transition id trigger =>
      simp only [WorkerRequest.handler, transitionStatus, await, call, bind_eq_bind, map_eq_bind,
        bind_send, always_send]
      rintro (_ | worker)
      · simp
      · by_cases hsame : worker.status = trigger.newStatus
        · simp [hsame]
        · by_cases hquarantined : worker.status = .quarantined
          · simp [hquarantined]
          · have hchange : WorkerChange worker { worker with status := trigger.newStatus } :=
              .transition _ hsame hquarantined trigger.newStatus_ne
            simp [hsame, hquarantined, WorkerCmd.write?, LeadsTo, hchange]

/-! ## Steps of the pool -/

/-- A write somebody is about to make was pending before, or the exchange just
made leads to it. -/
theorem pendingWrite_step (hreach : (identities sec).Reachable p) (hs : (identities sec).step p e t)
    (htask : t.tasks i = some (q, h)) {w : WorkerCmd} (hw : pendingWrite h = some w) :
    (p.tasks i = some (q, h) ∧ ∀ c r, e ≠ .reply i c r) ∨
      ∃ c r, e = .reply i c r ∧ LeadsTo c r w ∧ p.store.replies c r := by
  rcases Pool.Step.task hs htask with hold | ⟨-, -, rfl⟩ | ⟨c, next, r, rfl, hsend, rfl, hreply⟩
  · exact .inl hold
  · rw [pendingWrite_handler] at hw
    cases hw
  · have halways := Pool.always always_leadsTo hreach i q _ hsend
    exact .inr ⟨c, r, rfl, (halways r).1 w hw, hreply⟩

/-- A request answered to a write had it pending. -/
theorem pending_of_reply (hs : (identities sec).step p e t) {c : WorkerCmd} {r : c.Reply}
    (he : e = .reply i c r) : ∃ q next, p.tasks i = some (q, .send c next) ∧
    p.store.replies c r := by
  subst he
  cases hs with
  | reply htask hreply => exact ⟨_, _, htask, hreply⟩

/-- **What becomes of a worker row**: nothing, it is new, or a request flushes
what it loaded over it. -/
theorem row_step (hs : (identities sec).step p e t) {row : WorkerRow}
    (hrow : t.store.workers id = some row) :
    p.store.workers id = some row ∨
      (p.store.workers id = none ∧ row.status = .registered ∧ row.revoked = false) ∨
      ∃ i loaded wanted old, e = .reply i (.commitWorker id loaded wanted) () ∧
        p.store.workers id = some old ∧ row = loaded.flush wanted old := by
  cases hs with
  | start => exact .inl hrow
  | @reply j q c next r htask hreply =>
      cases c with
      | commitWorker id' loaded wanted =>
          by_cases hid : id = id'
          · subst hid
            cases hold : p.store.workers id with
            | none => simp [workerStore, WorkerStore.after, hold] at hrow
            | some old =>
                simp only [workerStore, WorkerStore.after, Function.update_self, hold,
                  Option.map_some,
                  Option.some.injEq] at hrow
                exact .inr (.inr ⟨j, loaded, wanted, old, rfl, rfl, hrow.symm⟩)
          · simp only [workerStore, WorkerStore.after, Function.update_of_ne hid] at hrow
            exact .inl hrow
      | addWorker hash =>
          by_cases hid : id = r
          · subst hid
            simp only [workerStore, WorkerStore.after, Function.update_self,
              Option.some.injEq] at hrow
            subst hrow
            exact .inr (.inl ⟨hreply, rfl, rfl⟩)
          · simp only [workerStore, WorkerStore.after, Function.update_of_ne hid] at hrow
            exact .inl hrow
      | _ => exact .inl hrow

/-- A worker row stays, as it was or as a commit leaves it. -/
theorem row_kept (hs : (identities sec).step p e t) {row : WorkerRow}
    (hrow : p.store.workers id = some row) :
    t.store.workers id = some row ∨
      ∃ i loaded wanted, e = .reply i (.commitWorker id loaded wanted) () ∧
        t.store.workers id = some (loaded.flush wanted row) := by
  cases hs with
  | start => exact .inl hrow
  | @reply j q c next r htask hreply =>
      cases c with
      | commitWorker id' loaded wanted =>
          by_cases hid : id = id'
          · subst hid
            exact .inr ⟨j, loaded, wanted, rfl, by simp [workerStore, WorkerStore.after, hrow]⟩
          · exact .inl (by simp [workerStore, WorkerStore.after, hid, hrow])
      | addWorker hash =>
          have hid : id ≠ r := by
            rintro rfl
            have hnone : p.store.workers id = none := hreply
            rw [hnone] at hrow
            cases hrow
          exact .inl (by simp [workerStore, WorkerStore.after, hid, hrow])
      | _ => exact .inl hrow

/-- What a commit leaves of the row. -/
theorem row_committed (hs : (identities sec).step p e t) {loaded wanted row : WorkerRow}
    (he : e = .reply i (.commitWorker id loaded wanted) ()) (hrow : p.store.workers id = some row) :
    t.store.workers id = some (loaded.flush wanted row) := by
  subst he
  cases hs with
  | reply htask hreply => simp [workerStore, WorkerStore.after, hrow]

end TaskFleet.Model
