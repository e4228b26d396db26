import TaskFleet.Model.Presence

/-!
# The requests of `Presence`, command by command

What each request sends, and with what it goes on.
-/

namespace TaskFleet.Model

open Py Handler

/-- The worker whose metrics a request merges into. -/
def PresenceRequest.mergesFor : PresenceRequest → Option Uuid
  | .established id | .heartbeat id _ | .pong id _ => some id
  | _ => none

/-- The commands by which a request writes to Redis. -/
def PresenceRequest.MaySend (q : PresenceRequest) : PresenceCmd → Prop
  | .deleteClaim _ => ∃ body, q = .release body
  | .setMetrics id _ _ => q.mergesFor = some id
  | _ => True

section

variable {cfg : PresenceSettings} {p t : PresencePool} {e : PresenceEvent}
  {es : List PresenceEvent} {id : Uuid}

/-- `register_worker`, command by command. -/
theorem registerWorker_eq (body : RegisterRequest) (rawCredential : String) :
    registerWorker cfg body rawCredential = .send .rateLimited fun limited =>
      if limited then .done .rateLimited
      else if body.workerId.getD "" ≠ "" ∧ body.workerCredential.getD "" ≠ "" then
        reaffirmWorker cfg (body.workerId.getD "") (body.workerCredential.getD "")
      else enrollWorker cfg (body.enrollmentSecret.getD "") rawCredential := by
  refine congrArg (send _) (funext fun limited => ?_)
  cases limited <;> rfl

theorem reaffirmWorker_eq {workerId workerCredential : String} (h : Uuid.parse workerId = some id) :
    reaffirmWorker cfg workerId workerCredential = .send (.worker (.getWorker id)) fun worker =>
      match worker with
      | none => .done .invalidIdentity
      | some worker =>
          if worker.revoked || !worker.hasCredential cfg.toSecurityConfig workerCredential then
            .done .invalidIdentity
          else .send (.setClaim id true) fun claimSet =>
            if claimSet.1 then .send (.worker (.commitWorker id worker worker)) fun _ =>
              .done (.reaffirmed id)
            else .done .alreadyActive := by
  simp only [reaffirmWorker, h]
  refine congrArg (send _) (funext fun worker => ?_)
  cases worker with
  | none => rfl
  | some worker =>
      rw [bind_done]
      dsimp only
      split
      · rfl
      · refine congrArg (send _) (funext fun claimSet => ?_)
        obtain ⟨claimSet, _⟩ := claimSet
        cases claimSet <;> rfl

/-- `release_worker`, command by command. -/
theorem releaseWorker_eq {body : ReleaseRequest} (h : Uuid.parse body.workerId = some id) :
    releaseWorker cfg body = .send (.worker (.getWorker id)) fun worker =>
      match worker with
      | none => .done false
      | some worker =>
          if worker.hasCredential cfg.toSecurityConfig body.workerCredential then
            .send (.deleteClaim id) fun _ => .done true
          else .done false := by
  simp only [releaseWorker, h]
  refine congrArg (send _) (funext fun worker => ?_)
  cases worker <;> rfl

theorem transition_eq (newStatus : WorkerStatus) :
    ofWorkers (transitionStatus id newStatus) = .send (.worker (.getWorker id)) fun worker =>
      match worker with
      | none => .done ()
      | some worker =>
          if worker.status = newStatus then .done ()
          else if worker.status = .quarantined then .done ()
          else .send (.worker (.commitWorker id worker { worker with status := newStatus }))
            .done := by
  refine congrArg (send _) (funext fun worker => ?_)
  cases worker with
  | none => rfl
  | some worker =>
      simp only [bind_done]
      split
      · rfl
      · split
        · rfl
        · rfl

/-- `_merge_metrics`, command by command. -/
theorem mergeMetrics_eq (heartbeat : Option Seconds) (fields : List (String × Json)) :
    mergeMetrics id heartbeat fields = .send (.getMetrics id) fun existing =>
      .send (.setMetrics id ((existing.getD {}).update heartbeat fields) heartbeat) fun _ =>
        .done () := rfl

/-- The part of `ws_connect` that establishes a session. -/
theorem sessionEstablished_eq : sessionEstablished id =
    (ofWorkers (transitionStatus id .online)).bind fun _ => .send (.worker .now) fun now =>
      mergeMetrics id (some now) [("sequence", .int 0)] := rfl

/-- Its part for a `heartbeat`. -/
theorem heartbeatReceived_eq (payload : List (String × Json)) : heartbeatReceived id payload =
    .send (.worker .now) fun now => (mergeMetrics id (some now) (heartbeatFields payload)).bind
      fun _ => ofWorkers (transitionStatus id .online) := rfl

/-- `_sweep_heartbeats`, command by command. -/
theorem sweepHeartbeats_eq : sweepHeartbeats cfg = .send (.worker .now) fun now =>
    .send .candidates fun rows => sweepCandidates cfg now rows := rfl

theorem sweepCandidates_cons (now : Seconds) (row : Uuid × WorkerStatus)
    (rows : List (Uuid × WorkerStatus)) :
    sweepCandidates cfg now (row :: rows) = .send (.getMetrics row.1) fun metrics =>
      match sweepVerdict cfg now row.2 metrics with
      | none => sweepCandidates cfg now rows
      | some trigger => (ofWorkers (transitionStatus row.1 trigger.newStatus)).bind fun _ =>
          sweepCandidates cfg now rows := by
  refine congrArg (send _) (funext fun metrics => ?_)
  rw [bind_done]
  cases sweepVerdict cfg now row.2 metrics <;> rfl

/-! ## What a request sends -/

section Sends

variable {q : PresenceRequest}

theorem sends_ofWorkers {α : Type} (h : WorkerHandler α) : (ofWorkers h).Sends q.MaySend :=
  Sends.lift (fun _ => trivial) h

theorem sends_registerWorker (body : RegisterRequest) (rawCredential : String) :
    (registerWorker cfg body rawCredential).Sends q.MaySend := by
  rw [registerWorker_eq]
  refine ⟨trivial, fun limited => ?_⟩
  dsimp only
  split
  · trivial
  · split
    · cases hid : Uuid.parse (body.workerId.getD "") with
      | none =>
          simp only [reaffirmWorker, hid]
          trivial
      | some id =>
          rw [reaffirmWorker_eq hid]
          refine ⟨trivial, fun worker => ?_⟩
          cases worker with
          | none => trivial
          | some worker =>
              dsimp only
              split
              · trivial
              · refine ⟨trivial, fun claimSet => ?_⟩
                dsimp only
                split
                · exact ⟨trivial, fun _ => trivial⟩
                · trivial
    · unfold enrollWorker
      split
      · trivial
      · split
        · trivial
        · trivial
        · exact ⟨trivial, fun _ => ⟨trivial, fun _ => trivial⟩⟩

theorem sends_releaseWorker (body : ReleaseRequest) :
    (releaseWorker cfg body).Sends (PresenceRequest.release body).MaySend := by
  cases hid : Uuid.parse body.workerId with
  | none =>
      simp only [releaseWorker, hid]
      trivial
  | some id =>
      rw [releaseWorker_eq hid]
      refine ⟨trivial, fun worker => ?_⟩
      cases worker with
      | none => trivial
      | some worker =>
          dsimp only
          split
          · exact ⟨⟨body, rfl⟩, fun _ => trivial⟩
          · trivial

theorem sends_mergeMetrics {heartbeat : Option Seconds} {fields : List (String × Json)}
    (hq : q.mergesFor = some id) : (mergeMetrics id heartbeat fields).Sends q.MaySend :=
  ⟨trivial, fun _ => ⟨hq, fun _ => trivial⟩⟩

theorem sends_sweepCandidates (now : Seconds) (rows : List (Uuid × WorkerStatus)) :
    (sweepCandidates cfg now rows).Sends q.MaySend := by
  induction rows with
  | nil => trivial
  | cons row rows ih =>
      rw [sweepCandidates_cons]
      refine ⟨trivial, fun metrics => ?_⟩
      dsimp only
      split
      · exact ih
      · exact (sends_ofWorkers _).bind fun _ => ih

end Sends

/-- Only a release deletes a claim, and only a merge writes metrics, of its worker. -/
theorem sends_request (q : PresenceRequest) : (q.handler cfg).Sends q.MaySend := by
  cases q with
  | release body => exact (sends_releaseWorker body).bind fun _ => trivial
  | register body rawCredential =>
      exact (sends_registerWorker body rawCredential).bind fun _ => trivial
  | revoke workerId adminSecret => exact (sends_ofWorkers _).bind fun _ => trivial
  | transition workerUuid trigger => exact (sends_ofWorkers _).bind fun _ => trivial
  | established workerUuid =>
      refine Sends.bind (h := sessionEstablished workerUuid) ?_ fun _ => trivial
      rw [sessionEstablished_eq]
      exact (sends_ofWorkers _).bind fun _ => ⟨trivial, fun _ => sends_mergeMetrics rfl⟩
  | heartbeat workerUuid payload =>
      refine Sends.bind (h := heartbeatReceived workerUuid payload) ?_ fun _ => trivial
      rw [heartbeatReceived_eq]
      exact ⟨trivial, fun _ => (sends_mergeMetrics rfl).bind fun _ => sends_ofWorkers _⟩
  | pong workerUuid latencyMs => exact (sends_mergeMetrics rfl).bind fun _ => trivial
  | sweep =>
      refine Sends.bind (h := sweepHeartbeats cfg) ?_ fun _ => trivial
      rw [sweepHeartbeats_eq]
      exact ⟨trivial, fun now => ⟨trivial, fun rows => sends_sweepCandidates now rows⟩⟩
  | elapse seconds => exact ⟨trivial, fun _ => trivial⟩

/-! ## The clock -/

theorem clock_step (hs : (presence cfg).step p e t) : p.store.clock ≤ t.store.clock := by
  cases hs with
  | start => exact le_rfl
  | @reply j q c next r htask hreply =>
      cases c with
      | elapse seconds => exact le_add_of_nonneg_right hreply
      | setClaim claimed nx =>
          obtain ⟨granted, now⟩ := r
          cases granted <;> exact le_rfl
      | _ => exact le_rfl

theorem clock_trace (h : (presence cfg).Trace p es t) : p.store.clock ≤ t.store.clock := by
  induction h with
  | nil => exact le_rfl
  | snoc _ hs ih => exact ih.trans (clock_step hs)

end

end TaskFleet.Model
