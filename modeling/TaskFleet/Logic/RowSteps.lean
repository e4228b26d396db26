import TaskFleet.Lib.FencedLease
import TaskFleet.Model.QueueRun

/-!
# What one transaction does to one row

`RowStep` lists every way a transaction can change a row of `tasks`, with the
guard under which it does, and `step_rows` says there is no other: each row of
the table before a step lives on by one `RowStep`, and any further row after
it is the one just enqueued. Every invariant of the queue is proved from this
list, never from the operations again.

`Event.label` reads off an event what it means to one task as a fenced lease:
a claim grants it, a reclaim revokes it, a completion accepts it. `RowStep`
records the label beside the change, so the two cannot come apart.
-/

namespace TaskFleet.Model

open Py Sql

/-- What a reclaim means to the task it took back. -/
def ReclaimedTask.label (r : ReclaimedTask) : Lease.Event Uuid :=
  match r.previousWorkerId with
  | none => .silent
  | some w =>
      if r.status = .failed then .expire w (r.attemptCount - 1) else .revoke w (r.attemptCount - 1)

/-- The rows a `dequeue` handed out. -/
def Reply.claims : Reply → List ClaimedTask
  | .claimed rows => rows
  | _ => []

/-- The rows a sweep took back. -/
def Reply.reclaims : Reply → List ReclaimedTask
  | .reclaimed rows => rows
  | _ => []

/-- Whether the call reported that it wrote. -/
def Reply.done : Reply → Bool
  | .enqueued _ => true
  | .moved outcome => outcome = .transitioned
  | .cancelled outcome _ => outcome = .transitioned
  | _ => false

/-- What an event means to the task `id`. -/
def Event.label (id : Uuid) (e : Event) : Lease.Event Uuid :=
  match e.op with
  | .enqueue i _ => if e.reply.done ∧ i = id then .create else .silent
  | .dequeue w _ _ _ _ =>
      match e.reply.claims.find? fun r => r.id = id with
      | some r => .grant w r.attemptCount
      | none => .silent
  | .reclaim _ _ _ =>
      match e.reply.reclaims.find? fun r => r.id = id with
      | some r => r.label
      | none => .silent
  | .complete envelope w _ =>
      if e.reply.done ∧ Uuid.parse envelope.taskId = some id then .accept w envelope.attemptNumber
      else .silent
  | .fail taskId w _ _ =>
      if e.reply.done ∧ Uuid.parse taskId = some id then .abandon w else .silent
  | .cancel taskId => if e.reply.done ∧ Uuid.parse taskId = some id then .withdraw else .silent
  | _ => .silent

/-- The call renews what `w` holds of the task `id`. -/
def Op.Renews (op : Op) (w id : Uuid) : Prop :=
  op = .renewWorkerLeases w ∨ ∃ taskId, op = .renewLease taskId w ∧ Uuid.parse taskId = some id

/-- The ways one transaction changes one row. -/
inductive RowStep (cfg : Config) (db : Db) (e : Event) : Task → Task → Prop
  | keep (t : Task) (hlabel : e.label t.id = .silent) : RowStep cfg db e t t
  | claim (t : Task) {w : Uuid} {limit maxBatch : Int} {taskTypes : Option (List String)}
      {skip : List Uuid} (hop : e.op = .dequeue w limit maxBatch taskTypes skip)
      (hwhere : (claimable cfg e.now w taskTypes t).holds = true)
      (hlabel : e.label t.id = .grant w t.attemptCount) :
      RowStep cfg db e t (t.claim cfg db.policies e.now w)
  | start (t : Task) {w : Uuid} {taskId : String} (hop : e.op = .start taskId w)
      (hreply : e.reply = .moved .transitioned)
      (hid : Uuid.parse taskId = some t.id) (howner : t.assignedWorkerId = some w)
      (hstatus : t.status = .assigned) (hlabel : e.label t.id = .silent) :
      RowStep cfg db e t (t.mark cfg db.policies e.now .running)
  | fail (t : Task) {w : Uuid} {taskId errorType correlationId : String}
      (hop : e.op = .fail taskId w errorType correlationId)
      (hreply : e.reply = .moved .transitioned)
      (hid : Uuid.parse taskId = some t.id) (howner : t.assignedWorkerId = some w)
      (hlive : t.status.isLive = true) (hlabel : e.label t.id = .abandon w) :
      RowStep cfg db e t (t.mark cfg db.policies e.now .failed)
  | complete (t : Task) {w resultId : Uuid} {envelope : Envelope}
      (hop : e.op = .complete envelope w resultId) (hreply : e.reply = .moved .transitioned)
      (hid : Uuid.parse envelope.taskId = some t.id) (howner : t.assignedWorkerId = some w)
      (hlive : t.status.isLive = true) (hattempt : envelope.attemptNumber = t.attemptCount)
      (hlabel : e.label t.id = .accept w t.attemptCount) :
      RowStep cfg db e t (t.complete e.now resultId)
  | renew (t : Task) {w : Uuid} (hwhere : (heldLive w t).holds = true)
      (hlabel : e.label t.id = .silent) (hop : e.op.Renews w t.id) :
      RowStep cfg db e t (t.renew cfg e.now)
  | shorten (t : Task) {w : Uuid} {graceSeconds : Int} (hwhere : (heldLive w t).holds = true)
      (hlabel : e.label t.id = .silent) (hop : e.op = .shortenWorkerLeases w graceSeconds) :
      RowStep cfg db e t (t.shorten e.now graceSeconds)
  | reclaim (t : Task) {batch : Int} {skip : List Uuid} {draw : Uuid → ℚ}
      (hop : e.op = .reclaim batch skip draw) (hwhere : (expired e.now t).holds = true)
      (hlabel : e.label t.id = (t.reclaimed cfg db.policies e.now draw).label) :
      RowStep cfg db e t (t.reclaim cfg db.policies e.now draw)
  | cancel (t : Task) {taskId : String} (hop : e.op = .cancel taskId)
      (hid : Uuid.parse taskId = some t.id) (hstatus : t.status = .queued)
      (hlabel : e.label t.id = .withdraw) : RowStep cfg db e t (t.cancel e.now)
  | purge (t : Task) {retentionDays : Int} (hop : e.op = .purge retentionDays)
      (hwhere : pointsInto (pastRetention e.now retentionDays) db.results t = true)
      (hlabel : e.label t.id = .silent) : RowStep cfg db e t t.clearResult

/-- The row an `enqueue` adds. -/
def Enqueued (e : Event) (t : Task) : Prop :=
  ∃ req taskType parameters, e.op = .enqueue t.id req ∧ e.reply = .enqueued t.id ∧
    t = queuedRow e.now t.id taskType parameters req.payload req.priority req.correlationId

/-- The tasks table after a step, row by row. -/
abbrev RowsFollow (cfg : Config) (db : Db) (e : Event) (ts' : Tasks) : Prop :=
  Table.Follows (RowStep cfg db e) (Enqueued e) db.tasks ts'

section

variable {cfg : Config} {schemas : Schemas} {db db' : Db} {e : Event}

/-- A step that leaves the table alone and means nothing to any task. -/
theorem rowsFollow_self (h : ∀ id, e.label id = .silent) : RowsFollow cfg db e db.tasks :=
  Table.follows_self fun t _ => .keep t (h t.id)

/-- An update of the rows satisfying `p`, in a step that means nothing to any
task. -/
theorem rowsFollow_updateWhere {p : Task → Bool} {f : Task → Task} (hf : ∀ t, (f t).id = t.id)
    (hlabel : ∀ id, e.label id = .silent)
    (h : ∀ t ∈ db.tasks, p t = true → RowStep cfg db e t (f t)) :
    RowsFollow cfg db e (db.tasks.updateWhere p f hf) := by
  refine Table.follows_updateWhere hf fun t ht => ?_
  cases hp : p t with
  | true => simpa using h t ht hp
  | false => simpa using RowStep.keep t (hlabel t.id)

/-- An update of the one row with the id `i`. -/
theorem rowsFollow_updateTask {row : Task} {i : Uuid} {f : Task → Task} (hf : ∀ t, (f t).id = t.id)
    (hrow : db.tasks.get? i = some row) (hother : ∀ id, id ≠ i → e.label id = .silent)
    (h : RowStep cfg db e row (f row)) : RowsFollow cfg db e (db.updateTask i f hf).tasks := by
  obtain ⟨hmem, rfl⟩ := Table.get?_eq_some_iff.mp hrow
  refine Table.follows_updateWhere hf fun t ht => ?_
  by_cases hid : t.id = row.id
  · rw [Table.eq_of_key ht hmem hid]
    simpa using h
  · simpa [hid] using RowStep.keep t (hother t.id hid)

/-- An update of a selection of rows, found by their ids. -/
theorem rowsFollow_updateRows {rows : List Task} {f : Task → Task} (hf : ∀ t, (f t).id = t.id)
    (hsub : ∀ t ∈ rows, t ∈ db.tasks) (hin : ∀ t ∈ rows, RowStep cfg db e t (f t))
    (hout : ∀ t ∈ db.tasks, t ∉ rows → e.label t.id = .silent) :
    RowsFollow cfg db e (db.tasks.updateWhere (fun t => t.id ∈ rows.map Task.id) f hf) := by
  refine Table.follows_updateWhere hf fun t ht => ?_
  by_cases h : t ∈ rows
  · rw [if_pos (by simpa using (Table.key_mem_map_iff hsub ht).mpr h)]
    exact hin t h
  · rw [if_neg (by simpa using fun hk => h ((Table.key_mem_map_iff hsub ht).mp hk))]
    exact .keep t (hout t ht h)

theorem mem_claimedRows {now : Seconds} {w : Uuid} {limit : Int}
    {taskTypes : Option (List String)} {skip : List Uuid} {t : Task}
    (h : t ∈ claimedRows cfg db now w limit taskTypes skip) :
    t ∈ db.tasks ∧ (claimable cfg now w taskTypes t).holds = true := by
  have hmem := List.mem_of_mem_take h
  rw [List.mem_insertionSort, List.mem_filter, Bool.and_eq_true] at hmem
  exact ⟨hmem.1, hmem.2.1⟩

theorem mem_expiredRows {now : Seconds} {batch : Int} {skip : List Uuid} {t : Task}
    (h : t ∈ expiredRows db now batch skip) :
    t ∈ db.tasks ∧ (expired now t).holds = true := by
  have hmem := List.mem_of_mem_take h
  rw [List.mem_insertionSort, List.mem_filter, Bool.and_eq_true] at hmem
  exact ⟨hmem.1, hmem.2.1⟩

/-! ## One lemma per operation -/

theorem rows_enqueue {id : Uuid} {req : EnqueueRequest}
    (hfresh : db.tasks.get? id = none) (he : e.op = .enqueue id req)
    (h : enqueue schemas db e.now id req = .ok db') (hreply : e.reply = .enqueued id) :
    RowsFollow cfg db e db'.tasks := by
  unfold enqueue at h
  split at h
  · cases h
  · next taskType parameters _ =>
      cases h
      have hnone := Table.get?_eq_none_iff.mp hfresh
      refine Table.follows_insert hnone ⟨req, taskType, parameters, he, hreply, rfl⟩ fun t ht => ?_
      refine .keep t ?_
      simp only [Event.label, he]
      rw [if_neg fun heq => hnone t ht heq.2.symm]

theorem rows_dequeue {w : Uuid} {limit maxBatch : Int} {taskTypes : Option (List String)}
    {skip : List Uuid} {rows : List ClaimedTask}
    (he : e.op = .dequeue w limit maxBatch taskTypes skip)
    (h : dequeue cfg db e.now w limit maxBatch taskTypes skip = .ok (db', rows))
    (hreply : e.reply = .claimed rows) : RowsFollow cfg db e db'.tasks := by
  obtain ⟨rfl, rfl⟩ := dequeue_eq_ok h
  have hsub : ∀ t ∈ claimedRows cfg db e.now w limit taskTypes skip, t ∈ db.tasks :=
    fun t ht => (mem_claimedRows ht).1
  refine rowsFollow_updateRows Task.claim_id hsub (fun t ht => ?_) fun t ht hnot => ?_
  · refine .claim t he (mem_claimedRows ht).2 ?_
    simp only [Event.label, he, hreply, Reply.claims]
    rw [Table.find?_map_of_mem hsub Task.claim_claimed_id ht]
    rfl
  · simp only [Event.label, he, hreply, Reply.claims]
    rw [Table.find?_map_of_not_mem hsub Task.claim_claimed_id ht hnot]

theorem rows_start {taskId : String} {w : Uuid} {outcome : Outcome} (he : e.op = .start taskId w)
    (h : markStatus cfg db e.now taskId w .running = (db', outcome))
    (hreply : e.reply = .moved outcome) : RowsFollow cfg db e db'.tasks := by
  have hsilent : ∀ id, e.label id = .silent := fun id => by simp only [Event.label, he]
  unfold markStatus at h
  split at h
  · cases h
    exact rowsFollow_self hsilent
  · next i hid =>
      rcases markStatusAt_cases cfg db e.now i w .running with
        ⟨row, hrow, howner, hedge, hmark⟩ | ⟨_, _, hmark⟩
      · rw [hmark] at h
        cases h
        obtain ⟨-, rfl⟩ := Table.get?_eq_some_iff.mp hrow
        exact rowsFollow_updateTask Task.mark_id hrow (fun id _ => hsilent id)
          (.start row he hreply hid howner (running_mem_allowed.mp hedge) (hsilent row.id))
      · rw [hmark] at h
        cases h
        exact rowsFollow_self hsilent

theorem rows_fail {taskId errorType correlationId : String} {w : Uuid} {outcome : Outcome}
    (he : e.op = .fail taskId w errorType correlationId)
    (h : failTask cfg db e.now taskId w errorType correlationId = (db', outcome))
    (hreply : e.reply = .moved outcome) : RowsFollow cfg db e db'.tasks := by
  have hother : ∀ id, (outcome ≠ .transitioned ∨ Uuid.parse taskId ≠ some id) →
      e.label id = .silent := by
    intro id hid
    simp only [Event.label, he, hreply, Reply.done]
    rw [if_neg (by simpa [or_iff_not_imp_left] using hid)]
  unfold failTask at h
  cases hparse : Uuid.parse taskId with
  | none =>
      simp only [markStatus, hparse] at h
      cases h
      exact rowsFollow_self fun id => hother id (.inl (by simp))
  | some i =>
      simp only [markStatus, hparse] at h
      rcases markStatusAt_cases cfg db e.now i w .failed with
        ⟨row, hrow, howner, hedge, hmark⟩ | ⟨answer, hanswer, hmark⟩
      · rw [hmark] at h
        cases h
        rw [recordExecutionFailure_tasks]
        obtain ⟨-, rfl⟩ := Table.get?_eq_some_iff.mp hrow
        refine rowsFollow_updateTask Task.mark_id hrow (fun id hid => hother id (.inr ?_)) ?_
        · simpa [hparse] using hid.symm
        · refine .fail row he hreply hparse howner (failed_mem_allowed.mp hedge) ?_
          simp only [Event.label, he, hreply, Reply.done, hparse, decide_true, and_self, if_true]
      · rw [hmark] at h
        cases answer <;>
          first
          | exact absurd rfl hanswer
          | (cases h; exact rowsFollow_self fun id => hother id (.inl (by simp)))

theorem rows_complete {envelope : Envelope} {w resultId : Uuid} {outcome : Outcome}
    (he : e.op = .complete envelope w resultId)
    (h : completeTask db e.now envelope w resultId = (db', outcome))
    (hreply : e.reply = .moved outcome) : RowsFollow cfg db e db'.tasks := by
  have hother : ∀ id, (outcome ≠ .transitioned ∨ Uuid.parse envelope.taskId ≠ some id) →
      e.label id = .silent := by
    intro id hid
    simp only [Event.label, he, hreply, Reply.done]
    rw [if_neg (by simpa [or_iff_not_imp_left] using hid)]
  rcases completeTask_cases db e.now envelope w resultId with hnone | ⟨row, hrow, hid, hcase⟩
  · rw [hnone] at h
    cases h
    exact rowsFollow_self fun id => hother id (.inl (by simp))
  · rw [h] at hcase
    cases hcase with
    | terminal hstatus =>
        exact rowsFollow_self fun id => hother id (.inl (terminalResultOutcome_ne (by decide)))
    | fenced hstatus hstale hheld =>
        rw [recordFence_tasks]
        exact rowsFollow_self fun id => hother id (.inl (by simp))
    | notOwner hstatus hstale hheld => exact rowsFollow_self fun id => hother id (.inl (by simp))
    | illegal hstatus hlive howner hattempt =>
        exact rowsFollow_self fun id => hother id (.inl (by simp))
    | raised hlive howner hattempt hrefused =>
        exact rowsFollow_self fun id => hother id (.inl (by simp))
    | stored hlive howner hattempt htaken =>
        refine rowsFollow_updateTask Task.complete_id hrow
          (fun id hne => hother id (.inr (by simpa [hid] using hne.symm))) ?_
        refine .complete row he hreply hid howner hlive hattempt ?_
        simp only [Event.label, he, hreply, Reply.done, hid, decide_true, and_self,
          if_true, hattempt]

theorem rows_renewLease {taskId : String} {w : Uuid} {written : Bool}
    (he : e.op = .renewLease taskId w)
    (h : renewLease cfg db e.now taskId w = (db', written)) : RowsFollow cfg db e db'.tasks := by
  have hsilent : ∀ id, e.label id = .silent := fun id => by simp only [Event.label, he]
  unfold renewLease at h
  split at h
  · cases h
    exact rowsFollow_self hsilent
  · next hid =>
      cases h
      refine rowsFollow_updateWhere Task.renew_id hsilent fun t _ hp => ?_
      rw [Bool.and_eq_true, decide_eq_true_eq] at hp
      obtain ⟨rfl, hheld⟩ := hp
      exact .renew t hheld (hsilent t.id) (.inr ⟨taskId, he, hid⟩)

theorem rows_renewWorkerLeases {w : Uuid} {ids : List Uuid} (he : e.op = .renewWorkerLeases w)
    (h : renewWorkerLeases cfg db e.now w = (db', ids)) : RowsFollow cfg db e db'.tasks := by
  have hsilent : ∀ id, e.label id = .silent := fun id => by simp only [Event.label, he]
  cases h
  exact rowsFollow_updateWhere Task.renew_id hsilent fun t _ hp =>
    .renew t hp (hsilent t.id) (.inl he)

theorem rows_shortenWorkerLeases {w : Uuid} {graceSeconds : Int} {count : Nat}
    (he : e.op = .shortenWorkerLeases w graceSeconds)
    (h : shortenWorkerLeases db e.now w graceSeconds = (db', count)) :
    RowsFollow cfg db e db'.tasks := by
  have hsilent : ∀ id, e.label id = .silent := fun id => by simp only [Event.label, he]
  cases h
  exact rowsFollow_updateWhere Task.shorten_id hsilent fun t _ hp =>
    .shorten t hp (hsilent t.id) he

theorem rows_cancel {taskId : String} {outcome : Outcome} {current : Option TaskState}
    (he : e.op = .cancel taskId) (h : cancelQueuedTask db e.now taskId = (db', outcome, current))
    (hreply : e.reply = .cancelled outcome current) : RowsFollow cfg db e db'.tasks := by
  have hother : ∀ id, (outcome ≠ .transitioned ∨ Uuid.parse taskId ≠ some id) →
      e.label id = .silent := by
    intro id hid
    simp only [Event.label, he, hreply, Reply.done]
    rw [if_neg (by simpa [or_iff_not_imp_left] using hid)]
  unfold cancelQueuedTask at h
  split at h
  · cases h
    exact rowsFollow_self fun id => hother id (.inl (by simp))
  · next i hid =>
      unfold cancelQueuedTaskAt at h
      split at h
      · cases h
        exact rowsFollow_self fun id => hother id (.inl (by simp))
      · next row hrow =>
          split at h
          · cases h
            exact rowsFollow_self fun id => hother id (.inl (by simp))
          · next hstatus =>
              cases h
              obtain ⟨-, rfl⟩ := Table.get?_eq_some_iff.mp hrow
              refine rowsFollow_updateTask Task.cancel_id hrow
                (fun id hne => hother id (.inr (by simpa [hid] using hne.symm))) ?_
              refine .cancel row he hid (not_not.mp hstatus) ?_
              simp only [Event.label, he, hreply, Reply.done, hid, decide_true, and_self, if_true]

theorem rows_purge {retentionDays : Int} {count : Nat} (he : e.op = .purge retentionDays)
    (h : purgeExpiredResults db e.now retentionDays = (db', count)) :
    RowsFollow cfg db e db'.tasks := by
  have hsilent : ∀ id, e.label id = .silent := fun id => by simp only [Event.label, he]
  unfold purgeExpiredResults at h
  split at h
  · cases h
    exact rowsFollow_self hsilent
  · cases h
    exact rowsFollow_updateWhere Task.clearResult_id hsilent
      fun t _ hp => .purge t he hp (hsilent t.id)

theorem rows_reclaim {batch : Int} {skip : List Uuid} {draw : Uuid → ℚ}
    {rows : List ReclaimedTask} (he : e.op = .reclaim batch skip draw)
    (h : reclaimExpiredLeases cfg db e.now batch skip draw = .ok (db', rows))
    (hreply : e.reply = .reclaimed rows) : RowsFollow cfg db e db'.tasks := by
  obtain ⟨rfl, rfl⟩ := reclaimExpiredLeases_eq_ok h
  have hsub : ∀ t ∈ expiredRows db e.now batch skip, t ∈ db.tasks :=
    fun t ht => (mem_expiredRows ht).1
  refine rowsFollow_updateRows Task.reclaim_id hsub (fun t ht => ?_) fun t ht hnot => ?_
  · refine .reclaim t he (mem_expiredRows ht).2 ?_
    simp only [Event.label, he, hreply, Reply.reclaims]
    rw [Table.find?_map_of_mem hsub Task.reclaimed_id ht]
  · simp only [Event.label, he, hreply, Reply.reclaims]
    rw [Table.find?_map_of_not_mem hsub Task.reclaimed_id ht hnot]

/-- **Every row change is a `RowStep`.** -/
theorem step_rows (h : (queue cfg schemas).step db e db') : RowsFollow cfg db e db'.tasks := by
  obtain ⟨hadm, happly⟩ := h
  obtain ⟨now, op, reply⟩ := e
  cases op with
  -- one case for each operation; what is refused leaves every row, and its event
  -- says nothing about any task
  | enqueue id req =>
      simp only [apply] at happly
      split at happly
      · next hok => cases happly; exact rows_enqueue hadm rfl hok rfl
      · cases happly
        refine rowsFollow_self fun id => ?_
        simp [Event.label, Reply.done]
  | dequeue w limit maxBatch taskTypes skip =>
      simp only [apply] at happly
      split at happly
      · next hok => cases happly; exact rows_dequeue rfl hok rfl
      · cases happly
        exact rowsFollow_self fun id => rfl
  | start taskId w =>
      simp only [apply, Prod.mk.injEq] at happly
      obtain ⟨rfl, rfl⟩ := happly
      exact rows_start rfl Prod.mk.eta.symm rfl
  | fail taskId w errorType correlationId =>
      simp only [apply, Prod.mk.injEq] at happly
      obtain ⟨rfl, rfl⟩ := happly
      exact rows_fail rfl Prod.mk.eta.symm rfl
  | complete envelope w resultId =>
      simp only [apply, Prod.mk.injEq] at happly
      obtain ⟨rfl, rfl⟩ := happly
      exact rows_complete rfl Prod.mk.eta.symm rfl
  | renewLease taskId w =>
      simp only [apply, Prod.mk.injEq] at happly
      obtain ⟨rfl, rfl⟩ := happly
      exact rows_renewLease rfl Prod.mk.eta.symm
  | renewWorkerLeases w =>
      simp only [apply, Prod.mk.injEq] at happly
      obtain ⟨rfl, rfl⟩ := happly
      exact rows_renewWorkerLeases rfl Prod.mk.eta.symm
  | shortenWorkerLeases w graceSeconds =>
      simp only [apply, Prod.mk.injEq] at happly
      obtain ⟨rfl, rfl⟩ := happly
      exact rows_shortenWorkerLeases rfl Prod.mk.eta.symm
  | reclaim batch skip draw =>
      simp only [apply] at happly
      split at happly
      · next hok => cases happly; exact rows_reclaim rfl hok rfl
      · cases happly
        exact rowsFollow_self fun id => rfl
  | cancel taskId =>
      rcases hcancel : cancelQueuedTask db now taskId with ⟨db'', outcome, current⟩
      simp only [apply, hcancel, Prod.mk.injEq] at happly
      obtain ⟨rfl, rfl⟩ := happly
      exact rows_cancel rfl hcancel rfl
  | purge retentionDays =>
      simp only [apply, Prod.mk.injEq] at happly
      obtain ⟨rfl, rfl⟩ := happly
      exact rows_purge rfl Prod.mk.eta.symm
  | setPolicy taskType values =>
      simp only [apply] at happly
      split at happly
      · next hok =>
          cases happly
          rw [(setPolicy_frame hok).1]
          exact rowsFollow_self fun id => rfl
      · cases happly
        exact rowsFollow_self fun id => rfl
  | clearPolicy taskType =>
      simp only [apply] at happly
      split at happly
      · next hok =>
          cases happly
          rw [(clearPolicy_frame hok).1]
          exact rowsFollow_self fun id => rfl
      · cases happly
        exact rowsFollow_self fun id => rfl

end

end TaskFleet.Model
