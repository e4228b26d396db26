import TaskFleet.Logic.RowSteps

/-!
# What one transaction records

The companions of `step_rows` for the other two tables. `step_results` gives
the results table after a step outright; `step_attempts` says which rows a
step appends to the attempt history, and `label_recorded` that taking a task
back always leaves one.
-/

namespace TaskFleet.Model

open Py Sql

/-- The row of `task_results` a completion stores. -/
def storedResult (now : Seconds) (envelope : Envelope) (resultId : Uuid) : TaskResult where
  id := resultId
  payload := envelope
  sizeBytes := envelope.sizeBytes
  submittedAt := now

/-- The results table after an event. -/
def Event.resultsAfter (db : Db) (e : Event) : TaskResults :=
  match e.op with
  | .complete envelope _ resultId =>
      if e.reply.done then db.results.insert (storedResult e.now envelope resultId) else db.results
  | .purge retentionDays =>
      if retentionDays ≤ 0 then db.results
      else db.results.deleteWhere (pastRetention e.now retentionDays)
  | _ => db.results

/-- The rows a step can append to `task_attempts`. -/
inductive NewAttempt (cfg : Config) (db : Db) (e : Event) : TaskAttempt → Prop
  | expiry {t : Task} {batch : Int} {skip : List Uuid} {draw : Uuid → ℚ} (ht : t ∈ db.tasks)
      (hop : e.op = .reclaim batch skip draw) (hwhere : (expired e.now t).holds = true) :
      NewAttempt cfg db e ((t.reclaimed cfg db.policies e.now draw).attempt e.now)
  | failure {t : Task} {w : Uuid} {taskId errorType correlationId : String} {a : TaskAttempt}
      (ht : t ∈ db.tasks) (hop : e.op = .fail taskId w errorType correlationId)
      (howner : t.assignedWorkerId = some w) (hlive : t.status.isLive = true)
      (htask : a.taskId = t.id) (hnumber : a.attemptNumber = t.attemptCount)
      (hworker : a.workerId = some w) : NewAttempt cfg db e a
  | fence {t : Task} {w resultId : Uuid} {envelope : Envelope} {a : TaskAttempt}
      (ht : t ∈ db.tasks) (hop : e.op = .complete envelope w resultId)
      (hstatus : t.status.isTerminal = false)
      (hheld : everHeld db t.id w t.assignedWorkerId = true)
      (htask : a.taskId = t.id) (hnumber : a.attemptNumber ≤ t.attemptCount)
      (hworker : a.workerId = some w) : NewAttempt cfg db e a

section

variable {cfg : Config} {schemas : Schemas} {db db' : Db} {e : Event}

/-- Whoever answers `TRANSITIONED` has stored the result and completed the
row the envelope names. -/
theorem completeTask_stored {envelope : Envelope} {now : Seconds} {w resultId : Uuid}
    (h : (completeTask db now envelope w resultId).2 = .transitioned) :
    ∃ row ∈ db.tasks, Uuid.parse envelope.taskId = some row.id ∧ row.status.isLive = true ∧
      row.assignedWorkerId = some w ∧ envelope.attemptNumber = row.attemptCount ∧
      (completeTask db now envelope w resultId).1 =
        { db with results := db.results.insert (storedResult now envelope resultId) }.updateTask
          row.id (Task.complete now resultId) Task.complete_id := by
  rcases completeTask_cases db now envelope w resultId with hnone | ⟨row, hrow, hid, hcase⟩
  · rw [hnone] at h
    cases h
  · generalize completeTask db now envelope w resultId = r at h hcase
    cases hcase with
    | stored hlive howner hattempt =>
        exact ⟨row, (Table.get?_eq_some_iff.mp hrow).1, hid, hlive, howner, hattempt, rfl⟩
    | terminal hstatus => exact absurd h (terminalResultOutcome_ne (by decide))
    | _ => cases h

/-- Any other answer leaves the tasks and the results as they were. -/
theorem completeTask_frame {envelope : Envelope} {now : Seconds} {w resultId : Uuid}
    (h : (completeTask db now envelope w resultId).2 ≠ .transitioned) :
    (completeTask db now envelope w resultId).1.tasks = db.tasks ∧
    (completeTask db now envelope w resultId).1.results = db.results := by
  rcases completeTask_cases db now envelope w resultId with hnone | ⟨row, hrow, hid, hcase⟩
  · rw [hnone]
    exact ⟨rfl, rfl⟩
  · generalize completeTask db now envelope w resultId = r at h hcase
    cases hcase with
    | stored hlive howner hattempt => exact absurd rfl h
    | fenced hstatus hstale hheld => exact ⟨recordFence_tasks .., recordFence_results ..⟩
    | _ => exact ⟨rfl, rfl⟩

theorem markStatus_frame (cfg : Config) (db : Db) (now : Seconds) (taskId : String) (w : Uuid)
    (newStatus : TaskState) :
    (markStatus cfg db now taskId w newStatus).1.results = db.results ∧
    (markStatus cfg db now taskId w newStatus).1.attempts = db.attempts := by
  unfold markStatus
  split
  · exact ⟨rfl, rfl⟩
  · next i _ =>
      rcases markStatusAt_cases cfg db now i w newStatus with ⟨_, _, _, _, h⟩ | ⟨_, _, h⟩ <;>
        rw [h] <;> exact ⟨rfl, rfl⟩

/-- Whether the call may write a result or an attempt row. -/
def Op.records : Op → Bool
  | .fail _ _ _ _ | .complete _ _ _ | .reclaim _ _ _ | .purge _ => true
  | _ => false

/-- Every other call leaves both tables alone. -/
theorem step_frame (h : (queue cfg schemas).step db e db') (hop : e.op.records = false) :
    db'.results = db.results ∧ db'.attempts = db.attempts := by
  obtain ⟨-, happly⟩ := h
  obtain ⟨now, op, reply⟩ := e
  cases op with
  | fail | complete | reclaim | purge => cases hop
  | enqueue id req =>
      simp only [apply, enqueue] at happly
      split at happly
      · next hok =>
          split at hok
          · cases hok
          · cases hok; cases happly; exact ⟨rfl, rfl⟩
      · cases happly; exact ⟨rfl, rfl⟩
  | dequeue w limit maxBatch taskTypes skip =>
      simp only [apply] at happly
      split at happly
      · next hok => cases happly; rw [(dequeue_eq_ok hok).1]; exact ⟨rfl, rfl⟩
      · cases happly; exact ⟨rfl, rfl⟩
  | start taskId w =>
      simp only [apply, Prod.mk.injEq] at happly
      obtain ⟨rfl, rfl⟩ := happly
      exact markStatus_frame ..
  | renewLease taskId w =>
      simp only [apply, Prod.mk.injEq] at happly
      obtain ⟨rfl, rfl⟩ := happly
      simp only [renewLease]
      split <;> exact ⟨rfl, rfl⟩
  | renewWorkerLeases w =>
      simp only [apply, Prod.mk.injEq] at happly
      obtain ⟨rfl, rfl⟩ := happly
      exact ⟨rfl, rfl⟩
  | shortenWorkerLeases w graceSeconds =>
      simp only [apply, Prod.mk.injEq] at happly
      obtain ⟨rfl, rfl⟩ := happly
      exact ⟨rfl, rfl⟩
  | cancel taskId =>
      simp only [apply, Prod.mk.injEq] at happly
      obtain ⟨rfl, rfl⟩ := happly
      simp only [cancelQueuedTask, cancelQueuedTaskAt]
      split
      · exact ⟨rfl, rfl⟩
      · split
        · exact ⟨rfl, rfl⟩
        · split <;> exact ⟨rfl, rfl⟩
  | setPolicy taskType values =>
      simp only [apply] at happly
      split at happly
      · next hok => cases happly; exact (setPolicy_frame hok).2
      · cases happly; exact ⟨rfl, rfl⟩
  | clearPolicy taskType =>
      simp only [apply] at happly
      split at happly
      · next hok => cases happly; exact (clearPolicy_frame hok).2
      · cases happly; exact ⟨rfl, rfl⟩

/-! ## Results -/

theorem failTask_results (cfg : Config) (db : Db) (now : Seconds) (taskId : String) (w : Uuid)
    (errorType correlationId : String) :
    (failTask cfg db now taskId w errorType correlationId).1.results = db.results := by
  have hmark := (markStatus_frame cfg db now taskId w .failed).1
  unfold failTask
  split
  · next db' heq =>
      rw [heq] at hmark
      simpa using hmark
  · rfl

/-- The results table after a step. -/
theorem step_results (h : (queue cfg schemas).step db e db') :
    db'.results = e.resultsAfter db := by
  cases hrec : e.op.records with
  | false =>
      rw [(step_frame h hrec).1, Event.resultsAfter]
      cases hop : e.op <;> first | rfl | (rw [hop] at hrec; cases hrec)
  | true =>
      obtain ⟨-, happly⟩ := h
      obtain ⟨now, op, reply⟩ := e
      cases op with
      | complete envelope w resultId =>
          simp only [apply, Prod.mk.injEq] at happly
          obtain ⟨rfl, rfl⟩ := happly
          simp only [Event.resultsAfter, Reply.done, decide_eq_true_eq]
          split
          · next hdone =>
              obtain ⟨row, -, -, -, -, -, hdb⟩ := completeTask_stored hdone
              rw [hdb]
              rfl
          · next hnot => exact (completeTask_frame hnot).2
      | purge retentionDays =>
          simp only [apply, Prod.mk.injEq] at happly
          obtain ⟨rfl, rfl⟩ := happly
          simp only [Event.resultsAfter, purgeExpiredResults]
          split <;> rfl
      | fail taskId w errorType correlationId =>
          simp only [apply, Prod.mk.injEq] at happly
          obtain ⟨rfl, rfl⟩ := happly
          exact failTask_results ..
      | reclaim batch skip draw =>
          simp only [apply] at happly
          split at happly
          · next hok => cases happly; rw [(reclaimExpiredLeases_eq_ok hok).1]; rfl
          · cases happly; rfl
      | _ => cases hrec

/-! ## Attempts -/

theorem failTask_attempts {now : Seconds} {taskId errorType correlationId : String} {w : Uuid}
    (he : e.op = .fail taskId w errorType correlationId) :
    ∃ new, (failTask cfg db now taskId w errorType correlationId).1.attempts = db.attempts ++ new ∧
      ∀ a ∈ new, NewAttempt cfg db e a := by
  unfold failTask markStatus
  split
  · next db₁ heq =>
      split at heq
      · cases heq
      · next i hid =>
          rcases markStatusAt_cases cfg db now i w .failed with
            ⟨row, hrow, howner, hedge, hmark⟩ | ⟨_, hne, hmark⟩
          · rw [hmark] at heq
            cases heq
            obtain ⟨hmem, rfl⟩ := Table.get?_eq_some_iff.mp hrow
            rcases recordExecutionFailure_eq (db.updateTask row.id
                (Task.mark cfg db.policies now .failed) Task.mark_id) now taskId w
                (prefixOf 100 errorType) correlationId with
              hsame | ⟨j, row', a, hj, hrow', htask, hnumber, hworker, hadd⟩
            · exact ⟨[], by rw [hsame, List.append_nil]; rfl, by simp⟩
            · refine ⟨[a], by rw [hadd]; rfl, ?_⟩
              obtain rfl : row.id = j := Option.some.inj (hid.symm.trans hj)
              have hrow₂ : row' = row.mark cfg db.policies now .failed := by
                have hget := Table.get?_of_mem (Db.mem_updateTask
                  (f := Task.mark cfg db.policies now .failed) Task.mark_id hmem rfl)
                rw [Task.mark_id] at hget
                exact Option.some.inj (hrow'.symm.trans hget)
              intro b hb
              rw [List.mem_singleton.mp hb]
              refine .failure hmem he howner (failed_mem_allowed.mp hedge) htask ?_ hworker
              rw [hnumber, hrow₂]
              rfl
          · rw [hmark] at heq
            cases heq
            exact absurd rfl hne
  · exact ⟨[], by simp, by simp⟩

/-- **Every new attempt row** is an expiry, a failure or a fence. -/
theorem step_attempts (h : (queue cfg schemas).step db e db') :
    ∃ new, db'.attempts = db.attempts ++ new ∧ ∀ a ∈ new, NewAttempt cfg db e a := by
  -- an operation that records nothing adds nothing
  cases hrec : e.op.records with
  | false => exact ⟨[], by rw [(step_frame h hrec).2, List.append_nil], by simp⟩
  | true =>
      obtain ⟨-, happly⟩ := h
      obtain ⟨now, op, reply⟩ := e
      cases op with
      | fail taskId w errorType correlationId =>
          simp only [apply, Prod.mk.injEq] at happly
          obtain ⟨rfl, rfl⟩ := happly
          exact failTask_attempts rfl
      | complete envelope w resultId =>
          simp only [apply, Prod.mk.injEq] at happly
          obtain ⟨rfl, -⟩ := happly
          rcases completeTask_cases db now envelope w resultId with hnone | ⟨row, hrow, hid, hcase⟩
          · exact ⟨[], by rw [hnone, List.append_nil], by simp⟩
          · generalize completeTask db now envelope w resultId = r at hcase ⊢
            cases hcase with
            | fenced hstatus hstale hheld =>
                rcases recordFence_eq db now row envelope w (row.assignedWorkerId = some w) with
                  hsame | ⟨a, htask, hnumber, hle, hworker, hadd⟩
                · exact ⟨[], by rw [hsame, List.append_nil], by simp⟩
                · refine ⟨[a], by rw [hadd], fun b hb => ?_⟩
                  rw [List.mem_singleton.mp hb]
                  exact .fence (Table.get?_eq_some_iff.mp hrow).1 rfl hstatus hheld
                    htask hle hworker
            | _ => exact ⟨[], (List.append_nil _).symm, by simp⟩
      | reclaim batch skip draw =>
          simp only [apply] at happly
          split at happly
          · next hok =>
              cases happly
              obtain ⟨rfl, rfl⟩ := reclaimExpiredLeases_eq_ok hok
              refine ⟨_, rfl, fun a ha => ?_⟩
              rw [List.map_map] at ha
              obtain ⟨t, ht, rfl⟩ := List.mem_map.mp ha
              exact .expiry (mem_expiredRows ht).1 rfl (mem_expiredRows ht).2
          · cases happly
            exact ⟨[], (List.append_nil _).symm, by simp⟩
      | purge retentionDays =>
          simp only [apply, Prod.mk.injEq] at happly
          obtain ⟨rfl, rfl⟩ := happly
          refine ⟨[], ?_, by simp⟩
          simp only [purgeExpiredResults, List.append_nil]
          split <;> rfl
      | _ => cases hrec

/-- **Taking a task back leaves a record** that names its holder and the
attempt that ended. -/
theorem label_recorded (h : (queue cfg schemas).step db e db') {id w : Uuid} {n : ℕ}
    (hlabel : e.label id = .revoke w n ∨ e.label id = .expire w n) :
    ∃ a ∈ db'.attempts, a.taskId = id ∧ a.workerId = some w ∧ a.attemptNumber = n := by
  obtain ⟨-, happly⟩ := h
  obtain ⟨now, op, reply⟩ := e
  cases op with
  | reclaim batch skip draw =>
      simp only [apply] at happly
      split at happly
      · next rows hok =>
          cases happly
          obtain ⟨hdb, -⟩ := reclaimExpiredLeases_eq_ok hok
          simp only [Event.label, Reply.reclaims] at hlabel
          -- the label is read off the returned row, and so is the record
          cases hfind : rows.find? (fun r => r.id = id) with
          | none => simp [hfind] at hlabel
          | some r =>
              have hid : r.id = id := by simpa using List.find?_some hfind
              refine ⟨r.attempt now, ?_, hid, ?_⟩
              · rw [hdb]
                exact List.mem_append_right _
                  (List.mem_map_of_mem (List.mem_of_find?_eq_some hfind))
              · simp only [hfind, ReclaimedTask.label] at hlabel
                cases hw : r.previousWorkerId with
                | none => simp [hw] at hlabel
                | some v =>
                    simp only [hw] at hlabel
                    split at hlabel
                    · simp only [reduceCtorEq, Lease.Event.expire.injEq, false_or] at hlabel
                      exact ⟨hw.trans (congrArg some hlabel.1), hlabel.2⟩
                    · simp only [reduceCtorEq, Lease.Event.revoke.injEq, or_false] at hlabel
                      exact ⟨hw.trans (congrArg some hlabel.1), hlabel.2⟩
      · cases happly
        simp [Event.label, Reply.reclaims] at hlabel
  | enqueue => simp only [Event.label] at hlabel; split at hlabel <;> simp at hlabel
  | dequeue => simp only [Event.label] at hlabel; split at hlabel <;> simp at hlabel
  | fail => simp only [Event.label] at hlabel; split at hlabel <;> simp at hlabel
  | complete => simp only [Event.label] at hlabel; split at hlabel <;> simp at hlabel
  | cancel => simp only [Event.label] at hlabel; split at hlabel <;> simp at hlabel
  | _ => simp [Event.label] at hlabel

end

end TaskFleet.Model
