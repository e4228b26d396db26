import TaskFleet.Model.ReadLoop
import TaskFleet.Logic.ClaimHistory
import TaskFleet.Logic.HeldRow

/-!
# A worker moves only its own tasks

A worker names task ids as it likes, in eight kinds of message. Each of them
comes down to at most one call made in its name, and each of these calls finds
its rows by the sender as well as by the id. So whatever a worker sends, the
rows of everyone else stay as they are (`worker_isolation`); the one table
that takes a row about a task the worker no longer holds is `task_attempts`,
and only for a task it was once given.
-/

namespace TaskFleet.Model

open Py Sql

section

variable {cfg : Config} {fl : FloatOps} {schemas : Schemas} {db db' : Db} {now : Seconds} {w : Uuid}
  {t : Task} {es : List Event}

/-! ## Rows of others -/

/-- A row of another worker is not the one found for the sender. -/
theorem id_ne_of_owner {row : Task} (hrow : row ∈ db.tasks) (ht : t ∈ db.tasks)
    (howner : row.assignedWorkerId = some w) (hother : t.assignedWorkerId ≠ some w) :
    t.id ≠ row.id := by
  intro hid
  rw [Table.eq_of_key ht hrow hid] at hother
  exact hother howner

/-- **State reports** leave the rows of others. -/
theorem markStatus_others {taskId : String} {newStatus : TaskState} (ht : t ∈ db.tasks)
    (hother : t.assignedWorkerId ≠ some w) :
    t ∈ (markStatus cfg db now taskId w newStatus).1.tasks := by
  unfold markStatus
  split
  · exact ht
  · next id _ =>
      rcases markStatusAt_cases cfg db now id w newStatus with
        ⟨row, hrow, howner, -, hmark⟩ | ⟨outcome, -, hmark⟩
      · obtain ⟨hmem, rfl⟩ := Table.get?_eq_some_iff.mp hrow
        rw [hmark]
        exact Db.mem_updateTask_of_ne Task.mark_id ht (id_ne_of_owner hmem ht howner hother)
      · rw [hmark]
        exact ht

theorem failTask_others {taskId errorType correlationId : String} (ht : t ∈ db.tasks)
    (hother : t.assignedWorkerId ≠ some w) :
    t ∈ (failTask cfg db now taskId w errorType correlationId).1.tasks := by
  have hmark : t ∈ (markStatus cfg db now taskId w .failed).1.tasks := markStatus_others ht hother
  unfold failTask
  split
  · next db₁ heq =>
      rw [heq] at hmark
      rw [recordExecutionFailure_tasks]
      exact hmark
  · exact ht

/-- **Results** leave the rows of others: only the current holder's completes
a task. -/
theorem completeTask_others {envelope : Envelope} {resultId : Uuid} (ht : t ∈ db.tasks)
    (hother : t.assignedWorkerId ≠ some w) :
    t ∈ (completeTask db now envelope w resultId).1.tasks := by
  by_cases hdone : (completeTask db now envelope w resultId).2 = .transitioned
  · obtain ⟨row, hrow, -, -, howner, -, hdb⟩ := completeTask_stored hdone
    rw [hdb]
    exact Db.mem_updateTask_of_ne Task.complete_id ht (id_ne_of_owner hrow ht howner hother)
  · rw [(completeTask_frame hdone).1]
    exact ht

/-- The lease statements match no row of another worker. -/
theorem heldLive_of_other (hother : t.assignedWorkerId ≠ some w) :
    (heldLive w t).holds = false := by
  rw [Bool.eq_false_iff]
  intro h
  exact hother (heldLive_holds.mp h).1

theorem renewLease_others {taskId : String} (ht : t ∈ db.tasks)
    (hother : t.assignedWorkerId ≠ some w) : t ∈ (renewLease cfg db now taskId w).1.tasks := by
  unfold renewLease
  split
  · exact ht
  · refine Table.mem_updateWhere_of_not Task.renew_id ht ?_
    rw [heldLive_of_other hother, Bool.and_false]

/-- **Every call of a worker** leaves the rows of others. -/
theorem call_others {op : Op} (hsender : op.sender = some w) (ht : t ∈ db.tasks)
    (hother : t.assignedWorkerId ≠ some w) : t ∈ (apply cfg schemas db now op).1.tasks := by
  cases op with
  | start taskId v =>
      cases hsender
      simp only [apply]
      exact markStatus_others ht hother
  | fail taskId v errorType correlationId =>
      cases hsender
      simp only [apply]
      exact failTask_others ht hother
  | complete envelope v resultId =>
      cases hsender
      simp only [apply]
      exact completeTask_others ht hother
  | renewLease taskId v =>
      cases hsender
      simp only [apply]
      exact renewLease_others ht hother
  | renewWorkerLeases v =>
      cases hsender
      exact Table.mem_updateWhere_of_not Task.renew_id ht (heldLive_of_other hother)
  | shortenWorkerLeases v graceSeconds =>
      cases hsender
      exact Table.mem_updateWhere_of_not Task.shorten_id ht (heldLive_of_other hother)
  | _ => cases hsender

/-! ## Results and attempts -/

/-- A call keeps every result, and adds one of a task of its sender at most. -/
theorem call_results (cfg : Config) (schemas : Schemas) (now : Seconds) {op : Op}
    (hsender : op.sender = some w) (hadm : op.Admissible db) :
    (∀ r ∈ db.results, r ∈ (apply cfg schemas db now op).1.results) ∧
    ∀ r ∈ (apply cfg schemas db now op).1.results, r ∈ db.results ∨
      ∃ t ∈ db.tasks, t.assignedWorkerId = some w ∧
        Uuid.parse r.payload.taskId = some t.id := by
  cases op with
  | complete envelope v resultId =>
      cases hsender
      simp only [apply]
      by_cases hdone : (completeTask db now envelope w resultId).2 = .transitioned
      · obtain ⟨row, hrow, hid, -, howner, -, hdb⟩ := completeTask_stored hdone
        have hresults : (completeTask db now envelope w resultId).1.results =
            db.results.insert (storedResult now envelope resultId) := by
          rw [hdb]
          rfl
        have hfresh : db.results.get? resultId = none := hadm
        rw [hresults]
        refine ⟨fun r hr => Table.mem_insert_of_mem hr, fun r hr => ?_⟩
        rcases (Table.mem_insert (Table.get?_eq_none_iff.mp hfresh)).mp hr with hold | rfl
        · exact .inl hold
        · exact .inr ⟨row, hrow, howner, hid⟩
      · rw [(completeTask_frame hdone).2]
        exact ⟨fun r hr => hr, fun r hr => .inl hr⟩
  | purge => cases hsender
  | _ =>
      have hs : (queue cfg schemas).step db ⟨now, _, _⟩ _ := queue_step hadm
      rw [step_results hs]
      exact ⟨fun r hr => hr, fun r hr => .inl hr⟩

/-- A call adds attempt rows of tasks its sender was given. -/
theorem call_attempts (hrun : (queue cfg schemas).Run es db) {op : Op}
    (hsender : op.sender = some w)
    (hadm : op.Admissible db) :
    ∃ new, (apply cfg schemas db now op).1.attempts = db.attempts ++ new ∧
      ∀ a ∈ new, EverAssigned es a.taskId w := by
  have hs : (queue cfg schemas).step db ⟨now, op, _⟩ _ := queue_step hadm
  obtain ⟨new, hattempts, hnew⟩ := step_attempts hs
  refine ⟨new, hattempts, fun a ha => ?_⟩
  cases hnew a ha with
  | expiry _ hop =>
      rw [show op = _ from hop] at hsender
      cases hsender
  | failure ht hop howner hlive htask =>
      rw [show op = _ from hop] at hsender
      cases hsender
      rw [htask]
      exact ⟨_, Run.claimed_of_live hrun ht hlive howner⟩
  | fence ht hop hstatus hheld htask =>
      rw [show op = _ from hop] at hsender
      cases hsender
      rw [htask]
      exact (Run.everHeld_iff hrun ht hstatus w).mp hheld

/-! ## Everything a worker can send -/

/-- What the worker `w` can bring about on its session: it opens it, sends any
message over it, or closes it. -/
inductive WorkerActs (cfg : Config) (fl : FloatOps) (w : Uuid) (db : Db) : Db → Prop
  | hello {session : LocalSession} (howner : session.workerId = w) (now : Seconds) (through : Bool)
      (clockOffset : Seconds) :
      WorkerActs cfg fl w db (Channel.hello cfg db now through session clockOffset).1
  | message {ch : Channel} (howner : ch.session.workerId = w) (msg : WorkerMessage) (now : Seconds)
      (through : Bool) {resultId : Uuid} (hfresh : db.results.get? resultId = none)
      {r : Db × Channel} (h : ch.handle cfg fl db now through resultId msg = some r) :
      WorkerActs cfg fl w db r.1
  | disconnect {ch : Channel} (howner : ch.session.workerId = w) (now : Seconds)
      (through registered : Bool) : WorkerActs cfg fl w db (ch.close cfg db now through registered)

theorem WorkerActs.calledBy (schemas : Schemas) (h : WorkerActs cfg fl w db db') :
    ∃ now, CalledBy cfg schemas w db now db' := by
  cases h with
  | hello howner now through clockOffset =>
      subst howner
      exact ⟨now, Channel.hello_calledBy⟩
  | message howner msg now through hfresh h =>
      subst howner
      exact ⟨now, Channel.handle_calledBy hfresh h⟩
  | disconnect howner now through registered =>
      subst howner
      exact ⟨now, Channel.close_calledBy⟩

/-- **Worker isolation.** In every state of every run, whatever a worker sends:
each row of `tasks` that does not name it stays as it is, each row of
`task_results` does too and a new one is of a task it holds, and each row added
to `task_attempts` is of a task some dequeue gave it. -/
theorem worker_isolation (hrun : (queue cfg schemas).Run es db) (h : WorkerActs cfg fl w db db') :
    (∀ t ∈ db.tasks, t.assignedWorkerId ≠ some w → t ∈ db'.tasks) ∧
    (∀ r ∈ db.results, r ∈ db'.results) ∧
    (∀ r ∈ db'.results, r ∈ db.results ∨
      ∃ t ∈ db.tasks, t.assignedWorkerId = some w ∧ Uuid.parse r.payload.taskId = some t.id) ∧
    ∃ new, db'.attempts = db.attempts ++ new ∧ ∀ a ∈ new, EverAssigned es a.taskId w := by
  obtain ⟨now, rfl | ⟨op, hsender, hadm, rfl⟩⟩ := h.calledBy schemas
  · exact ⟨fun t ht _ => ht, fun r hr => hr, fun r hr => .inl hr, [], by simp, by simp⟩
  · obtain ⟨hkept, hnew⟩ := call_results cfg schemas now hsender hadm
    exact ⟨fun t ht hother => call_others hsender ht hother, hkept, hnew,
      call_attempts hrun hsender hadm⟩

end

/-- A second worker of the small deployment, with a session of its own. -/
def Demo.intruder : Channel where
  session := .open {} Demo.otherWorker 1 (some 4) (some 0) ["sleep"]

/-- It reports the claimed task failed, and the row stays with its holder. -/
theorem worker_isolation_claimed : ∃ r,
    Demo.intruder.handle {} Demo.floats (play {} Demo.schemas .empty Demo.claimed).2 2 true
      Demo.resultId (.taskFailed Demo.task.str "ValueError" "") = some r ∧
    ∃ t ∈ r.1.tasks, t.id = Demo.task ∧ t.status = .assigned ∧
      t.assignedWorkerId = some Demo.worker := by
  obtain ⟨t, ht, hid, hstatus, howner⟩ :
      ∃ t ∈ (play {} Demo.schemas .empty Demo.claimed).2.tasks.rows, t.id = Demo.task ∧
        t.status = .assigned ∧ t.assignedWorkerId = some Demo.worker := by
    decide +kernel
  have hother : t.assignedWorkerId ≠ some Demo.otherWorker := by
    rw [howner]
    decide
  have hfresh : (play {} Demo.schemas .empty Demo.claimed).2.results.get? Demo.resultId = none :=
    Option.isNone_iff_eq_none.mp (by decide +kernel)
  have howns : Demo.intruder.session.workerId = Demo.otherWorker := rfl
  have hacts : WorkerActs {} Demo.floats Demo.otherWorker
      (play {} Demo.schemas .empty Demo.claimed).2 _ :=
    .message howns (.taskFailed Demo.task.str "ValueError" "") 2 true hfresh rfl
  exact ⟨_, rfl, t, (worker_isolation (play_run Demo.claimed_playable) hacts).1 t ht hother, hid,
    hstatus, howner⟩

end TaskFleet.Model
