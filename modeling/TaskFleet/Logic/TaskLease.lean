import TaskFleet.Logic.RowShape
import TaskFleet.Logic.Records

/-!
# A task is a fenced lease

The abstraction that carries the ownership results. Seen from one task, the
queue is `Lease.system`: `attempt_count` is the fencing token, a `dequeue`
grants, a sweep revokes or expires, a completion accepts, an executor failure
abandons, a cancel withdraws, and everything else is silent. `Run.lease` is
the simulation; what the library proves of every run of a fenced lease then
holds of every task of the queue.
-/

namespace TaskFleet.Model

open Py Sql

/-- The lease a row stands for. -/
def Task.lease (t : Task) : Lease.Resource Uuid where
  phase :=
    match t.status with
    | .queued => .idle
    | .assigned | .running =>
        match t.assignedWorkerId with
        | some w => .held w
        | none => .closed
    | _ => .closed
  token := t.attemptCount

/-- The lease the task `id` stands for. -/
def Db.lease (db : Db) (id : Uuid) : Lease.Resource Uuid :=
  match db.tasks.get? id with
  | some t => t.lease
  | none => ⟨.absent, 0⟩

theorem Task.lease_queued {t : Task} (h : t.status = .queued) :
    t.lease = ⟨.idle, t.attemptCount⟩ := by
  simp [Task.lease, h]

theorem Task.lease_live {t : Task} {w : Uuid} (h : t.status.isLive = true)
    (hw : t.assignedWorkerId = some w) : t.lease = ⟨.held w, t.attemptCount⟩ := by
  rcases TaskState.isLive_iff.mp h with hs | hs <;> simp [Task.lease, hs, hw]

theorem Task.lease_terminal {t : Task} (h : t.status.isTerminal = true) :
    t.lease = ⟨.closed, t.attemptCount⟩ := by
  cases hs : t.status <;> simp_all [Task.lease, TaskState.isTerminal]

section

variable {cfg : Config} {schemas : Schemas} {db db' : Db} {e : Event} {es : List Event}

/-- What a reclaim does to the lease of the row it takes. -/
theorem lease_reclaim {now : Seconds} {draw : Uuid → ℚ} {t : Task} {w : Uuid}
    (hlive : t.status.isLive = true) (hw : t.assignedWorkerId = some w) :
    Lease.Step t.lease (t.reclaimed cfg db.policies now draw).label
      (t.reclaim cfg db.policies now draw).lease := by
  rw [t.lease_live hlive hw]
  cases hex : t.exhausted cfg db.policies with
  | true =>
      have hlease : (t.reclaim cfg db.policies now draw).lease = ⟨.closed, t.attemptCount + 1⟩ :=
        Task.lease_terminal (by simp [Task.reclaim, hex, TaskState.isTerminal])
      have hlabel : (t.reclaimed cfg db.policies now draw).label = .expire w t.attemptCount := by
        simp [ReclaimedTask.label, Task.reclaimed, Task.reclaim, hex, hw]
      rw [hlease, hlabel]
      exact .expire w _
  | false =>
      have hlease : (t.reclaim cfg db.policies now draw).lease = ⟨.idle, t.attemptCount + 1⟩ :=
        Task.lease_queued (by simp [Task.reclaim, hex])
      have hlabel : (t.reclaimed cfg db.policies now draw).label = .revoke w t.attemptCount := by
        simp [ReclaimedTask.label, Task.reclaimed, Task.reclaim, hex, hw]
      rw [hlease, hlabel]
      exact .revoke w _

/-- **One row step is one lease step.** -/
theorem RowStep.lease {t t' : Task} (h : RowStep cfg db e t t') (hshape : t.Shape) :
    Lease.Step t.lease (e.label t.id) t'.lease := by
  cases h with
  | keep hlabel =>
      rw [hlabel]
      exact .silent _
  | claim hop hwhere hlabel =>
      rw [hlabel, Task.lease_queued (claimable_queued hwhere)]
      exact .grant _ _
  | start hop hreply hid howner hstatus hlabel =>
      -- a start moves between two live states of one holder
      have hsame : (t.mark cfg db.policies e.now .running).lease = t.lease := by
        rw [Task.lease_live (t := t.mark cfg db.policies e.now .running) rfl howner,
          Task.lease_live (by rw [hstatus]; rfl) howner]
        rfl
      rw [hlabel, hsame]
      exact .silent _
  | fail hop hreply hid howner hlive hlabel =>
      rw [hlabel, Task.lease_live hlive howner,
        Task.lease_terminal (t := t.mark cfg db.policies e.now .failed) rfl]
      exact .abandon _ _
  | complete hop hreply hid howner hlive hattempt hlabel =>
      rw [hlabel, Task.lease_live hlive howner, Task.lease_terminal (t := t.complete _ _) rfl]
      exact .accept _ _
  | renew hwhere hlabel =>
      rw [hlabel]
      exact .silent _
  | shorten hwhere hlabel =>
      rw [hlabel]
      exact .silent _
  | reclaim hop hwhere hlabel =>
      have hlive := (expired_holds.mp hwhere).1
      obtain ⟨w, hw⟩ := hshape.holder hlive
      rw [hlabel]
      exact lease_reclaim hlive hw
  | cancel hop hid hstatus hlabel =>
      rw [hlabel, Task.lease_queued hstatus, Task.lease_terminal (t := t.cancel _) rfl]
      exact .withdraw _
  | purge hop hwhere hlabel =>
      rw [hlabel]
      exact .silent _

/-- An event that creates no row means nothing to a task without one. -/
theorem label_of_absent (hs : (queue cfg schemas).step db e db') {id : Uuid}
    (h : db.tasks.get? id = none) (h' : db'.tasks.get? id = none) : e.label id = .silent := by
  have hnone := Table.get?_eq_none_iff.mp h
  obtain ⟨hadm, happly⟩ := hs
  obtain ⟨now, op, reply⟩ := e
  cases op with
  -- a row that is inserted is there afterwards
  | enqueue i req =>
      simp only [apply, enqueue] at happly
      split at happly
      · next hok =>
          split at hok
          · cases hok
          · cases hok
            cases happly
            simp only [Event.label]
            rw [if_neg]
            rintro ⟨-, rfl⟩
            exact Table.get?_eq_none_iff.mp h' _ ((Table.mem_insert hnone).mpr (.inr rfl)) rfl
      · cases happly
        simp [Event.label, Reply.done]
  -- what is returned was a row before
  | dequeue w limit maxBatch taskTypes skip =>
      simp only [apply] at happly
      split at happly
      · next hok =>
          cases happly
          obtain ⟨-, rfl⟩ := dequeue_eq_ok hok
          simp only [Event.label, Reply.claims]
          rw [List.find?_eq_none.mpr]
          intro r hr hid
          obtain ⟨t, ht, rfl⟩ := List.mem_map.mp hr
          exact hnone t (mem_claimedRows ht).1 (of_decide_eq_true hid)
      · cases happly
        rfl
  | reclaim batch skip draw =>
      simp only [apply] at happly
      split at happly
      · next hok =>
          cases happly
          obtain ⟨-, rfl⟩ := reclaimExpiredLeases_eq_ok hok
          simp only [Event.label, Reply.reclaims]
          rw [List.find?_eq_none.mpr]
          intro r hr hid
          obtain ⟨t, ht, rfl⟩ := List.mem_map.mp hr
          exact hnone t (mem_expiredRows ht).1 (of_decide_eq_true hid)
      · cases happly
        rfl
  -- a report about a task without a row answers `NOT_FOUND`
  | complete envelope w resultId =>
      simp only [apply, Prod.mk.injEq] at happly
      obtain ⟨-, rfl⟩ := happly
      simp only [Event.label]
      rw [if_neg]
      rintro ⟨hdone, hid⟩
      simp [Reply.done, completeTask, completeTaskAt, hid, h] at hdone
  | fail taskId w errorType correlationId =>
      simp only [apply, Prod.mk.injEq] at happly
      obtain ⟨-, rfl⟩ := happly
      simp only [Event.label]
      rw [if_neg]
      rintro ⟨hdone, hid⟩
      simp [Reply.done, failTask, markStatus, markStatusAt, hid, h] at hdone
  | cancel taskId =>
      simp only [apply, Prod.mk.injEq] at happly
      obtain ⟨-, rfl⟩ := happly
      simp only [Event.label]
      rw [if_neg]
      rintro ⟨hdone, hid⟩
      simp [Reply.done, cancelQueuedTask, cancelQueuedTaskAt, hid, h] at hdone
  | _ => rfl

/-- **One step of the queue is one lease step of every task.** -/
theorem step_lease (hreach : (queue cfg schemas).Reachable db)
    (hs : (queue cfg schemas).step db e db') (id : Uuid) :
    (Lease.system Uuid).step (db.lease id) (e.label id) (db'.lease id) := by
  show Lease.Step _ _ _
  unfold Db.lease
  cases hget : db.tasks.get? id with
  | some t =>
      obtain ⟨hmem, rfl⟩ := Table.get?_eq_some_iff.mp hget
      obtain ⟨t', hget', hrow⟩ := (step_rows hs).get? hget
      rw [hget']
      exact hrow.lease (reachable_shape hreach t hmem)
  | none =>
      cases hget' : db'.tasks.get? id with
      | none =>
          rw [label_of_absent hs hget hget']
          exact .silent _
      | some t =>
          obtain ⟨req, taskType, parameters, hop, hreply, heq⟩ :=
            (step_rows hs).get?_none hget hget'
          obtain ⟨-, rfl⟩ := Table.get?_eq_some_iff.mp hget'
          have hlabel : e.label t.id = .create := by
            simp [Event.label, hop, hreply, Reply.done]
          have hlease : t.lease = ⟨.idle, 0⟩ := by
            rw [heq]
            rfl
          rw [hlabel]
          show Lease.Step _ _ t.lease
          rw [hlease]
          exact .create

/-- **Simulation.** Every run of the queue is, for every task, a run of a
fenced lease. -/
theorem Run.lease (h : (queue cfg schemas).Run es db) (id : Uuid) :
    (Lease.system Uuid).Run (es.map (Event.label id)) (db.lease id) := by
  refine h.simulate (fun db => db.lease id) (Event.label id) ?_
    fun _ _ _ hreach hs => step_lease hreach hs id
  rintro db ⟨htasks, -, -⟩
  simp [Lease.system, Db.lease, htasks]

/-- The same for what happens from a reachable state on. -/
theorem Trace.lease (hreach : (queue cfg schemas).Reachable db)
    (h : (queue cfg schemas).Trace db es db') (id : Uuid) :
    (Lease.system Uuid).Trace (db.lease id) (es.map (Event.label id)) (db'.lease id) :=
  h.simulate (fun db => db.lease id) (Event.label id)
    (fun _ _ _ hreach hs => step_lease hreach hs id) hreach

/-- The lease of a row that is in the table. -/
theorem Db.lease_of_mem {t : Task} (ht : t ∈ db.tasks) : db.lease t.id = t.lease := by
  rw [Db.lease, Table.get?_of_mem ht]

/-- A row stays, and its attempt only goes up. -/
theorem Trace.row_attempt (hreach : (queue cfg schemas).Reachable db)
    (h : (queue cfg schemas).Trace db es db') {t : Task} (ht : t ∈ db.tasks) :
    ∃ t' ∈ db'.tasks, t'.id = t.id ∧ t.attemptCount ≤ t'.attemptCount := by
  obtain ⟨t', ht', hid⟩ := Trace.row h ht
  have hle := Lease.Trace.token_le (Trace.lease hreach h t.id)
  rw [Db.lease_of_mem ht, ← hid, Db.lease_of_mem ht'] at hle
  exact ⟨t', ht', hid, hle⟩

/-- To a task that has ended nothing more happens. -/
theorem label_of_terminal (hreach : (queue cfg schemas).Reachable db) {t : Task}
    (ht : t ∈ db.tasks) (hterm : t.status.isTerminal = true)
    (h : (queue cfg schemas).Trace db es db') : ∀ e ∈ es, e.label t.id = .silent := by
  have hclosed : (db.lease t.id).phase = .closed := by
    rw [Db.lease_of_mem ht, Task.lease_terminal hterm]
  intro e he
  exact (Lease.Trace.of_closed (Trace.lease hreach h t.id) hclosed).1 _ (List.mem_map_of_mem he)

end

end TaskFleet.Model
