import TaskFleet.Logic.RowSteps

/-!
# The shape of a row

Which columns are null in which status. The reclaimer passes over a live row
whose lease is null, so a row of the wrong shape would be lost without any
error; that no run produces one is `Reachable.shape`, from `RowStep` alone.
-/

namespace TaskFleet.Model

open Py Sql

/-- The columns of a row agree with its status. -/
structure Task.Shape (t : Task) : Prop where
  /-- A live row has a holder, a delivery time and both clocks. -/
  live : t.status.isLive = true → t.assignedWorkerId.isSome = true ∧ t.assignedAt.isSome = true ∧
    t.leaseExpiresAt.isSome = true ∧ t.deadlineAt.isSome = true
  /-- A live row has started exactly when it is `RUNNING`. -/
  started : t.status.isLive = true → (t.status = .running ↔ t.startedAt.isSome = true)
  /-- A queued row has none of the five. -/
  queued : t.status = .queued → t.assignedWorkerId = none ∧ t.assignedAt = none ∧
    t.startedAt = none ∧ t.leaseExpiresAt = none ∧ t.deadlineAt = none
  /-- A queued row is fresh, or it names who lost it and when it may go out again. -/
  retry : t.status = .queued →
    (t.attemptCount = 0 ∧ t.notBefore = none ∧ t.excludedWorkerId = none) ∨
    (0 < t.attemptCount ∧ t.notBefore.isSome = true ∧ t.excludedWorkerId.isSome = true)
  /-- `REASSIGNED` is never a status. -/
  notReassigned : t.status ≠ .reassigned

/-- The columns about a live attempt are null once there will be none. -/
def Task.Clean (t : Task) : Prop :=
  t.leaseExpiresAt = none ∧ t.deadlineAt = none ∧ t.notBefore = none ∧ t.excludedWorkerId = none

theorem heldLive_holds {w : Uuid} {t : Task} :
    (heldLive w t).holds = true ↔ t.assignedWorkerId = some w ∧ t.status.isLive = true := by
  simp [heldLive, rel_holds_iff]

theorem claimable_queued {cfg : Config} {now : Seconds} {w : Uuid}
    {taskTypes : Option (List String)} {t : Task}
    (h : (claimable cfg now w taskTypes t).holds = true) : t.status = .queued := by
  simp only [claimable, Tri.holds_and, test_holds, Bool.and_eq_true, beq_iff_eq] at h
  exact h.1

theorem expired_holds {now : Seconds} {t : Task} :
    (expired now t).holds = true ↔
      t.status.isLive = true ∧ ∃ lease, t.leaseExpiresAt = some lease ∧ lease < now := by
  simp only [expired, Tri.holds_and, test_holds, isNotNull_holds, Bool.and_eq_true, rel_holds_iff,
    Option.some.injEq, decide_eq_true_eq]
  constructor
  · rintro ⟨hlive, -, lease, _, hlease, rfl, hlt⟩
    exact ⟨hlive, lease, hlease, hlt⟩
  · rintro ⟨hlive, lease, hlease, hlt⟩
    exact ⟨hlive, by simp [hlease], lease, now, hlease, rfl, hlt⟩

theorem TaskState.ne_queued_of_isLive {s : TaskState} (h : s.isLive = true) : s ≠ .queued := by
  rintro rfl
  cases h

theorem queuedRow_shape {now : Seconds} {id : Uuid} {taskType : TaskType} {parameters : Json}
    {payload : Option Json} {priority : Int} {correlationId : String} :
    (queuedRow now id taskType parameters payload priority correlationId).Shape where
  live h := by cases h
  started h := by cases h
  queued _ := ⟨rfl, rfl, rfl, rfl, rfl⟩
  retry _ := .inl ⟨rfl, rfl, rfl⟩
  notReassigned := by simp [queuedRow]

/-- A row that ended has any shape it likes as far as `Shape` is concerned. -/
theorem Task.shape_of_isTerminal {t : Task} (h : t.status.isTerminal = true) : t.Shape := by
  refine ⟨fun hl => ?_, fun hl => ?_, fun hq => ?_, fun hq => ?_, fun hr => ?_⟩
  · rw [TaskState.not_isTerminal_of_isLive hl] at h; cases h
  · rw [TaskState.not_isTerminal_of_isLive hl] at h; cases h
  · rw [hq] at h; cases h
  · rw [hq] at h; cases h
  · rw [hr] at h; cases h

/-- **One step keeps the shape.** -/
theorem RowStep.shape {cfg : Config} {db : Db} {e : Event} {t t' : Task} (h : RowStep cfg db e t t')
    (hshape : t.Shape) : t'.Shape := by
  cases h with
  | keep => exact hshape
  | claim hop hwhere hlabel =>
      have hq := hshape.queued (claimable_queued hwhere)
      refine ⟨fun _ => ⟨rfl, rfl, rfl, rfl⟩, fun _ => ?_, ?_, ?_, ?_⟩
      · simp [Task.claim, hq.2.2.1]
      · intro h; cases h
      · intro h; cases h
      · simp [Task.claim]
  | start hop hreply hid howner hstatus hlabel =>
      have hlive := hshape.live (by rw [hstatus]; rfl)
      refine ⟨fun _ => ⟨hlive.1, hlive.2.1, rfl, rfl⟩, fun _ => ?_, ?_, ?_, ?_⟩
      · simp [Task.mark]
      · intro h; cases h
      · intro h; cases h
      · simp [Task.mark]
  | fail => exact Task.shape_of_isTerminal rfl
  | complete => exact Task.shape_of_isTerminal rfl
  | renew hwhere hlabel =>
      obtain ⟨-, hlive⟩ := heldLive_holds.mp hwhere
      refine ⟨fun h => ?_, hshape.started, fun h => ?_, fun h => ?_, hshape.notReassigned⟩
      · have := hshape.live h
        exact ⟨this.1, this.2.1, least_isSome_left _ _, this.2.2.2⟩
      · exact absurd h (TaskState.ne_queued_of_isLive hlive)
      · exact absurd h (TaskState.ne_queued_of_isLive hlive)
  | shorten hwhere hlabel =>
      obtain ⟨-, hlive⟩ := heldLive_holds.mp hwhere
      refine ⟨fun h => ?_, hshape.started, fun h => ?_, fun h => ?_, hshape.notReassigned⟩
      · have := hshape.live h
        exact ⟨this.1, this.2.1, least_isSome_right _ _, this.2.2.2⟩
      · exact absurd h (TaskState.ne_queued_of_isLive hlive)
      · exact absurd h (TaskState.ne_queued_of_isLive hlive)
  | reclaim hop hwhere hlabel =>
      have hlive := hshape.live (expired_holds.mp hwhere).1
      -- the last attempt ends the task, an earlier one queues it again
      cases hex : t.exhausted cfg db.policies with
      | true => exact Task.shape_of_isTerminal (by simp [Task.reclaim, hex, TaskState.isTerminal])
      | false =>
          refine ⟨fun h => ?_, fun h => ?_, fun _ => ⟨rfl, rfl, rfl, rfl, rfl⟩,
            fun _ => .inr ?_, ?_⟩
          · simp [Task.reclaim, hex, TaskState.isLive] at h
          · simp [Task.reclaim, hex, TaskState.isLive] at h
          · simp [Task.reclaim, hex, hlive.1]
          · simp [Task.reclaim, hex]
  | cancel => exact Task.shape_of_isTerminal rfl
  | purge => exact ⟨hshape.live, hshape.started, hshape.queued, hshape.retry, hshape.notReassigned⟩

/-- A row that ended is changed by nothing but a purge. -/
theorem RowStep.of_terminal {cfg : Config} {db : Db} {e : Event} {t t' : Task}
    (h : RowStep cfg db e t t') (hterm : t.status.isTerminal = true) :
    t' = t ∨ ∃ days, e.op = .purge days ∧ t' = t.clearResult := by
  have hnotLive : ¬ t.status.isLive = true := by
    intro hlive
    rw [TaskState.not_isTerminal_of_isLive hlive] at hterm
    cases hterm
  cases h with
  | keep => exact .inl rfl
  | purge hop => exact .inr ⟨_, hop, rfl⟩
  | claim hop hwhere => rw [claimable_queued hwhere] at hterm; cases hterm
  | start hop hreply hid howner hstatus => rw [hstatus] at hterm; cases hterm
  | fail hop hreply hid howner hlive => exact absurd hlive hnotLive
  | complete hop hreply hid howner hlive => exact absurd hlive hnotLive
  | renew hwhere => exact absurd (heldLive_holds.mp hwhere).2 hnotLive
  | shorten hwhere => exact absurd (heldLive_holds.mp hwhere).2 hnotLive
  | reclaim hop hwhere => exact absurd (expired_holds.mp hwhere).1 hnotLive
  | cancel hop hid hstatus => rw [hstatus] at hterm; cases hterm

/-- A row stays of its type. -/
theorem RowStep.taskType {cfg : Config} {db : Db} {e : Event} {t t' : Task}
    (h : RowStep cfg db e t t') : t'.taskType = t.taskType := by
  cases h <;> rfl

section

variable {cfg : Config} {schemas : Schemas} {db db' : Db} {e : Event} {es : List Event}

/-- A row that ended stays, with its attempt, and its pointer can only go. -/
theorem Trace.terminal_row (h : (queue cfg schemas).Trace db es db') {t : Task} (ht : t ∈ db.tasks)
    (hterm : t.status.isTerminal = true) :
    ∃ t' ∈ db'.tasks, t'.id = t.id ∧ t'.status = t.status ∧ t'.attemptCount = t.attemptCount ∧
      (t'.resultId = t.resultId ∨ t'.resultId = none) := by
  induction h with
  | nil => exact ⟨t, ht, rfl, rfl, rfl, .inl rfl⟩
  | snoc _ hs ih =>
      obtain ⟨u, hu, hid, hstatus, hattempt, hresult⟩ := ih
      obtain ⟨u', hu', hrow, -⟩ := (step_rows hs).forward u hu
      rcases hrow.of_terminal (hstatus.symm ▸ hterm) with rfl | ⟨days, -, rfl⟩
      · exact ⟨u', hu', hid, hstatus, hattempt, hresult⟩
      · exact ⟨_, hu', hid, hstatus, hattempt, .inr rfl⟩

/-- No row is ever lost. -/
theorem Trace.row (h : (queue cfg schemas).Trace db es db') {t : Task} (ht : t ∈ db.tasks) :
    ∃ t' ∈ db'.tasks, t'.id = t.id := by
  induction h with
  | nil => exact ⟨t, ht, rfl⟩
  | snoc _ hs ih =>
      obtain ⟨u, hu, hid⟩ := ih
      obtain ⟨u', hu', -, hid'⟩ := (step_rows hs).forward u hu
      exact ⟨u', hu', hid'.trans hid⟩

/-- A property of rows that a fresh row has and every `RowStep` keeps holds of
every reachable row. -/
theorem reachable_rows {P : Task → Prop}
    (hnew : ∀ e t, Enqueued e t → P t)
    (hstep : ∀ db e t t', (queue cfg schemas).Reachable db → t ∈ db.tasks → RowStep cfg db e t t' →
      P t → P t')
    (h : (queue cfg schemas).Reachable db) : ∀ t ∈ db.tasks, P t := by
  refine h.invariant (P := fun db => ∀ t ∈ db.tasks, P t) ?_ ?_
  · rintro db ⟨htasks, -, -⟩ t ht
    rw [htasks] at ht
    exact absurd ht (Table.not_mem_empty t)
  · intro db e db' hreach ih hs t' ht'
    rcases (step_rows hs).backward t' ht' with ⟨t, ht, hrow, -⟩ | ⟨hfresh, -⟩
    · exact hstep db e t t' hreach ht hrow (ih t ht)
    · exact hnew e t' hfresh

/-- **Every reachable row has its shape.** -/
theorem reachable_shape (h : (queue cfg schemas).Reachable db) : ∀ t ∈ db.tasks, t.Shape := by
  refine reachable_rows ?_ ?_ h
  · rintro e t ⟨req, taskType, parameters, -, -, heq⟩
    rw [heq]
    exact queuedRow_shape
  · intro db e t t' _ _ hrow hshape
    exact hrow.shape hshape

/-- The holder of a live row. -/
theorem Task.Shape.holder {t : Task} (h : t.Shape) (hlive : t.status.isLive = true) :
    ∃ w, t.assignedWorkerId = some w :=
  Option.isSome_iff_exists.mp (h.live hlive).1

/-- A row is queued, live or ended. -/
theorem Task.Shape.cases {t : Task} (h : t.Shape) :
    t.status = .queued ∨ t.status.isLive = true ∨ t.status.isTerminal = true := by
  have := h.notReassigned
  cases hs : t.status <;> simp_all [TaskState.isLive, TaskState.isTerminal]

end

end TaskFleet.Model
