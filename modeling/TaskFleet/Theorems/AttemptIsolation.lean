import TaskFleet.Logic.ClaimHistory

/-!
# Reports carry no attempt

`task_started` and `task_failed` name a task and, through the session, a
worker; which attempt they are about they do not say. `mark_status` goes by
ownership alone, so a report of an attempt that is over is told apart from a
report of the current one only by who sends it. Hence the exact condition:
late reports are without effect as long as no worker that owes one is handed
the same task again (`attempt_isolation`), and a run that reclaims a task and
gives it back to the worker that lost it shows what happens otherwise.

A message may be delayed, repeated or reordered at will, so in the model any
report may be handled at any time after the claim of its attempt.
-/

namespace TaskFleet.Model

open Py Sql

/-- The task and the worker a state report is about. -/
def Event.report (e : Event) : Option (String × Uuid) :=
  match e.op with
  | .start taskId w => some (taskId, w)
  | .fail taskId w _ _ => some (taskId, w)
  | _ => none

/-- The states a report moves a task from. -/
def Event.movesFrom (e : Event) (s : TaskState) : Bool :=
  match e.op with
  | .start _ _ => s == .assigned
  | .fail _ _ _ _ => s.isLive
  | _ => false

/-- A transaction and, when it handles a report, the attempt whose execution
produced the message. -/
structure Sourced where
  event : Event
  attempt : ℕ

/-- The queue with the origin of every report on record. The state keeps the
history, because a worker reports on an attempt only after it was given it. -/
def sourcedQueue (cfg : Config) (schemas : Schemas) : System (List Event × Db) Sourced where
  init s := s.1 = [] ∧ (queue cfg schemas).init s.2
  step s x s' := (queue cfg schemas).step s.2 x.event s'.2 ∧ s'.1 = s.1 ++ [x.event] ∧
    ∀ taskId w, x.event.report = some (taskId, w) → ∀ id, Uuid.parse taskId = some id →
      Claimed s.1 id x.attempt w

/-- The message is `w`'s report on an attempt of `t` that is not its current
one. -/
def Sourced.StaleFor (db : Db) (x : Sourced) (t : Task) (w : Uuid) : Prop :=
  t ∈ db.tasks ∧ x.attempt ≠ t.attemptCount ∧
    ∃ taskId, x.event.report = some (taskId, w) ∧ Uuid.parse taskId = some t.id

/-- What a report may touch of a task is the same in both databases. -/
def SameProgress (db db' : Db) (id : Uuid) : Prop :=
  (db'.tasks.get? id).map (fun t => (t.status, t.startedAt, t.deadlineAt, t.leaseExpiresAt)) =
    (db.tasks.get? id).map (fun t => (t.status, t.startedAt, t.deadlineAt, t.leaseExpiresAt)) ∧
  db'.attempts = db.attempts

/-- The step lets no report of another attempt have an effect. -/
def Isolated (s : List Event × Db) (x : Sourced) (s' : List Event × Db) : Prop :=
  ∀ t w, x.StaleFor s.2 t w → SameProgress s.2 s'.2 t.id

/-- No report of another attempt comes from the worker that now holds the
task, in a state the report would move it from. -/
def NotHeldAgain (s : List Event × Db) (x : Sourced) : Prop :=
  ∀ t w, x.StaleFor s.2 t w →
    ¬ (Claimed s.1 t.id t.attemptCount w ∧ x.event.movesFrom t.status = true)

/-- A report moves live rows only. -/
theorem isLive_of_movesFrom {e : Event} {s : TaskState} (h : e.movesFrom s = true) :
    s.isLive = true := by
  unfold Event.movesFrom at h
  split at h
  · rw [beq_iff_eq.mp h]
    rfl
  · exact h
  · cases h

section

variable {cfg : Config} {schemas : Schemas} {db db' : Db} {e : Event} {es : List Event}

/-- A row whose status changed did not keep its progress. -/
theorem not_sameProgress_of_update {t : Task} (ht : t ∈ db.tasks) {f : Task → Task}
    (hf : ∀ t, (f t).id = t.id) (hstatus : (f t).status ≠ t.status)
    (htasks : db'.tasks = (db.updateTask t.id f hf).tasks) : ¬ SameProgress db db' t.id := by
  rintro ⟨hrow, -⟩
  have hget : db'.tasks.get? t.id = some (f t) :=
    Table.get?_eq_some_iff.mpr ⟨by rw [htasks]; exact Db.mem_updateTask hf ht rfl, hf t⟩
  rw [hget, Table.get?_of_mem ht] at hrow
  simp only [Option.map_some, Option.some.injEq, Prod.mk.injEq] at hrow
  exact hstatus hrow.1

/-- **What a report does.** It has an effect exactly when it comes from the
row's assignee and finds the row in a state it moves from. -/
theorem report_effect_iff (hs : (queue cfg schemas).step db e db') {taskId : String} {w : Uuid}
    (hrep : e.report = some (taskId, w)) {t : Task} (ht : t ∈ db.tasks)
    (hid : Uuid.parse taskId = some t.id) :
    SameProgress db db' t.id ↔
      ¬ (t.assignedWorkerId = some w ∧ e.movesFrom t.status = true) := by
  obtain ⟨-, happly⟩ := hs
  obtain ⟨now, op, reply⟩ := e
  cases op with
  | start taskId' w' =>
      obtain ⟨rfl, rfl⟩ := Prod.mk.inj (Option.some.inj hrep)
      simp only [apply, markStatus, hid, Prod.mk.injEq] at happly
      have hedge : TaskState.running ∈ t.status.allowed ↔
          Event.movesFrom ⟨now, .start taskId' w', reply⟩ t.status = true := by
        simp [Event.movesFrom, running_mem_allowed]
      rw [← hedge]
      -- moved by its holder along an edge, or not at all: the two sides of the
      -- equivalence are the two cases
      rcases markStatusAt_cases cfg db now t.id w' .running with
        ⟨row, hrow, howner, hallowed, hmark⟩ | ⟨outcome, hne, hmark⟩
      · obtain ⟨hmem, hkey⟩ := Table.get?_eq_some_iff.mp hrow
        obtain rfl := Table.eq_of_key hmem ht hkey
        rw [hmark] at happly
        refine iff_of_false ?_ (fun h => h ⟨howner, hallowed⟩)
        refine not_sameProgress_of_update ht Task.mark_id ?_ (by rw [← happly.1])
        rw [running_mem_allowed.mp hallowed]
        simp [Task.mark]
      · rw [hmark] at happly
        obtain ⟨rfl, -⟩ := happly
        refine iff_of_true ⟨rfl, rfl⟩ ?_
        rintro ⟨howner, hallowed⟩
        rw [markStatusAt_of_edge ht howner hallowed] at hmark
        exact hne (Prod.mk.inj hmark).2.symm
  | fail taskId' w' errorType correlationId =>
      obtain ⟨rfl, rfl⟩ := Prod.mk.inj (Option.some.inj hrep)
      simp only [apply, failTask, markStatus, hid, Prod.mk.injEq] at happly
      have hedge : TaskState.failed ∈ t.status.allowed ↔
          Event.movesFrom ⟨now, .fail taskId' w' errorType correlationId, reply⟩
            t.status = true := by
        simp [Event.movesFrom, failed_mem_allowed]
      rw [← hedge]
      rcases markStatusAt_cases cfg db now t.id w' .failed with
        ⟨row, hrow, howner, hallowed, hmark⟩ | ⟨outcome, hne, hmark⟩
      · obtain ⟨hmem, hkey⟩ := Table.get?_eq_some_iff.mp hrow
        obtain rfl := Table.eq_of_key hmem ht hkey
        rw [hmark] at happly
        refine iff_of_false ?_ (fun h => h ⟨howner, hallowed⟩)
        refine not_sameProgress_of_update ht Task.mark_id ?_
          (by rw [← happly.1, recordExecutionFailure_tasks])
        intro hsame
        have hlive := failed_mem_allowed.mp hallowed
        rw [← hsame] at hlive
        cases hlive
      · rw [hmark] at happly
        split at happly
        · next hout => exact absurd (Prod.mk.inj hout).2 hne
        · obtain ⟨rfl, -⟩ := happly
          refine iff_of_true ⟨rfl, rfl⟩ ?_
          rintro ⟨howner, hallowed⟩
          rw [markStatusAt_of_edge ht howner hallowed] at hmark
          exact hne (Prod.mk.inj hmark).2.symm
  | _ => cases hrep

/-- What the marked queue does, the queue does. -/
theorem Reachable.run {s : List Event × Db} (h : (sourcedQueue cfg schemas).Reachable s) :
    (queue cfg schemas).Run s.1 s.2 := by
  refine h.invariant (P := fun s => (queue cfg schemas).Run s.1 s.2) ?_ ?_
  · rintro s ⟨hnil, hinit⟩
    rw [hnil]
    exact .nil hinit
  · rintro s x s' - ih ⟨hs, hes, -⟩
    rw [hes]
    exact ih.snoc hs

theorem sourcedQueue_deterministic : (sourcedQueue cfg schemas).Deterministic := by
  rintro s x ⟨es₁, db₁⟩ ⟨es₂, db₂⟩ ⟨hs₁, hes₁, -⟩ ⟨hs₂, hes₂, -⟩
  exact Prod.ext (hes₁.trans hes₂.symm) (queue_deterministic cfg schemas _ _ _ _ hs₁ hs₂)

/-- **One step.** A report of another attempt is without effect exactly when
its sender does not hold the task now. -/
theorem step_isolated_iff {s s' : List Event × Db} {x : Sourced}
    (hreach : (sourcedQueue cfg schemas).Reachable s)
    (hs : (sourcedQueue cfg schemas).step s x s') :
    Isolated s x s' ↔ NotHeldAgain s x := by
  have hrun := Reachable.run hreach
  have hholds : ∀ t ∈ s.2.tasks, ∀ w,
      (t.assignedWorkerId = some w ∧ x.event.movesFrom t.status = true) ↔
      (Claimed s.1 t.id t.attemptCount w ∧ x.event.movesFrom t.status = true) := by
    intro t ht w
    exact and_congr_left fun hmoves => Run.holder_iff hrun ht (isLive_of_movesFrom hmoves) w
  refine forall_congr' fun t => forall_congr' fun w => forall_congr' fun hstale => ?_
  obtain ⟨ht, -, taskId, hrep, hid⟩ := hstale
  rw [report_effect_iff hs.1 hrep ht hid, hholds t ht w]

/-- **Attempt isolation, exactly.** In every run, with reports delayed,
repeated and reordered at will: no report of another attempt than the task's
current one changes the task's status, start, deadline or lease or adds an
attempt row, if and only if no such report comes from the worker that the
current attempt was handed to and finds the task in a state it moves from. -/
theorem attempt_isolation {s₀ s : List Event × Db} {xs : List Sourced}
    (hinit : (sourcedQueue cfg schemas).init s₀) (h : (sourcedQueue cfg schemas).Trace s₀ xs s) :
    ((sourcedQueue cfg schemas).guarded NotHeldAgain).Trace s₀ xs s ↔
      ∀ as x bs u u', xs = as ++ x :: bs → (sourcedQueue cfg schemas).Trace s₀ as u →
        (sourcedQueue cfg schemas).step u x u' → Isolated u x u' :=
  System.Trace.guarded_iff_steps (G := NotHeldAgain) (Q := Isolated) sourcedQueue_deterministic
    (fun _ _ _ hreach hs => step_isolated_iff hreach hs) (System.Run.nil hinit).reachable h

end

/-- A run without reports is a run of the marked queue. -/
theorem Trace.sourced {cfg : Config} {schemas : Schemas} {db₀ db : Db} {es : List Event}
    (h : (queue cfg schemas).Trace db₀ es db) (hnone : ∀ e ∈ es, e.report = none) :
    (sourcedQueue cfg schemas).Trace ([], db₀) (es.map fun e => ⟨e, 0⟩) (es, db) := by
  induction h with
  | nil => exact .nil
  | @snoc es u v e htr hs ih =>
      rw [List.map_append, List.map_singleton]
      refine (ih fun f hf => hnone f (List.mem_append_left _ hf)).snoc ⟨hs, rfl, ?_⟩
      intro taskId w hrep
      rw [hnone e (by simp)] at hrep
      cases hrep

namespace Demo

/-- Reclaimed at 40, the task goes back to the same worker once its exclusion
is over. -/
def reissued : List (Seconds × Op) := reclaimed ++ [(200, .dequeue worker 1 100 none [])]

theorem reissued_playable : Playable {} schemas .empty reissued :=
  ⟨rfl, trivial, fun _ => by constructor <;> norm_num, trivial, trivial⟩

/-- Only now does the failure of attempt 0 arrive. -/
def lateFailure : Op := .fail task.str worker "ValueError" ""

theorem reissued_sourced :
    (sourcedQueue {} schemas).Trace ([], .empty)
      ((play {} schemas .empty reissued).1.map fun e => ⟨e, 0⟩)
        (play {} schemas .empty reissued) := by
  have hnone : ∀ e ∈ (play {} schemas .empty reissued).1, e.report = none := by decide +kernel
  exact Trace.sourced (play_trace reissued_playable) hnone

/-- Attempt 0 was claimed by the worker before it was reclaimed. -/
theorem reissued_claimed : Claimed (play {} schemas .empty reissued).1 task 0 worker := by
  refine ⟨_, .tail _ (.head _), ⟨1, 100, none, [], rfl⟩, ?_⟩
  decide +kernel

end Demo

/-- The run that takes the task back and hands it out again: no report yet. -/
theorem attempt_isolation_reissued :
    ((sourcedQueue {} Demo.schemas).guarded NotHeldAgain).Trace ([], .empty)
        ((play {} Demo.schemas .empty Demo.reissued).1.map fun e => ⟨e, 0⟩)
        (play {} Demo.schemas .empty Demo.reissued) ↔
      ∀ as x bs u u', ((play {} Demo.schemas .empty Demo.reissued).1.map fun e => ⟨e, 0⟩) =
          as ++ x :: bs → (sourcedQueue {} Demo.schemas).Trace ([], .empty) as u →
        (sourcedQueue {} Demo.schemas).step u x u' → Isolated u x u' :=
  attempt_isolation ⟨rfl, rfl, rfl, rfl⟩ Demo.reissued_sourced

/-- The failure report of attempt 0 ends attempt 1: the row turns `FAILED` and
gets an attempt row, because the worker is the same. -/
theorem late_failure_not_isolated :
    ∃ s s' t, (sourcedQueue {} Demo.schemas).Reachable s ∧
      (sourcedQueue {} Demo.schemas).step s
        ⟨⟨201, Demo.lateFailure, .moved .transitioned⟩, 0⟩ s' ∧
      t ∈ s.2.tasks ∧ t.id = Demo.task ∧ t.status = .assigned ∧ t.attemptCount = 1 ∧
      (∃ t' ∈ s'.2.tasks, t'.id = t.id ∧ t'.attemptCount = 1 ∧ t'.status = .failed) ∧
      ¬ Isolated s ⟨⟨201, Demo.lateFailure, .moved .transitioned⟩, 0⟩ s' := by
  obtain ⟨t, ht, hid, hstatus, hattempt⟩ :
      ∃ t ∈ (play {} Demo.schemas .empty Demo.reissued).2.tasks.rows,
        t.id = Demo.task ∧ t.status = .assigned ∧ t.attemptCount = 1 := by
    decide +kernel
  obtain ⟨t', ht', hid', hattempt', hstatus'⟩ :
      ∃ t' ∈ (apply {} Demo.schemas (play {} Demo.schemas .empty Demo.reissued).2 201
          Demo.lateFailure).1.tasks.rows,
        t'.id = Demo.task ∧ t'.attemptCount = 1 ∧ t'.status = .failed := by
    decide +kernel
  have hreply : (apply {} Demo.schemas (play {} Demo.schemas .empty Demo.reissued).2 201
      Demo.lateFailure).2 = .moved .transitioned := by
    show Reply.moved (failTask _ _ _ _ _ _ _).2 = _
    congr 1
    decide +kernel
  have hstep : (sourcedQueue {} Demo.schemas).step (play {} Demo.schemas .empty Demo.reissued)
      ⟨⟨201, Demo.lateFailure, .moved .transitioned⟩, 0⟩
      ((play {} Demo.schemas .empty Demo.reissued).1 ++
        [⟨201, Demo.lateFailure, .moved .transitioned⟩],
        (apply {} Demo.schemas (play {} Demo.schemas .empty Demo.reissued).2 201
          Demo.lateFailure).1) := by
    refine ⟨⟨trivial, by rw [← hreply]⟩, rfl, ?_⟩
    intro taskId w hrep id hparse
    obtain ⟨rfl, rfl⟩ := Prod.mk.inj (Option.some.inj hrep)
    rw [Uuid.parse_str, Option.some.injEq] at hparse
    rw [← hparse]
    exact Demo.reissued_claimed
  have hreach : (sourcedQueue {} Demo.schemas).Reachable
      (play {} Demo.schemas .empty Demo.reissued) :=
    ⟨_, _, ⟨rfl, rfl, rfl, rfl⟩, Demo.reissued_sourced⟩
  refine ⟨_, _, t, hreach, hstep, ht, hid, hstatus, hattempt,
    ⟨t', ht', hid'.trans hid.symm, hattempt', hstatus'⟩, fun hiso => ?_⟩
  obtain ⟨hsame, -⟩ := hiso t Demo.worker
    ⟨ht, by simp [hattempt], Demo.task.str, rfl, by rw [Uuid.parse_str, hid]⟩
  rw [Table.get?_of_mem ht, Table.get?_eq_some_iff.mpr ⟨ht', hid'.trans hid.symm⟩] at hsame
  simp [hstatus, hstatus'] at hsame

end TaskFleet.Model
