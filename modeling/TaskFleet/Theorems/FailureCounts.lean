import TaskFleet.Lib.KeyedCounts
import TaskFleet.Logic.AttemptHistory
import TaskFleet.Model.TaskViews

/-!
# What a worker is charged with

`worker_failure_counts` groups the rows of `task_attempts`. Apart from the fences these rows
are the attempts that a sweep took from a worker and the failures a worker reported, one row
for each and in the order of the calls (`Run.losses`): the `NOT EXISTS` of
`record_execution_failure` never keeps one out, because a task that can still be reported
has no `FAILED` row yet. So the counters are the losses of the history, worker by worker.
-/

namespace TaskFleet.Model

open Py Sql

/-- An attempt that was lost: by whom, how, and when it was noticed. -/
structure Loss where
  workerId : Option Uuid
  outcome : AttemptOutcome
  time : Seconds
  deriving DecidableEq

/-- What a row of the attempt history says of it. -/
def TaskAttempt.loss (a : TaskAttempt) : Loss := ⟨a.workerId, a.outcome, a.recordedAt⟩

/-- The losses a database shows. -/
def Db.losses (db : Db) : List Loss :=
  (db.attempts.filter fun a => a.outcome ≠ .fenced).map TaskAttempt.loss

/-- The attempts an event ends without a result: those a sweep took back, and the one its
holder reported as failed. -/
def Event.losses (e : Event) : List Loss :=
  match e.op with
  | .fail _ w _ _ => if e.reply.done then [⟨some w, .failed, e.now⟩] else []
  | .reclaim _ _ _ => e.reply.reclaims.map fun r =>
      ⟨r.previousWorkerId, if r.status = .failed then .failed else .reassigned, e.now⟩
  | _ => []

/-- What the worker `w` lost in one way. -/
def lossesOf (w : Uuid) (outcome : AttemptOutcome) (es : List Event) : List Loss :=
  (es.flatMap Event.losses).filter fun x => x.workerId = some w ∧ x.outcome = outcome

/-- The counter of a worker that lost `l` in one way. -/
def counterOf (w : Uuid) (outcome : AttemptOutcome) (l : List Loss) : List FailureCount :=
  if l = [] then []
  else [⟨w, outcome, l.length, ((l.map Loss.time).max?).getD 0⟩]

section

variable {cfg : Config} {schemas : Schemas} {db db' : Db} {e : Event} {es : List Event}

/-! ## One event -/

theorem losses_append {new : List TaskAttempt} (h : db'.attempts = db.attempts ++ new) :
    db'.losses = db.losses ++ (new.filter fun a => a.outcome ≠ .fenced).map TaskAttempt.loss := by
  rw [Db.losses, h, List.filter_append, List.map_append]
  rfl

theorem losses_eq_of_attempts (h : db'.attempts = db.attempts) : db'.losses = db.losses := by
  rw [Db.losses, h]
  rfl

/-- A fence is no loss. -/
theorem recordAttemptOnce_losses {a : TaskAttempt} (h : a.outcome = .fenced) :
    (db.recordAttemptOnce a).losses = db.losses := by
  rcases db.recordAttemptOnce_eq a with hsame | hadd
  · rw [hsame]
  · rw [hadd, losses_append rfl]
    simp [h]

/-- What is recorded for the first time is one. -/
theorem recordAttemptOnce_new_losses {a : TaskAttempt} (hloss : a.outcome ≠ .fenced)
    (hnew : ∀ b ∈ db.attempts, b.taskId = a.taskId → b.outcome ≠ a.outcome) :
    (db.recordAttemptOnce a).losses = db.losses ++ [a.loss] := by
  have hnone : ¬ (db.attempts.any fun b => b.taskId = a.taskId ∧ b.workerId = a.workerId ∧
      b.attemptNumber = a.attemptNumber ∧ b.outcome = a.outcome) = true := by
    rw [List.any_eq_true]
    rintro ⟨b, hb, hsame⟩
    obtain ⟨htask, -, -, hout⟩ := of_decide_eq_true hsame
    exact hnew b hb htask hout
  rw [Db.recordAttemptOnce, if_neg hnone, losses_append rfl]
  simp [hloss]

theorem recordFence_losses (now : Seconds) (row : Task) (envelope : Envelope) (w : Uuid)
    (isAssignee : Bool) : (recordFence db now row envelope w isAssignee).losses = db.losses := by
  unfold recordFence
  split
  · exact recordAttemptOnce_losses rfl
  · rfl

/-- A task that is still worked on has no `FAILED` row. -/
theorem unfailed_of_live (hrun : (queue cfg schemas).Run es db) {t : Task} (ht : t ∈ db.tasks)
    (hlive : t.status.isLive = true) : ∀ a ∈ db.attempts, a.taskId = t.id →
    a.outcome ≠ .failed := by
  intro a ha htask hfailed
  have hhistory := ((Run.timeline hrun t ht).reassigned (TaskState.ne_failed_of_isLive hlive)).1
  have hmem : a ∈ db.endings t.id := by
    refine List.mem_filter.mpr ⟨ha, ?_⟩
    simp [htask, hfailed]
  have hout := hhistory.outcome _ (List.mem_map_of_mem hmem)
  rw [show a.outcome = .reassigned from hout] at hfailed
  cases hfailed

/-- The report of a failure that is accepted leaves its row. -/
theorem failTask_losses (hrun : (queue cfg schemas).Run es db) {now : Seconds}
    {taskId errorType correlationId : String} {w : Uuid} :
    (failTask cfg db now taskId w errorType correlationId).1.losses = db.losses ++
      if (failTask cfg db now taskId w errorType correlationId).2 = .transitioned then
        [⟨some w, .failed, now⟩] else [] := by
  cases hparse : Uuid.parse taskId with
  | none => simp [failTask, markStatus, hparse]
  | some i =>
      rcases markStatusAt_cases cfg db now i w .failed with
        ⟨row, hrow, howner, hedge, hmark⟩ | ⟨answer, hanswer, hmark⟩
      · obtain ⟨hmem, rfl⟩ := Table.get?_eq_some_iff.mp hrow
        have hlive : row.status.isLive = true := failed_mem_allowed.mp hedge
        have hrow' := Table.get?_of_mem (Db.mem_updateTask
          (f := Task.mark cfg db.policies now .failed) Task.mark_id hmem rfl)
        rw [Task.mark_id] at hrow'
        simp only [failTask, markStatus, hparse, hmark, recordExecutionFailure,
          recordExecutionFailureAt, hrow', if_true]
        rw [recordAttemptOnce_new_losses (by simp) (unfailed_of_live hrun hmem hlive)]
        rfl
      · have hsame : failTask cfg db now taskId w errorType correlationId = (db, answer) := by
          simp only [failTask, markStatus, hparse, hmark]
        rw [hsame, if_neg hanswer, List.append_nil]

/-- **One step** records what its event lost. -/
theorem step_losses (hrun : (queue cfg schemas).Run es db)
    (hs : (queue cfg schemas).step db e db') :
    db'.losses = db.losses ++ e.losses := by
  -- an operation that records nothing loses nothing
  cases hrec : e.op.records with
  | false =>
      have hnothing : e.losses = [] := by
        unfold Event.losses
        cases hop : e.op <;> first | rfl | (rw [hop] at hrec; cases hrec)
      rw [hnothing, List.append_nil]
      exact losses_eq_of_attempts (step_frame hs hrec).2
  | true =>
      obtain ⟨-, happly⟩ := hs
      obtain ⟨now, op, reply⟩ := e
      cases op with
      | fail taskId w errorType correlationId =>
          simp only [apply, Prod.mk.injEq] at happly
          obtain ⟨rfl, rfl⟩ := happly
          rw [failTask_losses hrun]
          simp only [Event.losses, Reply.done, decide_eq_true_eq]
      | reclaim batch skip draw =>
          simp only [apply] at happly
          split at happly
          · next rows hok =>
              obtain ⟨rfl, rfl⟩ := Prod.mk.inj happly
              obtain ⟨rfl, -⟩ := reclaimExpiredLeases_eq_ok hok
              rw [losses_append rfl]
              have hall : (rows.map (ReclaimedTask.attempt now)).filter
                  (fun a => a.outcome ≠ .fenced) = rows.map (ReclaimedTask.attempt now) := by
                refine List.filter_eq_self.mpr fun a ha => ?_
                obtain ⟨r, -, rfl⟩ := List.mem_map.mp ha
                simp only [ReclaimedTask.attempt]
                split <;> rfl
              rw [hall, List.map_map]
              rfl
          · next error _ =>
              obtain ⟨rfl, rfl⟩ := Prod.mk.inj happly
              exact (List.append_nil _).symm
      | complete envelope w resultId =>
          simp only [apply, Prod.mk.injEq] at happly
          obtain ⟨rfl, -⟩ := happly
          rw [show Event.losses ⟨now, .complete envelope w resultId, reply⟩ = [] from rfl,
            List.append_nil]
          rcases completeTask_cases db now envelope w resultId with hnone | ⟨row, hrow, hid, hcase⟩
          · rw [hnone]
          · generalize completeTask db now envelope w resultId = r at hcase ⊢
            cases hcase with
            | fenced hstatus hstale hheld => rw [recordFence_losses]
            | _ => rfl
      | purge retentionDays =>
          simp only [apply, Prod.mk.injEq] at happly
          obtain ⟨rfl, -⟩ := happly
          rw [show Event.losses ⟨now, .purge retentionDays, reply⟩ = [] from rfl, List.append_nil]
          refine losses_eq_of_attempts ?_
          unfold purgeExpiredResults
          split <;> rfl
      | _ => cases hrec

/-- **Along a run** the rows that are no fences are the losses, one for one. -/
theorem Run.losses (h : (queue cfg schemas).Run es db) : db.losses = es.flatMap Event.losses := by
  refine h.invariant (I := fun es db => db.losses = es.flatMap Event.losses) ?_ ?_
  · rintro db ⟨-, -, hattempts⟩
    rw [Db.losses, hattempts]
    rfl
  · intro es db e db' hrun ih hs
    rw [step_losses hrun hs, ih, List.flatMap_append, List.flatMap_singleton]

/-! ## The counters -/

/-- The rows of a group, as losses. -/
theorem failureGroup_losses {w : Uuid} {outcome : AttemptOutcome} (houtcome : outcome ≠ .fenced) :
    (failureGroup db w outcome).map TaskAttempt.loss =
      db.losses.filter fun x => x.workerId = some w ∧ x.outcome = outcome := by
  rw [Db.losses, List.filter_map, List.filter_filter, failureGroup]
  refine congrArg _ (List.filter_congr fun a _ => ?_)
  by_cases ha : a.workerId = some w ∧ a.outcome = outcome
  · obtain ⟨hw, ho⟩ := ha
    simp [TaskAttempt.loss, hw, ho, houtcome]
  · have hloss : ¬ (a.loss.workerId = some w ∧ a.loss.outcome = outcome) := ha
    simp only [Function.comp_apply, decide_eq_false ha, decide_eq_false hloss, Bool.false_and]

/-- There is a counter for the groups that have a row. -/
theorem failureCounts_filter (w : Uuid) (outcome : AttemptOutcome) :
    ((workerFailureCounts db).filter fun c => c.workerId = w ∧ c.outcome = outcome) =
      if failureGroup db w outcome = [] then []
      else [⟨w, outcome, (failureGroup db w outcome).length,
        lastRecorded (failureGroup db w outcome)⟩] := by
  let row (group : Uuid × AttemptOutcome) : FailureCount :=
    { workerId := group.1
      outcome := group.2
      failures := (failureGroup db group.1 group.2).length
      lastFailureAt := lastRecorded (failureGroup db group.1 group.2) }
  let keys := db.attempts.filterMap fun a => a.workerId.map fun v => (v, a.outcome)
  have hgroups := filter_map_dedup row (fun c => (c.workerId, c.outcome)) (fun _ => rfl) keys
    (w, outcome)
  have hthere : (w, outcome) ∈ keys ↔ failureGroup db w outcome ≠ [] := by
    rw [List.mem_filterMap, Ne, failureGroup, List.filter_eq_nil_iff]
    push Not
    refine exists_congr fun a => and_congr_right fun _ => ?_
    cases a.workerId <;> simp
  have hperm := ((List.perm_insertionSort (fun a b : FailureCount => b.failures ≤ a.failures)
    (keys.dedup.map row)).filter fun c => (c.workerId, c.outcome) = (w, outcome))
  rw [hgroups] at hperm
  have hpred : (fun c : FailureCount => decide (c.workerId = w ∧ c.outcome = outcome)) =
      fun c => decide ((c.workerId, c.outcome) = (w, outcome)) := by
    funext c
    simp only [Prod.mk.injEq]
  rw [hpred]
  by_cases hnone : failureGroup db w outcome = []
  · rw [if_neg fun hmem => hthere.mp hmem hnone] at hperm
    rw [if_pos hnone]
    exact hperm.eq_nil
  · rw [if_pos (hthere.mpr hnone)] at hperm
    rw [if_neg hnone]
    exact List.perm_singleton.mp hperm

/-- **The counters are the history.** In every reachable state `worker_failure_counts` lists
its counters with the largest first; and of every worker there is one `REASSIGNED` counter if
a sweep ever took an attempt from it that was tried again, and one `FAILED` counter if an
attempt of it was the last one, taken by a sweep or reported by itself. It says how often
that happened, and when last. -/
theorem failure_counts_exact (h : (queue cfg schemas).Run es db) :
    (workerFailureCounts db).Pairwise (fun a b => b.failures ≤ a.failures) ∧
    ∀ w outcome, outcome ≠ .fenced →
      ((workerFailureCounts db).filter fun c => c.workerId = w ∧ c.outcome = outcome) =
        counterOf w outcome (lossesOf w outcome es) := by
  constructor
  · have htotal : Std.Total fun a b : FailureCount => b.failures ≤ a.failures :=
      ⟨fun a b => le_total b.failures a.failures⟩
    have htrans : IsTrans FailureCount fun a b => b.failures ≤ a.failures :=
      ⟨fun a b c hab hbc => le_trans hbc hab⟩
    exact List.pairwise_insertionSort _ _
  · intro w outcome houtcome
    have hgroup : (failureGroup db w outcome).map TaskAttempt.loss = _ :=
      failureGroup_losses houtcome
    rw [Run.losses h] at hgroup
    rw [failureCounts_filter, counterOf, lossesOf, ← hgroup]
    by_cases hnone : failureGroup db w outcome = []
    · rw [if_pos hnone, if_pos (List.map_eq_nil_iff.mpr hnone)]
    · rw [if_neg hnone, if_neg (mt List.map_eq_nil_iff.mp hnone), List.length_map, List.map_map]
      rfl

end

/-- A sweep at 40 took the attempt of the first worker. -/
theorem failure_counts_exact_reclaimed :
    let run := play {} Demo.schemas .empty Demo.reclaimed
    ((workerFailureCounts run.2).filter fun c =>
      c.workerId = Demo.worker ∧ c.outcome = .reassigned) =
      [⟨Demo.worker, .reassigned, 1, 40⟩] := by
  intro run
  rw [(failure_counts_exact (play_run Demo.reclaimed_playable)).2 Demo.worker .reassigned
    (by decide)]
  decide +kernel

end TaskFleet.Model
