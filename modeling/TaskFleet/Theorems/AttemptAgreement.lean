import TaskFleet.Logic.AttemptLog

/-!
# Which attempt a worker is on

A worker that is handed a task it is already executing acknowledges the
delivery and does nothing else. So what it executes is the last assignment it
*started*, which after a reclaim need not be the last one it *accepted*
(`redelivery_keeps_attempt`). The fencing rule compares with the same number:
the result of an execution is fenced as `stale_attempt` only once the task has
left the attempt of the assignment that started it (`attempt_agreement`).
-/

namespace TaskFleet.Model

open Py

/-- A submission for the attempt the task is on is fenced only when another
worker holds the task, and is recorded as that. -/
theorem completeRow_current {row : Task} {envelope : Envelope} (db : Db) (now : Seconds)
    (workerId resultId : Uuid) (hattempt : envelope.attemptNumber = row.attemptCount) :
    ((completeRow db now row envelope workerId resultId).2 = .fenced →
      row.assignedWorkerId ≠ some workerId) ∧
    ∀ a ∈ (completeRow db now row envelope workerId resultId).1.attempts,
      a ∈ db.attempts ∨ a.reason ≠ "stale_attempt" := by
  have hcase := completeRow_case db now row envelope workerId resultId
  generalize completeRow db now row envelope workerId resultId = answer at hcase ⊢
  cases hcase with
  | terminal =>
      exact ⟨fun h => absurd h (terminalResultOutcome_ne (by decide)), fun _ ha => .inl ha⟩
  | notOwner => exact ⟨fun h => (by cases h), fun _ ha => .inl ha⟩
  | illegal => exact ⟨fun h => (by cases h), fun _ ha => .inl ha⟩
  | raised => exact ⟨fun h => (by cases h), fun _ ha => .inl ha⟩
  | stored => exact ⟨fun h => (by cases h), fun _ ha => .inl ha⟩
  | fenced hstatus hstale =>
      have hother : row.assignedWorkerId ≠ some workerId := fun howner => hstale ⟨howner, hattempt⟩
      refine ⟨fun _ => hother, fun a ha => ?_⟩
      simp only [recordFence, hattempt, le_refl, if_true, hother, decide_false, Bool.false_eq_true,
        if_false, Db.recordAttemptOnce] at ha
      split at ha
      · exact .inl ha
      · rcases List.mem_append.mp ha with hold | hnew
        · exact .inl hold
        · rw [List.mem_singleton.mp hnew]
          have hreason : "task_reassigned" ≠ "stale_attempt" := by decide
          exact .inr hreason

namespace Fleet

/-- The step fences a result of the task as `stale_attempt`: it answers
`fenced` although the task is assigned to the sender, or it leaves a new row
with that reason. -/
def FencedStale (x : Setting) (f f' : Fleet) (taskId : Uuid) : Prop :=
  ((∃ envelope, f'.handling = .result envelope .fenced) ∧
      ∃ t ∈ f.db.tasks, t.id = taskId ∧ t.assignedWorkerId = some x.workerId) ∨
    ∃ a ∈ f'.db.attempts, a ∉ f.db.attempts ∧ a.reason = "stale_attempt"

/-- The result the read loop is about to read. -/
def submitted (f : Fleet) : Option WorkerResult :=
  match f.toCoordinator with
  | .taskResult result :: _ => some result
  | _ => none

variable {x : Setting} {f f' : Fleet}

theorem submitted_eq_some {result : WorkerResult} (h : f.submitted = some result) :
    ∃ rest, f.toCoordinator = .taskResult result :: rest := by
  unfold submitted at h
  split at h
  · next hm =>
      obtain rfl := Option.some.inj h
      exact ⟨_, hm⟩
  · cases h

/-- The read loop does not fence what names the attempt of the task. -/
theorem coordRead_not_fencedStale {now : Seconds} {due : Bool} {resultId : Uuid}
    {result : WorkerResult} {t : Task} (h : Step x f (.coordRead now due resultId) f')
    (hsubmitted : f.submitted = some result) (ht : t ∈ f.db.tasks) (hid : result.taskId = t.id.str)
    (hattempt : result.attemptNumber = t.attemptCount) : ¬ FencedStale x f f' t.id := by
  obtain ⟨rest, hm⟩ := submitted_eq_some hsubmitted
  obtain ⟨e, he, htaskId, -, hnumber⟩ := validate_payload x.floats result x.cfg.taskResultMaxBytes
  cases h with
  | coordRead hfresh hs hidle hm' hread =>
      obtain ⟨rfl, rfl⟩ := List.cons.inj (hm.symm.trans hm')
      obtain ⟨_, hvalid, rfl⟩ := coordRead_result hread
      obtain rfl := Except.ok.inj (he.symm.trans hvalid)
      have hparse : Uuid.parse e.taskId = some t.id := by
        rw [htaskId, hid, Uuid.parse_str]
      have hrow := completeTask_eq_completeRow ht hparse now x.workerId resultId
      have hnamed : e.attemptNumber = t.attemptCount := hnumber.trans hattempt
      obtain ⟨houtcome, hrows⟩ := completeRow_current f.db now x.workerId resultId hnamed
      rintro (⟨⟨envelope, hfenced⟩, t', ht', hid', howner⟩ | ⟨a, ha, hnew, hreason⟩)
      · obtain rfl := Table.eq_of_key ht' ht hid'
        have hanswer := (Handling.result.inj hfenced).2
        rw [hrow] at hanswer
        exact houtcome hanswer howner
      · have hin : a ∈ (completeTask f.db now e x.workerId resultId).1.attempts := ha
        rw [hrow] at hin
        rcases hrows a hin with hold | hother
        · exact hnew hold
        · exact hother hreason

/-- **Worker and coordinator agree on the attempt.** In every run, what the
worker executes is at the attempt of the last assignment of its task that the
worker started; and a result that the coordinator reads is of one such start,
and is not fenced as a stale attempt while the task is at the attempt of it. -/
theorem attempt_agreement {f₀ : Fleet} {ls : List Label} (hinit : (fleet x).init f₀)
    (h : (fleet x).Trace f₀ ls f) :
    (∀ r ∈ f.runner.running, ∃ a, latest (startedIn x f₀ ls) r.taskId = some a ∧
      r.attempt = a.task.attemptCount) ∧
    ∀ now due resultId f' result, (fleet x).step f (.coordRead now due resultId) f' →
      f.submitted = some result →
      ∃ a ∈ startedIn x f₀ ls, a.token = result.idempotencyToken ∧ result.taskId = a.task.id.str ∧
        (∀ b ∈ startedIn x f₀ ls, b.token = result.idempotencyToken → b = a) ∧
        ∀ t ∈ f.db.tasks, t.id = a.task.id → t.attemptCount = a.task.attemptCount →
          ¬ FencedStale x f f' t.id := by
  have hlog := trace_logged hinit h
  constructor
  · intro r hr
    obtain ⟨a, ha, -, hattempt⟩ := hlog.running r hr
    exact ⟨a, ha, hattempt.symm⟩
  · intro now due resultId f' result hstep hsubmitted
    obtain ⟨rest, hm⟩ := submitted_eq_some hsubmitted
    obtain ⟨a, ha, hmade⟩ := hlog.sent result (hm ▸ .head _)
    refine ⟨a, ha, hmade.token.symm, hmade.taskId, fun b hb htoken => ?_, fun t ht hid hcount => ?_⟩
    · exact List.inj_on_of_nodup_map hlog.distinct hb ha (htoken.trans hmade.token)
    · exact coordRead_not_fencedStale (step_cases hstep) hsubmitted ht
        (hmade.taskId.trans (by rw [hid]))
        (hmade.attempt.trans hcount.symm)

end Fleet

namespace Demo

/-- A task is being executed. -/
def executing : List Label :=
  .environment 0 (.enqueue task request) :: greeted 1 ++ delivered 1 ++
    [.workerRead token, .coordRead 2 false resultId, .coordRead 2 false resultId]

/-- It is reclaimed and handed to the same worker again, which acknowledges. -/
def redelivered : List Label := executing ++ swept 70 :: (delivered 200 ++ [.workerRead otherToken])

/-- The execution returns, and the read loop is about to handle the result. -/
def redeliveredResult : List Label := [.finish task returned, .coordRead 201 false resultId]

theorem redelivered_drawn : ∀ l ∈ redelivered, l.Drawn :=
  drawn_swept (Fleet.drawn_of_noReclaim rfl) (Fleet.drawn_of_noReclaim rfl)

end Demo

/-- The result of the first execution of the small deployment is read while the
task is at attempt 0, and is not fenced as stale. -/
theorem attempt_agreement_returned : ∃ f f' r,
    (fleet Demo.setting).Run (Demo.executing ++ [.finish Demo.task Demo.returned]) f ∧
    r ∈ f.runner.running ∧ r.taskId = Demo.task ∧ r.attempt = 0 ∧
    (fleet Demo.setting).step f (.coordRead 3 false Demo.resultId) f' ∧
    ¬ Fleet.FencedStale Demo.setting f f' Demo.task := by
  let ls : List Label := Demo.executing ++ [.finish Demo.task Demo.returned]
  let f₀ : Fleet := .initial Demo.setting .empty
  have hplayed : ((Fleet.play Demo.setting (fun _ _ => True) f₀ ls).bind fun f =>
      (f.step Demo.setting (.coordRead 3 false Demo.resultId)).bind fun _ =>
        (f.db.tasks.get? Demo.task).bind fun t => (f.runner.running.get? Demo.task).bind fun r =>
          f.submitted.map fun _ => decide (t.attemptCount = 0) && decide (r.attempt = 0) &&
            f.fresh (.coordRead 3 false Demo.resultId) &&
            (Fleet.startedIn Demo.setting f₀ ls).all fun a =>
              a.task.id = Demo.task && a.task.attemptCount = 0) = some true := by
    decide +kernel
  obtain ⟨f, hplay, hplayed⟩ := Option.bind_eq_some_iff.mp hplayed
  obtain ⟨f', hf', hplayed⟩ := Option.bind_eq_some_iff.mp hplayed
  obtain ⟨t, ht, hplayed⟩ := Option.bind_eq_some_iff.mp hplayed
  obtain ⟨r, hr, hplayed⟩ := Option.bind_eq_some_iff.mp hplayed
  obtain ⟨result, hresult, hfacts⟩ := Option.map_eq_some_iff.mp hplayed
  simp only [Bool.and_eq_true, decide_eq_true_eq, List.all_eq_true] at hfacts
  obtain ⟨⟨⟨hcount, hattempt⟩, hfresh⟩, hstarts⟩ := hfacts
  obtain ⟨ht, htid⟩ := Table.get?_eq_some_iff.mp ht
  obtain ⟨hr, hrid⟩ := Table.get?_eq_some_iff.mp hr
  have hinit : (fleet Demo.setting).init f₀ := ⟨.empty, ⟨rfl, rfl, rfl⟩, rfl⟩
  have htrace : (fleet Demo.setting).Trace f₀ ls f :=
    (Fleet.play_trace (Fleet.drawn_of_noReclaim rfl) hplay).of_guarded
  have hstep : (fleet Demo.setting).step f (.coordRead 3 false Demo.resultId) f' :=
    ⟨Fleet.admissible_of_fresh trivial hfresh, hf'⟩
  obtain ⟨a, ha, -, -, -, hfence⟩ :=
    (Fleet.attempt_agreement hinit htrace).2 3 false Demo.resultId f' result hstep hresult
  obtain ⟨haid, hacount⟩ := hstarts a ha
  refine ⟨f, f', r, ⟨f₀, hinit, htrace⟩, hr, hrid, hattempt, hstep, ?_⟩
  rw [← htid]
  exact hfence t ht (htid.trans haid.symm) (hcount.trans hacount.symm)

/-- The worker has accepted attempt 1 of the task and executes attempt 0 of it,
and the result of that is fenced as stale. -/
theorem redelivery_keeps_attempt : ∃ f r a,
    (fleet Demo.setting).Run Demo.redelivered f ∧ r ∈ f.runner.running ∧ r.taskId = Demo.task ∧
    latest (Fleet.acceptedIn Demo.setting (.initial Demo.setting .empty) Demo.redelivered)
      Demo.task =
      some a ∧ a.task.attemptCount = 1 ∧ r.attempt = 0 ∧
    ∃ g g', (fleet Demo.setting).Trace f Demo.redeliveredResult g ∧
      (fleet Demo.setting).step g (.coordRead 202 false Demo.resultId) g' ∧
      Fleet.FencedStale Demo.setting g g' Demo.task := by
  let f₀ : Fleet := .initial Demo.setting .empty
  have hplayed : ((Fleet.play Demo.setting (fun _ _ => True) f₀ Demo.redelivered).bind fun f =>
      (f.runner.running.get? Demo.task).bind fun r =>
        (latest (Fleet.acceptedIn Demo.setting f₀ Demo.redelivered) Demo.task).bind fun a =>
          (Fleet.play Demo.setting (fun _ _ => True) f Demo.redeliveredResult).bind fun g =>
            (g.step Demo.setting (.coordRead 202 false Demo.resultId)).map fun g' =>
              decide (a.task.attemptCount = 1) && decide (r.attempt = 0) &&
                g.fresh (.coordRead 202 false Demo.resultId) &&
                g.db.attempts.all (fun row => row.reason ≠ "stale_attempt") &&
                g'.db.attempts.any fun row => row.reason = "stale_attempt") = some true := by
    decide +kernel
  obtain ⟨f, hplay, hplayed⟩ := Option.bind_eq_some_iff.mp hplayed
  obtain ⟨r, hr, hplayed⟩ := Option.bind_eq_some_iff.mp hplayed
  obtain ⟨a, ha, hplayed⟩ := Option.bind_eq_some_iff.mp hplayed
  obtain ⟨g, hg, hplayed⟩ := Option.bind_eq_some_iff.mp hplayed
  obtain ⟨g', hg', hfacts⟩ := Option.map_eq_some_iff.mp hplayed
  simp only [Bool.and_eq_true, decide_eq_true_eq, List.all_eq_true, List.any_eq_true] at hfacts
  obtain ⟨⟨⟨⟨hcount, hattempt⟩, hfresh⟩, hbefore⟩, row, hrow, hreason⟩ := hfacts
  obtain ⟨hr, hrid⟩ := Table.get?_eq_some_iff.mp hr
  have hstep : (fleet Demo.setting).step g (.coordRead 202 false Demo.resultId) g' :=
    ⟨Fleet.admissible_of_fresh trivial hfresh, hg'⟩
  have htrace : (fleet Demo.setting).Trace f Demo.redeliveredResult g :=
    (Fleet.play_trace (Fleet.drawn_of_noReclaim rfl) hg).of_guarded
  refine ⟨f, r, a, (Fleet.play_run Demo.redelivered_drawn hplay).of_guarded, hr, hrid, ha, hcount,
    hattempt, g, g', htrace, hstep, .inr ⟨row, hrow, fun hold => ?_, hreason⟩⟩
  exact hbefore row hold hreason

end TaskFleet.Model
