import TaskFleet.Logic.ResultFlow

/-!
# Pending results

`pending_results` is keyed by the task, and a `task_result_ack` names the task
and nothing else. As long as a worker executes a task once, the two speak of
the same envelope. A reclaimed task can come back to the worker that lost it,
and then

* **a stale answer** to the result of the older attempt drops the result of the
  newer one, and
* **the newer result** takes the place of an older one that is not answered yet.

A run loses no result exactly when neither happens in it
(`pending_results_kept`). In `staleAnswer` the first does: a submission of the
older result that was sent twice is answered twice, the second time too late.
-/

namespace TaskFleet.Model

open Py

namespace Fleet

/-- The buffer holds an envelope of the execution `k` for the task `t`. -/
def Holds (f : Fleet) (t : String) (k : Token) : Prop :=
  ∃ e, f.runner.pendingResults.lookup t = some e ∧ e.idempotencyToken = k

/-- The step records a result, and the entry of `t` has to make room for it. -/
def Overflows (x : Setting) (f : Fleet) (l : Label) (t : String) : Prop :=
  (f.recorded x l).isSome ∧ t ∉ (f.room x).keys

/-- The step reads the answer to a submission of the envelope with token `k`. -/
def Answers (f : Fleet) (l : Label) (t : String) (k : Token) : Prop :=
  ∃ ack, f.answered l = some (ack, k) ∧ ack.taskId = t

/-- No result is lost by the step: what it drops was pushed out by an overflow,
or was answered for. -/
def KeepsResults (x : Setting) (f : Fleet) (l : Label) (f' : Fleet) : Prop :=
  ∀ t k, f.Holds t k → f'.Holds t k ∨ f.Overflows x l t ∨ f.Answers l t k

/-- **The condition.** An answer meets no envelope of another execution in the
buffer, and neither does a result that is recorded, once there is room for it. -/
def OneExecution (x : Setting) (f : Fleet) (l : Label) : Prop :=
  (∀ a ∈ f.answered l, ∀ e ∈ f.runner.pendingResults.lookup a.1.taskId, e.idempotencyToken = a.2) ∧
    ∀ r ∈ f.recorded x l, ∀ e ∈ (f.room x).lookup r.1, e.idempotencyToken = r.2.idempotencyToken

instance (x : Setting) (f : Fleet) : DecidablePred (f.OneExecution x) :=
  fun _ => inferInstanceAs (Decidable (_ ∧ _))

variable {x : Setting} {f f' : Fleet} {l : Label}

theorem Holds.token_unique {t : String} {k k' : Token} (h : f.Holds t k)
    (h' : f.Holds t k') : k = k' := by
  obtain ⟨e, he, rfl⟩ := h
  obtain ⟨e', he', rfl⟩ := h'
  rw [he] at he'
  rw [Option.some.inj he']

/-- An answer erases the entry of its task, so it has to answer that entry. -/
theorem answered_keeps_iff {ack : ResultAck} {answers : Token}
    (hanswered : f.answered l = some (ack, answers)) (hrecorded : f.recorded x l = none)
    (hpending : f'.runner.pendingResults = f.runner.pendingResults.erase ack.taskId) :
    f.KeepsResults x l f' ↔
      ∀ e, f.runner.pendingResults.lookup ack.taskId = some e → e.idempotencyToken = answers := by
  constructor
  · intro hkeeps e he
    rcases hkeeps ack.taskId e.idempotencyToken ⟨e, he, rfl⟩
      with ⟨e', he', -⟩ | ⟨hsome, -⟩ | ⟨ack', hack', -⟩
    · rw [hpending, Dict.lookup_erase, if_pos rfl] at he'
      cases he'
    · rw [hrecorded] at hsome
      cases hsome
    · rw [hanswered] at hack'
      exact (Prod.mk.inj (Option.some.inj hack')).2.symm
  · rintro hone t k ⟨e, he, rfl⟩
    by_cases ht : t = ack.taskId
    · subst ht
      exact .inr (.inr ⟨ack, by rw [hanswered, hone e he], rfl⟩)
    · refine .inl ⟨e, ?_, rfl⟩
      rw [hpending, Dict.lookup_erase, if_neg ht, he]

/-- A result that is recorded takes the place of what its task has left in the
buffer, so that has to be of the same execution. -/
theorem recorded_keeps_iff {t : String} {r : WorkerResult} (hanswered : f.answered l = none)
    (hrecorded : f.recorded x l = some (t, r))
    (hpending : f'.runner.pendingResults = (f.room x).set t r) :
    f.KeepsResults x l f' ↔
      ∀ e, (f.room x).lookup t = some e → e.idempotencyToken = r.idempotencyToken := by
  have hin : f'.Holds t r.idempotencyToken := by
    refine ⟨r, ?_, rfl⟩
    rw [hpending, Dict.lookup_set, if_pos rfl]
  constructor
  · intro hkeeps e he
    have hroom : t ∈ (f.room x).keys := Dict.mem_keys_of_lookup he
    rw [lookup_room hroom] at he
    rcases hkeeps t e.idempotencyToken ⟨e, he, rfl⟩ with hkept | ⟨-, hout⟩ | ⟨ack, hack, -⟩
    · exact hkept.token_unique hin
    · exact absurd hroom hout
    · rw [hanswered] at hack
      cases hack
  · rintro hone t' k ⟨e, he, rfl⟩
    by_cases hroom : t' ∈ (f.room x).keys
    · rw [← lookup_room hroom] at he
      by_cases ht : t' = t
      · subst ht
        rw [hone e he]
        exact .inl hin
      · refine .inl ⟨e, ?_, rfl⟩
        rw [hpending, Dict.lookup_set, if_neg ht, he]
    · exact .inr (.inl ⟨by rw [hrecorded]; rfl, hroom⟩)

/-- **One step** loses no result exactly when it meets the condition. -/
theorem Step.keepsResults_iff (h : Step x f l f') : f.KeepsResults x l f' ↔ f.OneExecution x l := by
  cases h.pendingMove with
  | same hanswered hrecorded hpending =>
      have hkeeps : f.KeepsResults x l f' := by
        rintro t k ⟨e, he, hk⟩
        exact .inl ⟨e, by rw [hpending, he], hk⟩
      have hone : f.OneExecution x l := by
        constructor
        · intro a ha
          rw [hanswered] at ha
          cases ha
        · intro r hr
          rw [hrecorded] at hr
          cases hr
      exact iff_of_true hkeeps hone
  | answered hanswered hrecorded hpending =>
      rw [answered_keeps_iff hanswered hrecorded hpending]
      simp [OneExecution, hanswered, hrecorded]
  | recorded hanswered hrecorded hpending =>
      rw [recorded_keeps_iff hanswered hrecorded hpending]
      simp [OneExecution, hanswered, hrecorded]

/-- **A run loses no result exactly when its answers and its results meet no
envelope of another execution of their task.** -/
theorem pending_results_kept {f₀ : Fleet} {ls : List Label} (hinit : (fleet x).init f₀)
    (h : (fleet x).Trace f₀ ls f) :
    ((fleet x).guarded (OneExecution x)).Trace f₀ ls f ↔
      ∀ before l after g g', ls = before ++ l :: after → (fleet x).Trace f₀ before g →
        (fleet x).step g l g' → g.KeepsResults x l g' := by
  refine System.Trace.guarded_iff_steps (Q := KeepsResults x) (fleet_deterministic x) ?_
    (System.Run.nil hinit).reachable h
  intro g l g' _ hstep
  exact (step_cases hstep).keepsResults_iff

end Fleet

namespace Demo

/-- A task is executed and its result is answered for. -/
def answeredResult : List Label :=
  .environment 0 (.enqueue task request) :: greeted 1 ++ delivered 1 ++
    [.workerRead token, .finish task returned, .release task, .coordRead 2 false resultId,
      .coordRead 2 false resultId, .coordRead 2 false resultId, .conclude, .answer,
      .workerRead otherToken]

/-- The result of attempt 0 is sent twice, and the task is reclaimed before
either is handled. -/
def resentResult : List Label :=
  .environment 0 (.enqueue task request) :: greeted 1 ++ delivered 1 ++
    [.workerRead token, .coordRead 2 false resultId, .coordRead 2 false resultId,
      .finish task returned, .release task, .resubmit task.str]

/-- The first of them is fenced and answered; the task is delivered again and
executed, and only then is the second one answered. -/
def answeredTwice : List Label :=
  [.coordRead 71 false resultId, .conclude, .answer, .workerRead otherToken] ++ delivered 200 ++
    [.workerRead otherToken, .finish task returned, .release task, .coordRead 201 false resultId,
      .conclude, .answer]

/-- Up to where the second answer is on the worker's socket. -/
def staleAnswer : List Label := resentResult ++ swept 70 :: answeredTwice

theorem staleAnswer_drawn : ∀ l ∈ staleAnswer, l.Drawn :=
  drawn_swept (Fleet.drawn_of_noReclaim rfl) (Fleet.drawn_of_noReclaim rfl)

end Demo

/-- The run that answers its one result loses none. -/
theorem pending_results_kept_answered : ∃ f, (fleet Demo.setting).Run Demo.answeredResult f ∧
    ∀ before l after g g', Demo.answeredResult = before ++ l :: after →
      (fleet Demo.setting).Trace (.initial Demo.setting .empty) before g →
      (fleet Demo.setting).step g l g' → g.KeepsResults Demo.setting l g' := by
  have hplayed : (Fleet.play Demo.setting (Fleet.OneExecution Demo.setting)
      (.initial Demo.setting .empty) Demo.answeredResult).isSome = true := by decide +kernel
  obtain ⟨f, hplay⟩ := Option.isSome_iff_exists.mp hplayed
  have hdrawn : ∀ l ∈ Demo.answeredResult, l.Drawn := Fleet.drawn_of_noReclaim rfl
  have hinit : (fleet Demo.setting).init (.initial Demo.setting .empty) :=
      ⟨.empty, ⟨rfl, rfl, rfl⟩, rfl⟩
  have htrace := Fleet.play_trace hdrawn hplay
  exact ⟨f, ⟨_, hinit, htrace.of_guarded⟩,
    (Fleet.pending_results_kept hinit htrace.of_guarded).mp htrace⟩

/-- The answer to the fenced result of attempt 0 drops the result of attempt 1,
of which no submission has been handled. -/
theorem stale_answer_drops_result : ∃ f g, (fleet Demo.setting).Run Demo.staleAnswer f ∧
    (fleet Demo.setting).step f (.workerRead Demo.thirdToken) g ∧
    f.Holds Demo.task.str Demo.otherToken ∧ ¬ g.Holds Demo.task.str Demo.otherToken ∧
    f.answered (.workerRead Demo.thirdToken) = some (.decided Demo.task.str .fenced, Demo.token) ∧
    ¬ f.KeepsResults Demo.setting (.workerRead Demo.thirdToken) g := by
  have hplayed : ((Fleet.play Demo.setting (fun _ _ => True) (.initial Demo.setting .empty)
      Demo.staleAnswer).bind fun f =>
        (f.step Demo.setting (.workerRead Demo.thirdToken)).map fun g =>
        decide ((f.runner.pendingResults.lookup Demo.task.str).map (fun e => e.idempotencyToken) =
            some Demo.otherToken) &&
          (g.runner.pendingResults.lookup Demo.task.str).isNone &&
          decide (f.answered (.workerRead Demo.thirdToken) =
            some (.decided Demo.task.str .fenced, Demo.token)) &&
          f.fresh (.workerRead Demo.thirdToken)) = some true := by
    decide +kernel
  obtain ⟨f, hplay, hread⟩ := Option.bind_eq_some_iff.mp hplayed
  obtain ⟨g, hg, hfound⟩ := Option.map_eq_some_iff.mp hread
  simp only [Bool.and_eq_true, decide_eq_true_eq] at hfound
  obtain ⟨⟨⟨hheld, hgone⟩, hanswered⟩, hfresh⟩ := hfound
  have hrun := (Fleet.play_run Demo.staleAnswer_drawn hplay).of_guarded
  have hstep : (fleet Demo.setting).step f (.workerRead Demo.thirdToken) g :=
    ⟨Fleet.admissible_of_fresh trivial hfresh, hg⟩
  have hholds : f.Holds Demo.task.str Demo.otherToken := Option.map_eq_some_iff.mp hheld
  have hlost : ¬ g.Holds Demo.task.str Demo.otherToken := by
    rintro ⟨e, he, -⟩
    rw [Option.isNone_iff_eq_none.mp hgone] at he
    cases he
  refine ⟨f, g, hrun, hstep, hholds, hlost, hanswered, fun hkeeps => ?_⟩
  have hone := (Fleet.step_cases hstep).keepsResults_iff.mp hkeeps
  obtain ⟨e, he, htoken⟩ := hholds
  have htoken' : e.idempotencyToken = Demo.token := hone.1 _ hanswered e he
  exact absurd (htoken.symm.trans htoken') (by decide)

end TaskFleet.Model
