import TaskFleet.Logic.AttemptHistory

/-!
# Attempts that did not happen

The two abnormal endings and the reclaim record what a row says of itself. A
fence records a number its sender has chosen: `complete_task` checks that the
sender held the task once, and that the task has reached the number, but not
that the sender held that attempt. So the history stays true exactly as long as
no late submission names an attempt that was somebody else's, or nobody's.
-/

namespace TaskFleet.Model

open Py Sql

/-- Every row of the attempt history names an attempt that some dequeue of the
run handed to the worker the row names. -/
def AttemptsHappened (es : List Event) (db : Db) : Prop :=
  ∀ a ∈ db.attempts, ∃ w, a.workerId = some w ∧ Claimed es a.taskId a.attemptNumber w

/-- A late submission of a worker that once held the task, for an attempt the
task has reached, names one that was taken back from this worker. -/
def FencesOwnAttempt (db : Db) (e : Event) : Prop :=
  ∀ envelope w resultId, e.op = .complete envelope w resultId → ∀ t ∈ db.tasks,
    Uuid.parse envelope.taskId = some t.id → t.status.isTerminal = false →
    everHeld db t.id w t.assignedWorkerId = true →
    ¬ (t.assignedWorkerId = some w ∧ envelope.attemptNumber = t.attemptCount) →
    envelope.attemptNumber ≤ t.attemptCount →
    ∃ a ∈ db.attempts, a.taskId = t.id ∧ a.workerId = some w ∧
      a.attemptNumber = envelope.attemptNumber ∧ a.outcome = .reassigned

section

variable {cfg : Config} {schemas : Schemas} {db db' : Db} {e : Event} {es : List Event}

/-- What is recorded once is there, written now or before. -/
theorem recordAttemptOnce_mem (db : Db) (a : TaskAttempt) :
    ∃ b ∈ (db.recordAttemptOnce a).attempts, b.taskId = a.taskId ∧ b.workerId = a.workerId ∧
      b.attemptNumber = a.attemptNumber := by
  unfold Db.recordAttemptOnce
  split
  · next hany =>
      obtain ⟨b, hb, hsame⟩ := List.any_eq_true.mp hany
      obtain ⟨htask, hworker, hnumber, -⟩ := of_decide_eq_true hsame
      exact ⟨b, hb, htask, hworker, hnumber⟩
  · exact ⟨a, List.mem_append_right _ List.mem_cons_self, rfl, rfl, rfl⟩

/-- The row a fence leaves behind. -/
theorem recordFence_mem {now : Seconds} {row : Task} {envelope : Envelope} {w : Uuid}
    {isAssignee : Bool} (hle : envelope.attemptNumber ≤ row.attemptCount) :
    ∃ a ∈ (recordFence db now row envelope w isAssignee).attempts, a.taskId = row.id ∧
      a.workerId = some w ∧ a.attemptNumber = envelope.attemptNumber := by
  rw [recordFence, if_pos hle]
  exact recordAttemptOnce_mem db _

/-- A row that a submission adds is its fence. -/
theorem complete_new_row (hs : (queue cfg schemas).step db e db') {envelope : Envelope}
    {w resultId : Uuid} (hop : e.op = .complete envelope w resultId) {a : TaskAttempt}
    (ha : a ∈ db'.attempts) (hnew : a ∉ db.attempts) :
    ∃ t ∈ db.tasks, Uuid.parse envelope.taskId = some t.id ∧ t.status.isTerminal = false ∧
      everHeld db t.id w t.assignedWorkerId = true ∧
      ¬ (t.assignedWorkerId = some w ∧ envelope.attemptNumber = t.attemptCount) ∧
      envelope.attemptNumber ≤ t.attemptCount ∧
      a.taskId = t.id ∧ a.workerId = some w ∧ a.attemptNumber = envelope.attemptNumber := by
  obtain ⟨-, happly⟩ := hs
  rw [hop] at happly
  obtain ⟨rfl, -⟩ := Prod.mk.inj happly
  rcases completeTask_cases db e.now envelope w resultId with hnone | ⟨row, hrow, hid, hcase⟩
  · rw [hnone] at ha
    exact absurd ha hnew
  · generalize completeTask db e.now envelope w resultId = r at hcase ha
    cases hcase with
    | fenced hstatus hstale hheld =>
        rcases recordFence_eq db e.now row envelope w (row.assignedWorkerId = some w) with
          hsame | ⟨b, htask, hnumber, hle, hworker, hadd⟩
        · rw [hsame] at ha
          exact absurd ha hnew
        · rw [hadd] at ha
          obtain rfl : a = b := by
            rcases List.mem_append.mp ha with hold | hlast
            · exact absurd hold hnew
            · exact List.mem_singleton.mp hlast
          exact ⟨row, (Table.get?_eq_some_iff.mp hrow).1, hid, hstatus, hheld,
            hstale, hnumber ▸ hle,
            htask, hworker, hnumber⟩
    | _ => exact absurd ha hnew

/-- Who was handed an attempt of an unfinished task, other than as the current
holder, has had it taken back. -/
theorem Run.reassigned_row (h : (queue cfg schemas).Run es db) {t : Task} (ht : t ∈ db.tasks)
    (hopen : t.status.isTerminal = false) {n : ℕ} {w : Uuid} (hc : Claimed es t.id n w)
    (hstale : ¬ (t.assignedWorkerId = some w ∧ n = t.attemptCount)) :
    ∃ a ∈ db.attempts, a.taskId = t.id ∧ a.workerId = some w ∧ a.attemptNumber = n ∧
      a.outcome = .reassigned := by
  have hlt : n < t.attemptCount := by
    rcases Nat.lt_or_eq_of_le (Run.claimed_le h ht hc) with hlt | rfl
    · exact hlt
    · rcases (reachable_shape h.reachable t ht).cases with hq | hlive | hterm
      · exact Run.claimed_lt_of_queued h ht hq hc
      · exact absurd ⟨(Run.holder_iff h ht hlive w).mpr hc, rfl⟩ hstale
      · rw [hterm] at hopen
        cases hopen
  have hunfailed : t.status ≠ .failed := by
    intro hf
    rw [hf] at hopen
    cases hopen
  obtain ⟨hl, -⟩ := (Run.timeline h t ht).reassigned hunfailed
  have hn : n ∈ ((db.endings t.id).map TaskAttempt.entry).map fun x => x.2.1 := by
    rw [hl.numbers, List.mem_range]
    exact hlt
  obtain ⟨x, hx, rfl⟩ := List.mem_map.mp hn
  obtain ⟨v, hv, hcv⟩ := hl.worker x hx
  obtain rfl := Run.claimed_unique h hcv hc
  have hout := hl.outcome x hx
  obtain ⟨a, ha, rfl⟩ := List.mem_map.mp hx
  obtain ⟨hmem, hmatch⟩ := List.mem_filter.mp ha
  exact ⟨a, hmem, (of_decide_eq_true hmatch).1, hv, rfl, hout⟩

/-- **One step** from a true history keeps it true exactly when a fence is for
the sender's own attempt. -/
theorem step_attemptsHappened_iff (hrun : (queue cfg schemas).Run es db)
    (hs : (queue cfg schemas).step db e db') (hpast : AttemptsHappened es db) :
    AttemptsHappened (es ++ [e]) db' ↔ FencesOwnAttempt db e := by
  obtain ⟨new, hattempts, hnew⟩ := step_attempts hs
  constructor
  · intro hnow envelope w resultId hop t ht hid hopen hheld hstale hle
    have hrow : ∃ a ∈ db'.attempts, a.taskId = t.id ∧ a.workerId = some w ∧
        a.attemptNumber = envelope.attemptNumber := by
      obtain ⟨-, happly⟩ := hs
      rw [hop] at happly
      simp only [apply, completeTask_eq_completeRow ht hid, Prod.mk.injEq] at happly
      rw [← happly.1]
      have hcase := completeRow_case db e.now t envelope w resultId
      generalize completeRow db e.now t envelope w resultId = r at hcase ⊢
      cases hcase with
      | fenced hstatus hstale' hheld' => exact recordFence_mem hle
      | terminal hstatus => rw [hstatus] at hopen; cases hopen
      | notOwner hstatus hstale' hheld' => rw [hheld] at hheld'; cases hheld'
      | illegal hstatus hlive howner hattempt => exact absurd ⟨howner, hattempt⟩ hstale
      | raised hlive howner hattempt => exact absurd ⟨howner, hattempt⟩ hstale
      | stored hlive howner hattempt => exact absurd ⟨howner, hattempt⟩ hstale
    obtain ⟨a, ha, htask, hworker, hnumber⟩ := hrow
    obtain ⟨v, hv, f, hf, hclaims⟩ := hnow a ha
    obtain rfl : w = v := Option.some.inj (hworker.symm.trans hv)
    rw [htask, hnumber] at hclaims
    have hold : f ∈ es := by
      rcases List.mem_append.mp hf with hold | hlast
      · exact hold
      · -- a submission hands nothing out
        rw [List.mem_singleton.mp hlast] at hclaims
        obtain ⟨⟨_, _, _, _, hdequeue⟩, -⟩ := hclaims
        rw [hop] at hdequeue
        cases hdequeue
    exact Run.reassigned_row hrun ht hopen ⟨f, hold, hclaims⟩ hstale
  · intro hguard a ha
    by_cases hold : a ∈ db.attempts
    · obtain ⟨w, hw, hc⟩ := hpast a hold
      exact ⟨w, hw, hc.later⟩
    · have hadded : a ∈ new := by
        rw [hattempts, List.mem_append] at ha
        exact ha.resolve_left hold
      cases hnew a hadded with
      | @expiry t batch skip draw ht hop hwhere =>
          have hlive := (expired_holds.mp hwhere).1
          obtain ⟨w, hw⟩ := (reachable_shape hrun.reachable t ht).holder hlive
          exact ⟨w, hw, (Run.claimed_of_live hrun ht hlive hw).later⟩
      | @failure t w taskId errorType correlationId _ ht hop howner hlive htask hnumber hworker =>
          refine ⟨w, hworker, ?_⟩
          rw [htask, hnumber]
          exact (Run.claimed_of_live hrun ht hlive howner).later
      | fence _ hop =>
          -- the guard says which row vouches for the fence
          obtain ⟨t, ht, hid, hopen, hheld, hstale, hle, htask, hworker, hnumber⟩ :=
            complete_new_row hs hop ha hold
          obtain ⟨b, hb, htask', hworker', hnumber', -⟩ :=
            hguard _ _ _ hop t ht hid hopen hheld hstale hle
          obtain ⟨v, hv, hc⟩ := hpast b hb
          refine ⟨v, hworker.trans (hworker'.symm.trans hv), ?_⟩
          rw [htask, hnumber, ← htask', ← hnumber']
          exact hc.later

/-- **When the attempt history is true.** Along any run of the queue, every row
of `task_attempts` in every state passed through names an attempt that was
really handed to the worker it names, if and only if every late submission that
leaves a row names an attempt that was taken back from its sender. -/
theorem attempts_happened {db₀ : Db} (hinit : (queue cfg schemas).init db₀)
    (h : (queue cfg schemas).Trace db₀ es db) :
    ((queue cfg schemas).guarded FencesOwnAttempt).Trace db₀ es db ↔
      ∀ as bs mid, es = as ++ bs → (queue cfg schemas).Trace db₀ as mid →
        AttemptsHappened as mid := by
  refine h.guarded_iff_history (queue_deterministic cfg schemas) ?_ ?_ hinit
  · rintro db ⟨-, -, hattempts⟩ a ha
    rw [hattempts] at ha
    cases ha
  · intro es db e db' hrun hs hpast
    exact step_attemptsHappened_iff hrun hs hpast

end

/-- The reclaimed task of the small deployment goes to the other worker, and
its first holder submits a result for the attempt that is now the other's. -/
def Demo.misnumbered : List (Seconds × Op) := Demo.reclaimed ++ [
  (60, .dequeue Demo.otherWorker 1 100 none []),
  (61, .complete (Demo.envelope 1 Demo.token) Demo.worker Demo.resultId)]

theorem Demo.misnumbered_playable : Playable {} Demo.schemas .empty Demo.misnumbered :=
  ⟨rfl, trivial, fun _ => by constructor <;> norm_num, trivial, rfl, trivial⟩

/-- The same with a result for the attempt it held. -/
def Demo.lateResult : List (Seconds × Op) := Demo.reclaimed ++ [
  (60, .dequeue Demo.otherWorker 1 100 none []),
  (61, .complete (Demo.envelope 0 Demo.token) Demo.worker Demo.resultId)]

/-- The late result is for an attempt that was taken back from its sender. -/
theorem Demo.lateResult_fences :
    PlayableUnder FencesOwnAttempt {} Demo.schemas .empty Demo.lateResult := by
  have hother : ∀ {db : Db} {now : Seconds} {op : Op} {reply : Reply},
      (∀ envelope w resultId, op ≠ .complete envelope w resultId) →
        FencesOwnAttempt db ⟨now, op, reply⟩ :=
    fun hop envelope w resultId heq => absurd heq (hop envelope w resultId)
  refine ⟨rfl, hother (by simp), trivial, hother (by simp), ?_, hother (by simp), trivial,
    hother (by simp), rfl, ?_, trivial⟩
  · exact fun _ => by constructor <;> norm_num
  · intro envelope w resultId hop t ht _ _ _ _ _
    obtain ⟨rfl, rfl, rfl⟩ := Op.complete.inj hop
    have hrows : ∀ t ∈ (play {} Demo.schemas .empty (Demo.lateResult.take 4)).2.tasks.rows,
        ∃ a ∈ (play {} Demo.schemas .empty (Demo.lateResult.take 4)).2.attempts,
          a.taskId = t.id ∧ a.workerId = some Demo.worker ∧ a.attemptNumber = 0 ∧
            a.outcome = .reassigned := by
      decide +kernel
    exact hrows t ht

/-- The run with that late result passes through true histories, and ends with the row it
leaves. -/
theorem attempts_happened_late_result :
    (∀ as bs mid, (play {} Demo.schemas .empty Demo.lateResult).1 = as ++ bs →
        (queue {} Demo.schemas).Trace .empty as mid → AttemptsHappened as mid) ∧
      ∃ a ∈ (play {} Demo.schemas .empty Demo.lateResult).2.attempts, a.outcome = .fenced ∧
        a.attemptNumber = 0 ∧ a.workerId = some Demo.worker := by
  have hguarded := play_guarded Demo.lateResult_fences
  exact ⟨(attempts_happened ⟨rfl, rfl, rfl⟩ hguarded.of_guarded).mp hguarded, by decide +kernel⟩

/-- The fence names the first worker and attempt 1, which was the other's. -/
theorem fenced_row_of_no_attempt :
    (queue {} Demo.schemas).Run (play {} Demo.schemas .empty Demo.misnumbered).1
      (play {} Demo.schemas .empty Demo.misnumbered).2 ∧
    ∃ a ∈ (play {} Demo.schemas .empty Demo.misnumbered).2.attempts, a.outcome = .fenced ∧
      a.attemptNumber = 1 ∧ a.workerId = some Demo.worker ∧
      ¬ Claimed (play {} Demo.schemas .empty Demo.misnumbered).1 a.taskId a.attemptNumber
        Demo.worker := by
  have hrun := play_run Demo.misnumbered_playable
  obtain ⟨a, ha, htask, hout, hnumber, hworker⟩ :
      ∃ a ∈ (play {} Demo.schemas .empty Demo.misnumbered).2.attempts, a.taskId = Demo.task ∧
        a.outcome = .fenced ∧ a.attemptNumber = 1 ∧ a.workerId = some Demo.worker := by
    decide +kernel
  obtain ⟨t, ht, hid, hlive, hattempt, hholder⟩ :
      ∃ t ∈ (play {} Demo.schemas .empty Demo.misnumbered).2.tasks.rows, t.id = Demo.task ∧
        t.status.isLive = true ∧ t.attemptCount = 1 ∧
          t.assignedWorkerId = some Demo.otherWorker := by
    decide +kernel
  refine ⟨hrun, a, ha, hout, hnumber, hworker, fun hc => ?_⟩
  have hother := Run.claimed_of_live hrun ht hlive hholder
  rw [hid, hattempt] at hother
  rw [htask, hnumber] at hc
  have hsame : Demo.worker = Demo.otherWorker := Run.claimed_unique hrun hc hother
  revert hsame
  decide

end TaskFleet.Model
