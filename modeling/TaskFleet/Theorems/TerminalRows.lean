import TaskFleet.Logic.RowShape

/-!
# Terminal rows

Four statements end a task. Three of them null every column about a live
attempt; `cancel_queued_task` writes only the status, which is enough for a
task that was never reclaimed and leaves the retry columns of one that was.
So a terminal row is clean on every run in which each cancel that takes effect
meets a task at attempt 0 (`terminal_rows_clean`), and on no other
(`Trace.guarded_iff`); the run that shows it is a reclaim followed by a
cancel.
-/

namespace TaskFleet.Model

open Py Sql

/-- Every task that ended is clean. -/
def Db.TerminalClean (db : Db) : Prop :=
  ∀ t ∈ db.tasks, t.status.isTerminal = true → t.Clean

/-- A cancel that takes effect meets a task that was never reclaimed. -/
def CancelsFresh (db : Db) (e : Event) : Prop :=
  ∀ taskId, e.op = .cancel taskId → ∀ t ∈ db.tasks, Uuid.parse taskId = some t.id →
    t.status = .queued → t.attemptCount = 0

section

variable {cfg : Config} {schemas : Schemas} {db db' : Db} {e : Event}

/-- A cancelled row keeps the retry columns of the queued one. -/
theorem cancel_clean_iff {now : Seconds} {t : Task} (hshape : t.Shape) (hq : t.status = .queued) :
    (t.cancel now).Clean ↔ t.attemptCount = 0 := by
  obtain ⟨-, -, -, hlease, hdeadline⟩ := hshape.queued hq
  rcases hshape.retry hq with ⟨h0, hnb, hex⟩ | ⟨hpos, hnb, hex⟩
  · simp [Task.Clean, Task.cancel, hlease, hdeadline, hnb, hex, h0]
  · constructor
    · rintro ⟨-, -, hnone, -⟩
      rw [show (t.cancel now).notBefore = t.notBefore from rfl] at hnone
      rw [hnone] at hnb
      cases hnb
    · intro h0
      omega

/-- **One row.** A step ends a row clean, except a cancel of a reclaimed one. -/
theorem RowStep.clean {t t' : Task} (h : RowStep cfg db e t t') (ht : t ∈ db.tasks)
    (hshape : t.Shape) (hclean : t.status.isTerminal = true → t.Clean)
    (hguard : CancelsFresh db e) :
    t'.status.isTerminal = true → t'.Clean := by
  cases h with
  | keep => exact hclean
  | claim => intro hterm; cases hterm
  | start => intro hterm; cases hterm
  | fail => exact fun _ => ⟨rfl, rfl, rfl, rfl⟩
  | complete => exact fun _ => ⟨rfl, rfl, rfl, rfl⟩
  | renew hwhere =>
      intro hterm
      rw [show (t.renew cfg e.now).status = t.status from rfl,
        TaskState.not_isTerminal_of_isLive (heldLive_holds.mp hwhere).2] at hterm
      cases hterm
  | @shorten w g hwhere =>
      intro hterm
      rw [show (t.shorten e.now g).status = t.status from rfl,
        TaskState.not_isTerminal_of_isLive (heldLive_holds.mp hwhere).2] at hterm
      cases hterm
  | reclaim =>
      intro hterm
      cases hex : t.exhausted cfg db.policies with
      | true => simp [Task.Clean, Task.reclaim, hex]
      | false => simp [Task.reclaim, hex, TaskState.isTerminal] at hterm
  | cancel hop hid hstatus =>
      exact fun _ => (cancel_clean_iff hshape hstatus).mpr (hguard _ hop t ht hid hstatus)
  | purge => exact hclean

/-- **One step** from a state whose ended rows are clean keeps them clean
exactly when no cancel takes effect on a reclaimed task. -/
theorem step_terminalClean_iff (hreach : (queue cfg schemas).Reachable db)
    (hs : (queue cfg schemas).step db e db') (hclean : db.TerminalClean) :
    db'.TerminalClean ↔ CancelsFresh db e := by
  have hshape := reachable_shape hreach
  constructor
  · intro hclean' taskId hop t ht hid hq
    have hcancel : (t.cancel e.now) ∈ db'.tasks := by
      obtain ⟨-, happly⟩ := hs
      rw [hop] at happly
      simp only [apply, cancelQueuedTask, hid, cancelQueuedTaskAt, Table.get?_of_mem ht, hq, ne_eq,
        not_true_eq_false, if_false, Prod.mk.injEq] at happly
      rw [← happly.1]
      exact Db.mem_updateTask Task.cancel_id ht rfl
    exact (cancel_clean_iff (hshape t ht) hq).mp (hclean' _ hcancel rfl)
  · intro hguard t' ht' hterm
    rcases (step_rows hs).backward t' ht' with ⟨t, ht, hrow, -⟩ | ⟨⟨_, _, _, -, -, heq⟩, -⟩
    · exact hrow.clean ht (hshape t ht) (hclean t ht) hguard hterm
    · rw [heq] at hterm
      cases hterm

/-- **Terminal rows are clean exactly on the runs that cancel only fresh
tasks.** Along any run of the queue, every state passed through has its ended
rows clean if and only if every cancel that takes effect meets a task with
`attempt_count = 0`. -/
theorem terminal_rows_clean {db₀ : Db} {es : List Event} (hinit : (queue cfg schemas).init db₀)
    (h : (queue cfg schemas).Trace db₀ es db) :
    ((queue cfg schemas).guarded CancelsFresh).Trace db₀ es db ↔
      ∀ as bs mid, es = as ++ bs → (queue cfg schemas).Trace db₀ as mid → mid.TerminalClean := by
  refine System.Trace.guarded_iff (queue_deterministic cfg schemas) ?_ ?_ hinit h
  · rintro db ⟨htasks, -, -⟩ t ht
    rw [htasks] at ht
    exact absurd ht (Table.not_mem_empty t)
  · intro db e db' hreach hs hclean
    exact step_terminalClean_iff hreach hs hclean

end

/-- The reclaimed task of the small deployment, cancelled while it waits. -/
def Demo.cancelled : List (Seconds × Op) := Demo.reclaimed ++ [(50, .cancel Demo.task.str)]

theorem Demo.cancelled_playable : Playable {} Demo.schemas .empty Demo.cancelled :=
  ⟨rfl, trivial, fun _ => by constructor <;> norm_num, trivial, trivial⟩

/-- The run that only claims and reclaims passes through clean states. -/
theorem terminal_rows_clean_reclaimed :
    ((queue {} Demo.schemas).guarded CancelsFresh).Trace .empty
        (play {} Demo.schemas .empty Demo.reclaimed).1
        (play {} Demo.schemas .empty Demo.reclaimed).2 ↔
      ∀ as bs mid, (play {} Demo.schemas .empty Demo.reclaimed).1 = as ++ bs →
        (queue {} Demo.schemas).Trace .empty as mid → mid.TerminalClean :=
  terminal_rows_clean ⟨rfl, rfl, rfl⟩ (play_trace Demo.reclaimed_playable)

/-- Enqueued, claimed, reclaimed and cancelled: the row is `CANCELLED` and
still carries a retry instant and an excluded worker. -/
theorem cancelled_row_not_clean :
    (queue {} Demo.schemas).Reachable (play {} Demo.schemas .empty Demo.cancelled).2 ∧
    ∃ t ∈ (play {} Demo.schemas .empty Demo.cancelled).2.tasks,
      t.status = .cancelled ∧ t.notBefore = some (85 / 2) ∧
      t.excludedWorkerId = some Demo.worker ∧ ¬ t.Clean := by
  have hrow : ∃ t ∈ (play {} Demo.schemas .empty Demo.cancelled).2.tasks.rows,
      t.status = .cancelled ∧ t.notBefore = some (85 / 2) ∧
      t.excludedWorkerId = some Demo.worker := by
    decide +kernel
  obtain ⟨t, ht, hstatus, hnb, hex⟩ := hrow
  refine ⟨(play_run Demo.cancelled_playable).reachable, t, ht, hstatus, hnb, hex, fun hclean => ?_⟩
  rw [hclean.2.2.1] at hnb
  cases hnb

end TaskFleet.Model
