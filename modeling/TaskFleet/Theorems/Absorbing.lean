import TaskFleet.Logic.RowShape
import TaskFleet.Model.Inspection

/-!
# Terminal states are absorbing

A row that ended is written by nothing but the retention sweep, and by that in
its `result_id` alone (`RowStep.of_terminal`). The timeline of a failed or
cancelled task uses `updated_at` for want of a column, so it shows the moment
of that transition and goes on showing it.
-/

namespace TaskFleet.Model

open Py Sql

section

variable {cfg : Config} {schemas : Schemas} {db db' : Db} {e : Event} {es : List Event}

/-- The row `t` ended with the event `e` and not before. -/
def EndedBy (S : System Db Event) (es : List Event) (t : Task) : Prop :=
  ∃ as e bs u u', es = as ++ e :: bs ∧ S.Run as u ∧ S.step u e u' ∧
    (∃ r ∈ u.tasks, r.id = t.id ∧ r.status.isTerminal = false) ∧
    (∃ r ∈ u'.tasks, r.id = t.id ∧ r.status = t.status) ∧ t.updatedAt = e.now

theorem EndedBy.later {S : System Db Event} {t : Task} (h : EndedBy S es t) (e : Event) :
    EndedBy S (es ++ [e]) t := by
  obtain ⟨as, f, bs, u, u', hsplit, hrest⟩ := h
  exact ⟨as, f, bs ++ [e], u, u', by rw [hsplit]; simp, hrest⟩

/-- Whatever ends a row stamps it. -/
theorem RowStep.stamped {t t' : Task} (h : RowStep cfg db e t t')
    (hopen : t.status.isTerminal = false) (hterm : t'.status.isTerminal = true) :
    t'.updatedAt = e.now := by
  cases h with
  | keep => rw [hopen] at hterm; cases hterm
  | purge =>
      rw [show t.clearResult.status = t.status from rfl, hopen] at hterm
      cases hterm
  | fail => rfl
  | _ => rfl

/-- A row that ended is as it was, or a purge has cleared its pointer. -/
theorem Trace.absorbed (h : (queue cfg schemas).Trace db es db') {t : Task} (ht : t ∈ db.tasks)
    (hterm : t.status.isTerminal = true) :
    ∃ t' ∈ db'.tasks, t'.id = t.id ∧
      (t' = t ∨ t' = t.clearResult ∧ ∃ e ∈ es, ∃ days, e.op = .purge days) := by
  induction h with
  | nil => exact ⟨t, ht, rfl, .inl rfl⟩
  | @snoc es u u' e _ hs ih =>
      obtain ⟨r, hr, hid, hsame⟩ := ih
      obtain ⟨r', hr', hrow, hid'⟩ := (step_rows hs).forward r hr
      have hrterm : r.status.isTerminal = true := by
        rcases hsame with rfl | ⟨rfl, -⟩ <;> exact hterm
      refine ⟨r', hr', hid'.trans hid, ?_⟩
      rcases hrow.of_terminal hrterm with rfl | ⟨days, hop, rfl⟩
      · refine hsame.imp_right fun ⟨heq, f, hf, hpurge⟩ => ⟨heq, f, ?_, hpurge⟩
        exact List.mem_append_left _ hf
      · refine .inr ⟨?_, e, by simp, days, hop⟩
        rcases hsame with rfl | ⟨rfl, -⟩ <;> rfl

/-- Every row that ended carries the time of the event that ended it. -/
theorem Run.endedBy (h : (queue cfg schemas).Run es db) :
    ∀ t ∈ db.tasks, t.status.isTerminal = true → EndedBy (queue cfg schemas) es t := by
  refine h.invariant (I := fun es db => ∀ t ∈ db.tasks, t.status.isTerminal = true →
    EndedBy (queue cfg schemas) es t) ?_ ?_
  · rintro db ⟨htasks, -, -⟩ t ht
    rw [htasks] at ht
    exact absurd ht (Table.not_mem_empty t)
  · intro es db e db' hrun ih hs t' ht' hterm'
    rcases (step_rows hs).backward t' ht' with ⟨t, ht, hrow, hid⟩ | ⟨⟨_, _, _, -, -, heq⟩, -⟩
    · cases hterm : t.status.isTerminal with
      | true =>
          have hold := (ih t ht hterm).later e
          rcases hrow.of_terminal hterm with rfl | ⟨days, -, rfl⟩
          · exact hold
          · exact hold
      | false =>
          exact ⟨es, e, [], db, db', rfl, hrun, hs, ⟨t, ht, hid.symm, hterm⟩,
            ⟨t', ht', rfl, rfl⟩, hrow.stamped hterm hterm'⟩
    · rw [heq] at hterm'
      cases hterm'

/-- **Terminal states are absorbing.** Whatever happens after a task of a
reachable state has ended, its row stays as it is, except that a purge may
clear `result_id`. The timeline of a failed or cancelled task ends with the
moment of that transition, and still does at any later time. -/
theorem terminal_states_absorbing {past : List Event} (hpast : (queue cfg schemas).Run past db)
    (h : (queue cfg schemas).Trace db es db') {t : Task} (ht : t ∈ db.tasks)
    (hterm : t.status.isTerminal = true) :
    (∃ t' ∈ db'.tasks, t'.id = t.id ∧
      (t' = t ∨ t' = t.clearResult ∧ ∃ e ∈ es, ∃ days, e.op = .purge days)) ∧
    (t.status = .failed ∨ t.status = .cancelled → ∃ as e bs u u', past = as ++ e :: bs ∧
      (queue cfg schemas).Run as u ∧ (queue cfg schemas).step u e u' ∧
      (∃ r ∈ u.tasks, r.id = t.id ∧ r.status.isTerminal = false) ∧
      (∃ r ∈ u'.tasks, r.id = t.id ∧ r.status = t.status) ∧
      ∀ t' ∈ db'.tasks, t'.id = t.id →
        (lifecycle t').getLast? = some ⟨t.status, e.now, lastWriteSource⟩) := by
  obtain ⟨t', ht', hid, hsame⟩ := Trace.absorbed h ht hterm
  refine ⟨⟨t', ht', hid, hsame⟩, fun hshown => ?_⟩
  obtain ⟨as, e, bs, u, u', hsplit, hrun, hs, hbefore, hafter, hstamp⟩ :=
    Run.endedBy hpast t ht hterm
  refine ⟨as, e, bs, u, u', hsplit, hrun, hs, hbefore, hafter, fun r hr hrid => ?_⟩
  rw [Table.eq_of_key hr ht' (hrid.trans hid.symm), ← hstamp]
  rcases hsame with rfl | ⟨rfl, -⟩
  · exact lifecycle_last hshown
  · exact lifecycle_last (t := t.clearResult) hshown

end

/-- The claimed task of the small deployment, reported failed at 5. -/
def Demo.failed : List (Seconds × Op) :=
  Demo.claimed ++ [(5, .fail Demo.task.str Demo.worker "ValueError" "demo")]

theorem Demo.failed_playable : Playable {} Demo.schemas .empty Demo.failed :=
  ⟨rfl, trivial, trivial, trivial⟩

/-- What is tried on the failed task: its holder renews and reports, another
worker polls, a sweep and a purge pass. -/
def Demo.late : List (Seconds × Op) := [
  (6, .renewLease Demo.task.str Demo.worker),
  (7, .complete (Demo.envelope 0 Demo.token) Demo.worker Demo.resultId),
  (8, .dequeue Demo.otherWorker 1 100 none []),
  (90, .reclaim 100 [] fun _ => 1 / 2),
  (1000000, .purge 7)]

/-- None of it changes the row, which still shows the failure at 5. -/
theorem terminal_states_absorbing_failed :
    let db := (play {} Demo.schemas .empty Demo.failed).2
    let later := (play {} Demo.schemas db Demo.late).2
    ∃ t ∈ db.tasks, t.status = .failed ∧ ∃ t' ∈ later.tasks, t'.id = t.id ∧
      (t' = t ∨ t' = t.clearResult) := by
  intro db later
  obtain ⟨t, ht, hstatus⟩ : ∃ t ∈ db.tasks.rows, t.status = .failed := by decide +kernel
  have hplay : Playable {} Demo.schemas db Demo.late :=
    ⟨trivial, rfl, trivial, fun _ => by constructor <;> norm_num, trivial, trivial⟩
  obtain ⟨⟨t', ht', hid, hsame⟩, -⟩ := terminal_states_absorbing (play_run Demo.failed_playable)
    (play_trace hplay) ht (by rw [hstatus]; rfl)
  exact ⟨t, ht, hstatus, t', ht', hid, hsame.imp_right And.left⟩

end TaskFleet.Model
