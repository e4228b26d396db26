import TaskFleet.Model.Tables

/-!
# `main.py`: what the operator endpoint shows of a task

`_lifecycle` rebuilds the state history from the row's own timestamps. Two of
the states have no column of their own, and their entry uses `updated_at`.
-/

namespace TaskFleet.Model

/-- One entry of the timeline, with the column it was read from. -/
structure LifecycleEntry where
  state : TaskState
  time : Seconds
  source : String
  deriving DecidableEq

/-- The `source` of an entry that no column was kept for. -/
def lastWriteSource : String :=
  "updated_at (no dedicated column; terminal states are the last write)"

/-- `_lifecycle`, oldest first. -/
def lifecycle (t : Task) : List LifecycleEntry :=
  [⟨.queued, t.createdAt, "created_at"⟩] ++
  (t.assignedAt.map fun time => ⟨.assigned, time, "assigned_at"⟩).toList ++
  (t.startedAt.map fun time => ⟨.running, time, "started_at"⟩).toList ++
  if t.status = .completed ∧ t.completedAt.isSome then
    (t.completedAt.map fun time => ⟨.completed, time, "completed_at"⟩).toList
  else if t.status = .failed ∨ t.status = .cancelled then
    [⟨t.status, t.updatedAt, lastWriteSource⟩]
  else []

/-- A task that failed or was cancelled is shown as such at its last write. -/
theorem lifecycle_last {t : Task} (h : t.status = .failed ∨ t.status = .cancelled) :
    (lifecycle t).getLast? = some ⟨t.status, t.updatedAt, lastWriteSource⟩ := by
  have hnot : ¬ (t.status = .completed ∧ t.completedAt.isSome = true) := by
    rintro ⟨hc, -⟩
    rcases h with h | h <;> rw [hc] at h <;> cases h
  rw [lifecycle, if_neg hnot, if_pos h, List.getLast?_append, List.getLast?_singleton,
    Option.some_or]

end TaskFleet.Model
