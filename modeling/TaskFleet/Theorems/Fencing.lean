import TaskFleet.Logic.ClaimHistory
import TaskFleet.Logic.WireText

/-!
# The fencing verdict is the assignment history

What `complete_task` answers for a task that has not ended, against what
really happened in the run that led here. The verdict is computed from the row
and from `task_attempts`; the statement is about the claims of the run. Only
an envelope that the database does not take gets no verdict: the holder's
`INSERT` raises.
-/

namespace TaskFleet.Model

open Py Sql

/-- The database takes an envelope if a strict reader takes the text `json.dumps` writes
for it. -/
theorem Envelope.storable_eq_accepts {fl : FloatOps} (hfl : FloatSpelling fl) (e : Envelope) :
    e.storable = StrictJson.accepts (e.toJson.wire.text fl .default) := by
  rw [accepts_text_iff hfl default_legal, storable_wire]
  rfl

/-- **The verdict is the history.** `TRANSITIONED` is answered exactly to the current
assignee naming the current attempt; `NOT_OWNER` exactly to a worker no claim of the run
ever gave the task to; `FENCED` in every other case. Whatever is answered instead of
`TRANSITIONED`, no row of `tasks` or `task_results` changes. -/
structure FencedByHistory (es : List Event) (db : Db) (t : Task) (envelope : Envelope) (w : Uuid)
    (answer : Db × Outcome) : Prop where
  transitioned : answer.2 = .transitioned ↔
    t.assignedWorkerId = some w ∧ envelope.attemptNumber = t.attemptCount
  notOwner : answer.2 = .notOwner ↔ ¬ EverAssigned es t.id w
  fenced : answer.2 = .fenced ↔ EverAssigned es t.id w ∧
    ¬ (t.assignedWorkerId = some w ∧ envelope.attemptNumber = t.attemptCount)
  frame : answer.2 ≠ .transitioned → answer.1.tasks = db.tasks ∧ answer.1.results = db.results

section

variable {cfg : Config} {schemas : Schemas} {db : Db} {es : List Event}

/-- A reachable row that has not ended and names an assignee is live. -/
theorem isLive_of_assigned (h : (queue cfg schemas).Run es db) {t : Task} (ht : t ∈ db.tasks)
    (hstatus : t.status.isTerminal = false) {w : Uuid} (howner : t.assignedWorkerId = some w) :
    t.status.isLive = true := by
  have hshape := reachable_shape h.reachable t ht
  rcases hshape.cases with hq | hl | hterm
  · rw [(hshape.queued hq).1] at howner
    cases howner
  · exact hl
  · rw [hterm] at hstatus
    cases hstatus

end

namespace Demo

/-- The holder's result of the current attempt, with a `NaN` for its duration. -/
def poison : List (String × Json) :=
  [("task_id", .str task.str), ("status", .str "COMPLETED"), ("attempt_number", .int 0),
    ("session_epoch", .int 1), ("idempotency_token", .str "first"),
    ("duration_seconds", .float .nan), ("result", .null)]

end Demo

end TaskFleet.Model
