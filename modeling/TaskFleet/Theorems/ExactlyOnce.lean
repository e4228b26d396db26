import TaskFleet.Logic.Ledger

/-!
# Exactly-once completion

At most one completion of a task is ever accepted, because a task is a fenced
lease and a lease is accepted once. What was accepted is what is stored: the
result ledger holds of every run. Retention takes bodies away and nothing
else, and since a completed row is closed for good, no purge reopens it.
-/

namespace TaskFleet.Model

open Py Sql

section

variable {cfg : Config} {schemas : Schemas} {db db' : Db} {e : Event} {es : List Event}

/-- A body that a purge removes. -/
def Removed (db db' : Db) (rid : Uuid) : Prop :=
  ∃ r ∈ db.results, r.id = rid ∧ r ∉ db'.results

/-- What a purge changes: it drops the bodies past retention and clears the
pointers to them. -/
structure PurgeFrame (db : Db) (e : Event) (retentionDays : Int) (db' : Db) : Prop where
  results : ∀ r, r ∈ db'.results ↔ r ∈ db.results ∧ purged e.now retentionDays r = false
  tasks : ∀ t', t' ∈ db'.tasks ↔ ∃ t ∈ db.tasks,
    ((∃ rid, t.resultId = some rid ∧ Removed db db' rid) ∧ t' = t.clearResult) ∨
    ((¬ ∃ rid, t.resultId = some rid ∧ Removed db db' rid) ∧ t' = t)
  attempts : db'.attempts = db.attempts
  policies : db'.policies = db.policies

theorem step_purgeFrame {retentionDays : Int} (hs : (queue cfg schemas).step db e db')
    (hop : e.op = .purge retentionDays) : PurgeFrame db e retentionDays db' := by
  obtain ⟨-, happly⟩ := hs
  rw [hop] at happly
  simp only [apply, Prod.mk.injEq] at happly
  obtain ⟨hdb, -⟩ := happly
  rw [purgeExpiredResults_fst] at hdb
  have hresults : db'.results = db.results.deleteWhere (purged e.now retentionDays) := by rw [← hdb]
  have hpoint : ∀ t, pointsInto (purged e.now retentionDays) db.results t = true ↔
      ∃ rid, t.resultId = some rid ∧ Removed db db' rid := by
    intro t
    rw [pointsInto_iff]
    constructor
    · rintro ⟨r, hr, hid, hdel⟩
      refine ⟨r.id, hid, r, hr, rfl, fun hmem => ?_⟩
      rw [hresults, Table.mem_deleteWhere, hdel] at hmem
      cases hmem.2
    · rintro ⟨rid, hid, r, hr, rfl, hnot⟩
      refine ⟨r, hr, hid, ?_⟩
      rw [hresults, Table.mem_deleteWhere] at hnot
      by_contra hkeep
      exact hnot ⟨hr, by simpa using hkeep⟩
  refine ⟨fun r => by rw [hresults]; exact Table.mem_deleteWhere, fun t' => ?_, by rw [← hdb],
    by rw [← hdb]⟩
  rw [show db'.tasks = _ from (congrArg Db.tasks hdb).symm,
    Table.mem_updateWhere Task.clearResult_id]
  refine exists_congr fun t => and_congr_right fun _ => ?_
  rw [← hpoint t]
  split
  · next hp => simp [hp]
  · next hp => simp [hp]

/-- **Exactly-once completion.** In every run at most one completion of a task
is accepted; at every state reached only completed rows carry a result
pointer, the pointers are injective and onto the stored bodies, and a stored
body is the one its row's holder submitted for its row's current attempt. A
purge removes bodies and clears exactly the pointers to them, and no
completion of a completed task is ever accepted again, before or after any
purge. -/
theorem exactly_once_completion (h : (queue cfg schemas).Run es db) :
    (∀ id, (es.filter (Event.completes id)).length ≤ 1) ∧
    (∀ t ∈ db.tasks, ∀ rid, t.resultId = some rid →
      t.status = .completed ∧ ∃ r ∈ db.results, r.id = rid ∧ StoredFor es t r) ∧
    (∀ t ∈ db.tasks, ∀ u ∈ db.tasks, ∀ rid, t.resultId = some rid → u.resultId = some rid →
      t = u) ∧
    (∀ r ∈ db.results, ∃ t ∈ db.tasks, t.resultId = some r.id) ∧
    (∀ e db' retentionDays, (queue cfg schemas).step db e db' → e.op = .purge retentionDays →
      PurgeFrame db e retentionDays db') ∧
    (∀ t ∈ db.tasks, t.status = .completed → ∀ fs db', (queue cfg schemas).Trace db fs db' →
      ∀ e ∈ fs, e.completes t.id = false) := by
  have hledger := Run.ledger h
  refine ⟨completes_at_most_once h, hledger.pointer, ?_, hledger.onto, ?_, ?_⟩
  · intro t ht u hu rid htr hur
    exact hledger.injective ht hu htr hur
  · intro e db' retentionDays hs hop
    exact step_purgeFrame hs hop
  · intro t ht hc fs db' htrace e he
    have hsilent := label_of_terminal h.reachable ht (by rw [hc]; rfl) htrace e he
    rw [← isAccept_label, hsilent]
    rfl

end

/-- Claimed, completed, submitted once more, and purged ten days later. -/
def Demo.completed : List (Seconds × Op) := Demo.claimed ++
  [(5, .complete (Demo.envelope 0 Demo.token) Demo.worker Demo.resultId),
    (6, .complete (Demo.envelope 0 Demo.token) Demo.worker ⟨5, by decide⟩),
    (864000, .purge 7)]

theorem Demo.completed_playable : Playable {} Demo.schemas .empty Demo.completed :=
  ⟨rfl, trivial, rfl, Option.isNone_iff_eq_none.mp (by decide +kernel), trivial, trivial⟩

/-- On that run the task is completed once. -/
theorem exactly_once_completion_completed :
    ((play {} Demo.schemas .empty Demo.completed).1.filter
      (Event.completes Demo.task)).length ≤ 1 :=
  (exactly_once_completion (play_run Demo.completed_playable)).1 Demo.task

end TaskFleet.Model
