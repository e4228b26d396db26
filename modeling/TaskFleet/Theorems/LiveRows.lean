import TaskFleet.Logic.RowShape
import TaskFleet.Logic.Records

/-!
# Live rows are well formed

The reclaimer finds a live task by its lease, so a live row without one would
be stranded for good. Every reachable row has the shape of its status
(`Task.Shape`), and from it follow the three consequences the recovery path
rests on: no live row is out of the sweep's sight, a sweep always knows who
lost the task, and a completion never meets a state it cannot complete from.
-/

namespace TaskFleet.Model

open Py Sql

section

variable {cfg : Config} {schemas : Schemas} {db : Db}

/-- The sweep sees a row of the right shape as soon as its lease is over. -/
theorem Task.Shape.visible {t : Task} (h : t.Shape) (hlive : t.status.isLive = true) :
    ∃ lease, t.leaseExpiresAt = some lease ∧
      ∀ now, (expired now t).holds = true ↔ lease < now := by
  obtain ⟨lease, hlease⟩ := Option.isSome_iff_exists.mp (h.live hlive).2.2.1
  refine ⟨lease, hlease, fun now => ?_⟩
  rw [expired_holds]
  constructor
  · rintro ⟨-, l, hl, hlt⟩
    rw [hlease, Option.some.injEq] at hl
    exact hl ▸ hlt
  · exact fun hlt => ⟨hlive, lease, hlease, hlt⟩

/-- What a sweep returns and records of a row it took names the holder. -/
theorem reclaimed_names_holder (hshape : ∀ t ∈ db.tasks, t.Shape) {now : Seconds} {batch : Int}
    {skip : List Uuid} {draw : Uuid → ℚ} {db' : Db} {rows : List ReclaimedTask}
    (h : reclaimExpiredLeases cfg db now batch skip draw = .ok (db', rows)) :
    ∀ r ∈ rows, ∃ t ∈ db.tasks, ∃ w, t.id = r.id ∧ t.assignedWorkerId = some w ∧
      r.previousWorkerId = some w ∧
      ∃ a ∈ db'.attempts, a.taskId = r.id ∧ a.attemptNumber = t.attemptCount ∧
        a.workerId = some w := by
  obtain ⟨hdb, rfl⟩ := reclaimExpiredLeases_eq_ok h
  intro r hr
  obtain ⟨t, ht, rfl⟩ := List.mem_map.mp hr
  obtain ⟨hmem, hwhere⟩ := mem_expiredRows ht
  obtain ⟨w, hw⟩ := (hshape t hmem).holder (expired_holds.mp hwhere).1
  refine ⟨t, hmem, w, rfl, hw, hw, (t.reclaimed cfg db.policies now draw).attempt now, ?_, rfl, rfl,
    hw⟩
  rw [hdb]
  exact List.mem_append_right _ (List.mem_map_of_mem hr)

/-- A completion never finds a live state it cannot leave. -/
theorem completeTask_ne_illegal (hshape : ∀ t ∈ db.tasks, t.Shape) (now : Seconds)
    (envelope : Envelope) (w resultId : Uuid) :
    (completeTask db now envelope w resultId).2 ≠ .illegal := by
  rcases completeTask_cases db now envelope w resultId with hnone | ⟨row, hrow, -, hcase⟩
  · rw [hnone]
    simp
  · have hrowShape := hshape row (Table.get?_eq_some_iff.mp hrow).1
    generalize completeTask db now envelope w resultId = r at hcase
    cases hcase with
    | terminal hstatus =>
        exact terminalResultOutcome_ne (by decide)
    | illegal hstatus hlive howner hattempt =>
        -- a state that is neither terminal nor live is `QUEUED`, which nobody holds
        rcases hrowShape.cases with hq | hl | ht
        · rw [(hrowShape.queued hq).1] at howner
          cases howner
        · rw [hl] at hlive
          cases hlive
        · rw [ht] at hstatus
          cases hstatus
    | _ => simp

/-- **Live-row well-formedness.** In every reachable state every row has the
shape of its status. Hence the sweep's predicate sees every live row exactly
when its lease is over; every row a sweep takes back names the worker that
lost it, in its answer and in the attempt history; and `complete_task` never
answers `ILLEGAL`. -/
theorem live_rows_well_formed (h : (queue cfg schemas).Reachable db) :
    (∀ t ∈ db.tasks, t.Shape) ∧
    (∀ t ∈ db.tasks, t.status.isLive = true → ∃ lease, t.leaseExpiresAt = some lease ∧
      ∀ now, (expired now t).holds = true ↔ lease < now) ∧
    (∀ now batch skip draw db' rows,
      reclaimExpiredLeases cfg db now batch skip draw = .ok (db', rows) →
      ∀ r ∈ rows, ∃ t ∈ db.tasks, ∃ w, t.id = r.id ∧ t.assignedWorkerId = some w ∧
        r.previousWorkerId = some w ∧
        ∃ a ∈ db'.attempts, a.taskId = r.id ∧ a.attemptNumber = t.attemptCount ∧
          a.workerId = some w) ∧
    (∀ now envelope w resultId, (completeTask db now envelope w resultId).2 ≠ .illegal) := by
  have hshape := reachable_shape h
  refine ⟨hshape, fun t ht hlive => (hshape t ht).visible hlive, ?_, ?_⟩
  · intro now batch skip draw db' rows hok
    exact reclaimed_names_holder hshape hok
  · intro now envelope w resultId
    exact completeTask_ne_illegal hshape now envelope w resultId

end

/-- After a claim: the claimed row has its shape. -/
theorem live_rows_well_formed_claimed :
    ∃ t ∈ (play {} Demo.schemas .empty Demo.claimed).2.tasks, t.status = .assigned ∧ t.Shape := by
  obtain ⟨t, ht, hstatus⟩ :
      ∃ t ∈ (play {} Demo.schemas .empty Demo.claimed).2.tasks.rows, t.status = .assigned := by
    decide +kernel
  exact ⟨t, ht, hstatus,
    (live_rows_well_formed (play_run Demo.claimed_playable).reachable).1 t ht⟩

end TaskFleet.Model
