import TaskFleet.Logic.RowShape

/-!
# What becomes of a live row

`RowStep` says how a row can change. What a given call does to a row that is
live and held by `w` is said here: its lease gets shorter only by `w`'s own
disconnect, and the sweep takes it only once that lease has run out.
-/

namespace TaskFleet.Model

open Py Sql

/-- An update elsewhere leaves the row. -/
theorem Table.mem_updateWhere_of_not {t : Task} {p : Task → Bool} {f : Task → Task}
    (hf : ∀ t, (f t).id = t.id) {tasks : Tasks} (ht : t ∈ tasks) (hp : p t = false) :
    t ∈ tasks.updateWhere p f hf := by
  have hin := Table.mem_updateWhere_of_mem hf ht (p := p)
  rwa [hp, if_neg Bool.false_ne_true] at hin

theorem Db.mem_updateTask_of_ne {db : Db} {t : Task} {f : Task → Task} (hf : ∀ t, (f t).id = t.id)
    {id : Uuid} (ht : t ∈ db.tasks) (hne : t.id ≠ id) : t ∈ (db.updateTask id f hf).tasks :=
  Table.mem_updateWhere_of_not hf ht (by simpa using hne)

/-- What a call makes of a live row that is not shortened by it. -/
inductive HeldStep (cfg : Config) (db : Db) (now : Seconds) (t : Task) : Task → Prop
  | same : HeldStep cfg db now t t
  | cleared : HeldStep cfg db now t t.clearResult
  | renewed : HeldStep cfg db now t (t.renew cfg now)
  | started (hstatus : t.status = .assigned) :
      HeldStep cfg db now t (t.mark cfg db.policies now .running)
  /-- The attempt came to an end of its own. -/
  | ended {t' : Task} (hterm : t'.status.isTerminal = true) (hid : t'.id = t.id)
      (hattempt : t'.attemptCount = t.attemptCount) : HeldStep cfg db now t t'

section

variable {cfg : Config} {schemas : Schemas} {db : Db} {now : Seconds} {t : Task} {w v : Uuid}

theorem HeldStep.id_eq {t' : Task} (h : HeldStep cfg db now t t') : t'.id = t.id := by
  cases h with
  | same => rfl
  | cleared => rfl
  | renewed => rfl
  | started => rfl
  | ended _ hid => exact hid

/-- An update of some rows by `f`, seen at one row. -/
theorem heldStep_updateWhere {p : Task → Bool} {f : Task → Task} (hf : ∀ t, (f t).id = t.id)
    (ht : t ∈ db.tasks) (h : p t = true → HeldStep cfg db now t (f t)) :
    ∃ t' ∈ db.tasks.updateWhere p f hf, HeldStep cfg db now t t' := by
  cases hp : p t with
  | false => exact ⟨t, Table.mem_updateWhere_of_not hf ht hp, .same⟩
  | true =>
      refine ⟨f t, ?_, h hp⟩
      have hin := Table.mem_updateWhere_of_mem hf ht (p := p)
      rwa [hp, if_pos rfl] at hin

/-- A report of `v`, seen at one row. -/
theorem heldStep_markStatus {taskId : String} {newStatus : TaskState} (ht : t ∈ db.tasks)
    (h : newStatus ∈ t.status.allowed → t.assignedWorkerId = some v →
      HeldStep cfg db now t (t.mark cfg db.policies now newStatus)) :
    ∃ t' ∈ (markStatus cfg db now taskId v newStatus).1.tasks, HeldStep cfg db now t t' := by
  unfold markStatus
  split
  · exact ⟨t, ht, .same⟩
  · next id _ =>
      rcases markStatusAt_cases cfg db now id v newStatus with
        ⟨row, hrow, howner, hedge, hmark⟩ | ⟨outcome, -, hmark⟩
      · obtain ⟨hmem, rfl⟩ := Table.get?_eq_some_iff.mp hrow
        rw [hmark]
        refine heldStep_updateWhere Task.mark_id ht fun hp => ?_
        have hsame : t = row := Table.eq_of_key ht hmem (of_decide_eq_true hp)
        rw [← hsame] at hedge howner
        exact h hedge howner
      · rw [hmark]
        exact ⟨t, ht, .same⟩

theorem heldStep_failTask {taskId errorType correlationId : String} (ht : t ∈ db.tasks) :
    ∃ t' ∈ (failTask cfg db now taskId v errorType correlationId).1.tasks,
      HeldStep cfg db now t t' := by
  have hmark : ∃ t' ∈ (markStatus cfg db now taskId v .failed).1.tasks, HeldStep cfg db now t t' :=
    heldStep_markStatus ht fun _ _ => .ended rfl rfl rfl
  unfold failTask
  split
  · next db₁ heq =>
      rw [heq] at hmark
      rw [recordExecutionFailure_tasks]
      exact hmark
  · exact ⟨t, ht, .same⟩

theorem heldStep_completeTask {envelope : Envelope} {resultId : Uuid} (ht : t ∈ db.tasks) :
    ∃ t' ∈ (completeTask db now envelope v resultId).1.tasks, HeldStep cfg db now t t' := by
  rcases completeTask_cases db now envelope v resultId with hnone | ⟨row, hrow, -, hcase⟩
  · rw [hnone]
    exact ⟨t, ht, .same⟩
  · generalize completeTask db now envelope v resultId = r at hcase
    cases hcase with
    | terminal => exact ⟨t, ht, .same⟩
    | fenced =>
        rw [recordFence_tasks]
        exact ⟨t, ht, .same⟩
    | notOwner => exact ⟨t, ht, .same⟩
    | illegal => exact ⟨t, ht, .same⟩
    | raised => exact ⟨t, ht, .same⟩
    | stored =>
        exact heldStep_updateWhere Task.complete_id ht fun _ => .ended rfl rfl rfl

theorem heldStep_cancel {taskId : String} (ht : t ∈ db.tasks) (hlive : t.status.isLive = true) :
    ∃ t' ∈ (cancelQueuedTask db now taskId).1.tasks, HeldStep cfg db now t t' := by
  refine ⟨t, ?_, .same⟩
  unfold cancelQueuedTask
  split
  · exact ht
  · next id _ =>
      unfold cancelQueuedTaskAt
      split
      · exact ht
      · next row hrow =>
          split
          · exact ht
          · next hqueued =>
              refine Db.mem_updateTask_of_ne Task.cancel_id ht fun hid => ?_
              obtain ⟨hmem, hkey⟩ := Table.get?_eq_some_iff.mp hrow
              rw [Table.eq_of_key ht hmem (hid.trans hkey.symm)] at hlive
              exact TaskState.ne_queued_of_isLive hlive (not_not.mp hqueued)

/-- A claim passes the row by. -/
theorem dequeue_keeps {db' : Db} {limit maxBatch : Int} {taskTypes : Option (List String)}
    {skip : List Uuid} {rows : List ClaimedTask} (ht : t ∈ db.tasks)
    (hlive : t.status.isLive = true)
    (h : dequeue cfg db now v limit maxBatch taskTypes skip = .ok (db', rows)) :
    t ∈ db'.tasks ∧ ∀ r ∈ rows, r.id ≠ t.id := by
  obtain ⟨rfl, rfl⟩ := dequeue_eq_ok h
  have hnot : ∀ u ∈ claimedRows cfg db now v limit taskTypes skip, u.id ≠ t.id := by
    intro u hu hid
    obtain ⟨hmem, hwhere⟩ := mem_claimedRows hu
    rw [Table.eq_of_key hmem ht hid] at hwhere
    exact TaskState.ne_queued_of_isLive hlive (claimable_queued hwhere)
  constructor
  · refine Table.mem_updateWhere_of_not Task.claim_id ht ?_
    rw [decide_eq_false_iff_not, List.mem_map]
    rintro ⟨u, hu, hid⟩
    exact hnot u hu hid
  · intro r hr
    obtain ⟨u, hu, rfl⟩ := List.mem_map.mp hr
    exact hnot u hu

/-- The sweep passes by what has not expired. -/
theorem reclaim_keeps {db' : Db} {batch : Int} {skip : List Uuid} {draw : Uuid → ℚ}
    {rows : List ReclaimedTask} (ht : t ∈ db.tasks) (hkept : (expired now t).holds = false)
    (h : reclaimExpiredLeases cfg db now batch skip draw = .ok (db', rows)) : t ∈ db'.tasks := by
  obtain ⟨rfl, -⟩ := reclaimExpiredLeases_eq_ok h
  refine Table.mem_updateWhere_of_not Task.reclaim_id ht ?_
  rw [decide_eq_false_iff_not, List.mem_map]
  rintro ⟨u, hu, hid⟩
  obtain ⟨hmem, hexpired⟩ := mem_expiredRows hu
  rw [Table.eq_of_key hmem ht hid, hkept] at hexpired
  cases hexpired

/-- The holder's report of a failure ends the attempt. -/
theorem failTask_ends {errorType correlationId : String} (ht : t ∈ db.tasks)
    (hlive : t.status.isLive = true) (hw : t.assignedWorkerId = some w) :
    ∃ t' ∈ (failTask cfg db now t.id.str w errorType correlationId).1.tasks,
      t'.id = t.id ∧ t'.attemptCount = t.attemptCount ∧ t'.status.isTerminal = true := by
  have hedge : TaskState.failed ∈ t.status.allowed := failed_mem_allowed.mpr hlive
  simp only [failTask, markStatus, Uuid.parse_str, markStatusAt_of_edge ht hw hedge,
    recordExecutionFailure_tasks]
  exact ⟨_, Db.mem_updateTask Task.mark_id ht rfl, rfl, rfl, rfl⟩

/-- The holder's result of the current attempt ends it, unless the database refuses it. -/
theorem completeTask_ends {envelope : Envelope} {resultId : Uuid} (ht : t ∈ db.tasks)
    (hlive : t.status.isLive = true) (hw : t.assignedWorkerId = some w)
    (hid : envelope.taskId = t.id.str) (hattempt : envelope.attemptNumber = t.attemptCount)
    (htaken : (completeTask db now envelope w resultId).2 ≠ .raised) :
    ∃ t' ∈ (completeTask db now envelope w resultId).1.tasks,
      t'.id = t.id ∧ t'.attemptCount = t.attemptCount ∧ t'.status.isTerminal = true := by
  have hparse : Uuid.parse envelope.taskId = some t.id := by rw [hid, Uuid.parse_str]
  have hterm : t.status.isTerminal = false := TaskState.not_isTerminal_of_isLive hlive
  rw [completeTask_eq_completeRow ht hparse] at htaken ⊢
  have hcase := completeRow_case db now t envelope w resultId
  generalize completeRow db now t envelope w resultId = r at hcase htaken
  cases hcase with
  | terminal hstatus => rw [hterm] at hstatus; cases hstatus
  | fenced _ hstale => exact absurd ⟨hw, hattempt⟩ hstale
  | notOwner _ hstale => exact absurd ⟨hw, hattempt⟩ hstale
  | illegal _ hnot => rw [hlive] at hnot; cases hnot
  | raised => exact absurd rfl htaken
  | stored => exact ⟨_, Db.mem_updateTask Task.complete_id ht rfl, rfl, rfl, rfl⟩

/-- **Whatever is called**, save a disconnect of its holder and a sweep that
comes after its lease has run out, a live row is left alone, renewed or started,
or its attempt ends. -/
theorem held_step {op : Op} (ht : t ∈ db.tasks) (hlive : t.status.isLive = true)
    (hw : t.assignedWorkerId = some w)
    (hop : ∀ graceSeconds, op ≠ .shortenWorkerLeases w graceSeconds)
    (hswept : ∀ batch skip draw, op = .reclaim batch skip draw → (expired now t).holds = false) :
    ∃ t' ∈ (apply cfg schemas db now op).1.tasks, HeldStep cfg db now t t' := by
  cases op with
  | enqueue id req =>
      refine ⟨t, ?_, .same⟩
      simp only [apply]
      split
      · next db' henqueue =>
          unfold enqueue at henqueue
          split at henqueue
          · cases henqueue
          · cases henqueue
            exact Table.mem_insert_of_mem ht
      · exact ht
  | dequeue v limit maxBatch taskTypes skip =>
      refine ⟨t, ?_, .same⟩
      simp only [apply]
      split
      · next hok => exact (dequeue_keeps ht hlive hok).1
      · exact ht
  | start taskId v =>
      simp only [apply]
      exact heldStep_markStatus ht fun hedge _ => .started (running_mem_allowed.mp hedge)
  | fail taskId v errorType correlationId =>
      simp only [apply]
      exact heldStep_failTask ht
  | complete envelope v resultId =>
      simp only [apply]
      exact heldStep_completeTask ht
  | renewLease taskId v =>
      simp only [apply, renewLease]
      split
      · exact ⟨t, ht, .same⟩
      · exact heldStep_updateWhere Task.renew_id ht fun _ => .renewed
  | renewWorkerLeases v => exact heldStep_updateWhere Task.renew_id ht fun _ => .renewed
  | shortenWorkerLeases v graceSeconds =>
      refine ⟨t, ?_, .same⟩
      -- the only statement that could shorten this lease is the holder's own
      refine Table.mem_updateWhere_of_not Task.shorten_id ht ?_
      rw [Bool.eq_false_iff]
      intro hheld
      have hv := (heldLive_holds.mp hheld).1
      rw [hw, Option.some.injEq] at hv
      exact hop graceSeconds (by rw [hv])
  | reclaim batch skip draw =>
      simp only [apply]
      split
      · next hok => exact ⟨t, reclaim_keeps ht (hswept batch skip draw rfl) hok, .same⟩
      · exact ⟨t, ht, .same⟩
  | cancel taskId =>
      simp only [apply]
      exact heldStep_cancel ht hlive
  | purge retentionDays =>
      simp only [apply, purgeExpiredResults_fst]
      exact heldStep_updateWhere Task.clearResult_id ht fun _ => .cleared
  | setPolicy taskType values =>
      refine ⟨t, ?_, .same⟩
      simp only [apply]
      split
      · next hok => rwa [(setPolicy_frame hok).1]
      · exact ht
  | clearPolicy taskType =>
      refine ⟨t, ?_, .same⟩
      simp only [apply]
      split
      · next hok => rwa [(clearPolicy_frame hok).1]
      · exact ht

end

end TaskFleet.Model
