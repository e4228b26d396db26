import TaskFleet.Logic.TaskCounts

/-!
# The attempt history, row by row

`task_attempts` without its fences. Three statements write it: the sweep one
row for each task it takes back, with the count it has just raised, less one;
the failure report one row with the count as it is. `step_endings` says that
what they write is what the event means to the task, and `Run.timeline` that
along any run these rows are the attempts of the task that ended abnormally,
each once and in order.
-/

namespace TaskFleet.Model

open Py Sql

/-- How an attempt ended, its number, and who had it. -/
def TaskAttempt.entry (a : TaskAttempt) : AttemptOutcome × ℕ × Option Uuid :=
  (a.outcome, a.attemptNumber, a.workerId)

/-- The abnormal endings recorded of a task: every row but the fences. -/
def Db.endings (db : Db) (id : Uuid) : List TaskAttempt :=
  db.attempts.filter fun a => a.taskId = id ∧ a.outcome ≠ .fenced

/-- What an event adds to the endings of the task `id`, which is at attempt `n`. -/
def Event.ends (id : Uuid) (n : ℕ) (e : Event) : List (AttemptOutcome × ℕ × Option Uuid) :=
  match e.label id with
  | .revoke w m => [(.reassigned, m, some w)]
  | .expire w m => [(.failed, m, some w)]
  | .abandon w => [(.failed, n, some w)]
  | _ => []

/-- The entries are the attempts `0, …, n - 1` of the task in this order, each
taken back from the worker it was handed to. -/
structure Reassigned (es : List Event) (id : Uuid) (n : ℕ)
    (l : List (AttemptOutcome × ℕ × Option Uuid)) : Prop where
  numbers : l.map (fun x => x.2.1) = List.range n
  outcome : ∀ x ∈ l, x.1 = .reassigned
  worker : ∀ x ∈ l, ∃ w, x.2.2 = some w ∧ Claimed es id x.2.1 w

/-- What failed the task, as its lease sees it. -/
def failures (id : Uuid) (es : List Event) : List (Lease.Event Uuid) :=
  (es.map (Event.label id)).filter Lease.Event.isFailure

/-- The endings of a task in a status, at an attempt. -/
inductive Timeline (es : List Event) (id : Uuid) : TaskState → ℕ →
    List (AttemptOutcome × ℕ × Option Uuid) → Prop
  /-- Every attempt before the current one was taken back. -/
  | going {s : TaskState} {n : ℕ} {l : List (AttemptOutcome × ℕ × Option Uuid)} (hs : s ≠ .failed)
      (hl : Reassigned es id n l) (hevents : failures id es = []) : Timeline es id s n l
  /-- The sweep gave the task up with attempt `n`. -/
  | exhausted {n : ℕ} {l : List (AttemptOutcome × ℕ × Option Uuid)} {w : Uuid}
      (hl : Reassigned es id n l) (hclaimed : Claimed es id n w)
      (hevents : failures id es = [.expire w n]) :
      Timeline es id .failed (n + 1) (l ++ [(.failed, n, some w)])
  /-- The holder of attempt `n` reported that it failed. -/
  | reported {n : ℕ} {l : List (AttemptOutcome × ℕ × Option Uuid)} {w : Uuid}
      (hl : Reassigned es id n l) (hclaimed : Claimed es id n w)
      (hevents : failures id es = [.abandon w]) :
      Timeline es id .failed n (l ++ [(.failed, n, some w)])

section

variable {cfg : Config} {schemas : Schemas} {db db' : Db} {e : Event} {es : List Event}

theorem endings_append {new : List TaskAttempt}
    (h : db'.attempts = db.attempts ++ new) (id : Uuid) :
    db'.endings id = db.endings id ++ new.filter fun a => a.taskId = id ∧ a.outcome ≠ .fenced := by
  rw [Db.endings, h, List.filter_append]
  rfl

/-- A fence is no ending. -/
theorem recordAttemptOnce_endings {a : TaskAttempt} (h : a.outcome = .fenced) (id : Uuid) :
    (db.recordAttemptOnce a).endings id = db.endings id := by
  rcases db.recordAttemptOnce_eq a with hsame | hadd
  · rw [hsame]
  · rw [hadd, endings_append rfl]
    simp [h]

theorem recordFence_endings (db : Db) (now : Seconds) (row : Task) (envelope : Envelope) (w : Uuid)
    (isAssignee : Bool) (id : Uuid) :
    (recordFence db now row envelope w isAssignee).endings id = db.endings id := by
  unfold recordFence
  split
  · exact recordAttemptOnce_endings rfl id
  · rfl

/-- The failure report of a task without a `FAILED` row writes one. -/
theorem recordExecutionFailure_endings {now : Seconds} {taskId errorType correlationId : String}
    {i w : Uuid} {row : Task} (hid : Uuid.parse taskId = some i) (hrow : db.tasks.get? i = some row)
    {id : Uuid} (hnew : id = i → ∀ a ∈ db.endings id, a.outcome ≠ .failed) :
    ((recordExecutionFailure db now taskId w errorType correlationId).endings id).map
        TaskAttempt.entry =
      (db.endings id).map TaskAttempt.entry ++
        if id = i then [(.failed, row.attemptCount, some w)] else [] := by
  simp only [recordExecutionFailure, hid, recordExecutionFailureAt, hrow]
  by_cases h : id = i
  · subst h
    have hnone : ¬ (db.attempts.any fun b => b.taskId = id ∧ b.workerId = some w ∧
        b.attemptNumber = row.attemptCount ∧ b.outcome = .failed) = true := by
      rw [List.any_eq_true]
      rintro ⟨b, hb, hsame⟩
      obtain ⟨htask, -, -, hfailed⟩ := of_decide_eq_true hsame
      refine hnew rfl b (List.mem_filter.mpr ⟨hb, ?_⟩) hfailed
      simp [htask, hfailed]
    rw [Db.recordAttemptOnce, if_neg hnone, endings_append rfl, List.map_append]
    simp [TaskAttempt.entry]
  · -- a row of another task
    rw [if_neg h, List.append_nil]
    rcases Db.recordAttemptOnce_eq db _ with hsame | hadd
    · rw [hsame]
    · rw [hadd, endings_append rfl]
      simp [Ne.symm h]

/-- Calls that record nothing end no attempt. -/
theorem ends_of_not_records {id : Uuid} {n : ℕ} (h : e.op.records = false) : e.ends id n = [] := by
  unfold Event.ends
  cases hop : e.op with
  | fail | complete | reclaim | purge => rw [hop] at h; cases h
  | enqueue i req =>
      by_cases hc : e.reply.done = true ∧ i = id <;> simp [Event.label, hop, hc]
  | dequeue w limit maxBatch taskTypes skip =>
      cases hfind : e.reply.claims.find? fun r => r.id = id <;> simp [Event.label, hop, hfind]
  | cancel taskId =>
      by_cases hc : e.reply.done = true ∧
        Uuid.parse taskId = some id <;> simp [Event.label, hop, hc]
  | _ => simp [Event.label, hop]

/-- The failure report ends the attempt its event abandons. -/
theorem failTask_endings {taskId errorType correlationId : String} {w : Uuid} {outcome : Outcome}
    (he : e.op = .fail taskId w errorType correlationId)
    (h : failTask cfg db e.now taskId w errorType correlationId = (db', outcome))
    (hreply : e.reply = .moved outcome) {id : Uuid}
    (hnew : ∀ v, e.label id = .abandon v → ∀ a ∈ db.endings id, a.outcome ≠ .failed) :
    (db'.endings id).map TaskAttempt.entry =
      (db.endings id).map TaskAttempt.entry ++ e.ends id (db.lease id).token := by
  have hsilent : (outcome ≠ .transitioned ∨ Uuid.parse taskId ≠ some id) →
      e.ends id (db.lease id).token = [] := by
    intro hid
    simp only [Event.ends, Event.label, he, hreply, Reply.done]
    rw [if_neg (by simpa [or_iff_not_imp_left] using hid)]
  unfold failTask at h
  cases hparse : Uuid.parse taskId with
  | none =>
      simp only [markStatus, hparse] at h
      cases h
      rw [hsilent (.inl (by simp)), List.append_nil]
  | some i =>
      simp only [markStatus, hparse] at h
      rcases markStatusAt_cases cfg db e.now i w .failed with
        ⟨row, hrow, howner, hedge, hmark⟩ | ⟨answer, hanswer, hmark⟩
      · rw [hmark] at h
        obtain ⟨rfl, rfl⟩ := Prod.mk.inj h
        obtain ⟨hmem, rfl⟩ := Table.get?_eq_some_iff.mp hrow
        have hrow' := Table.get?_of_mem (Db.mem_updateTask
          (f := Task.mark cfg db.policies e.now .failed) Task.mark_id hmem rfl)
        rw [Task.mark_id] at hrow'
        have habandon : id = row.id → e.label id = .abandon w := by
          rintro rfl
          simp only [Event.label, he, hreply, Reply.done, hparse, decide_true, and_self, if_true]
        rw [recordExecutionFailure_endings hparse hrow' fun hid => hnew w (habandon hid)]
        congr 1
        by_cases hid : id = row.id
        · simp only [Event.ends, habandon hid, if_pos hid]
          rw [hid, Db.lease, hrow]
          rfl
        · rw [if_neg hid, hsilent (.inr (by simpa [hparse] using Ne.symm hid))]
      · rw [hmark] at h
        have hsame : db' = db ∧ outcome = answer := by
          cases answer <;> first | exact absurd rfl hanswer | (cases h; exact ⟨rfl, rfl⟩)
        obtain ⟨rfl, rfl⟩ := hsame
        rw [hsilent (.inl hanswer), List.append_nil]

/-- The sweep ends the attempts of the tasks it takes back. -/
theorem reclaim_endings (hreach : (queue cfg schemas).Reachable db) {batch : Int} {skip : List Uuid}
    {draw : Uuid → ℚ} {rows : List ReclaimedTask} (he : e.op = .reclaim batch skip draw)
    (h : reclaimExpiredLeases cfg db e.now batch skip draw = .ok (db', rows))
    (hreply : e.reply = .reclaimed rows) (id : Uuid) :
    (db'.endings id).map TaskAttempt.entry =
      (db.endings id).map TaskAttempt.entry ++ e.ends id (db.lease id).token := by
  obtain ⟨rfl, hrows⟩ := reclaimExpiredLeases_eq_ok h
  have hnodup : (rows.map ReclaimedTask.id).Nodup := by
    rw [hrows, List.map_map]
    exact nodup_selection
  have hfilter : (rows.map (ReclaimedTask.attempt e.now)).filter
      (fun a => a.taskId = id ∧ a.outcome ≠ .fenced) =
      ((rows.find? fun r => r.id = id).toList).map (ReclaimedTask.attempt e.now) := by
    rw [← Table.filter_eq_toList_find? hnodup, List.filter_map]
    congr 1
    refine List.filter_congr fun r _ => ?_
    simp only [Function.comp, ReclaimedTask.attempt]
    split <;> simp
  rw [endings_append rfl, hfilter, List.map_append]
  congr 1
  simp only [Event.ends, Event.label, he, hreply, Reply.reclaims]
  cases hfind : rows.find? fun r => r.id = id with
  | none => rfl
  | some r =>
      have hr := List.mem_of_find?_eq_some hfind
      rw [hrows] at hr
      obtain ⟨t, ht, rfl⟩ := List.mem_map.mp hr
      obtain ⟨hmem, hwhere⟩ := mem_expiredRows ht
      obtain ⟨w, hw⟩ := (reachable_shape hreach t hmem).holder (expired_holds.mp hwhere).1
      cases hex : t.exhausted cfg db.policies <;>
        simp [ReclaimedTask.label, ReclaimedTask.attempt, TaskAttempt.entry, Task.reclaimed,
          Task.reclaim, hex, hw]

/-- **What a step adds to the endings of a task** is what its event means to
the task. -/
theorem step_endings (hreach : (queue cfg schemas).Reachable db)
    (hs : (queue cfg schemas).step db e db') {id : Uuid}
    (hnew : ∀ v, e.label id = .abandon v → ∀ a ∈ db.endings id, a.outcome ≠ .failed) :
    (db'.endings id).map TaskAttempt.entry =
      (db.endings id).map TaskAttempt.entry ++ e.ends id (db.lease id).token := by
  -- an operation that records nothing leaves the history as it was
  cases hrec : e.op.records with
  | false =>
      rw [ends_of_not_records hrec, List.append_nil, Db.endings, (step_frame hs hrec).2]
      rfl
  | true =>
      obtain ⟨-, happly⟩ := hs
      obtain ⟨now, op, reply⟩ := e
      cases op with
      | fail taskId w errorType correlationId =>
          simp only [apply, Prod.mk.injEq] at happly
          obtain ⟨hdb, hreply⟩ := happly
          generalize hfail : failTask cfg db now taskId w errorType correlationId = r at hdb hreply
          subst hdb hreply
          have hop : Event.op ⟨now, .fail taskId w errorType correlationId, .moved r.2⟩ =
            .fail taskId w errorType correlationId := rfl
          exact failTask_endings hop hfail rfl hnew
      | reclaim batch skip draw =>
          simp only [apply] at happly
          split at happly
          · next rows hok =>
              obtain ⟨rfl, rfl⟩ := Prod.mk.inj happly
              have hop : Event.op ⟨now, .reclaim batch skip draw, .reclaimed rows⟩ =
                .reclaim batch skip draw := rfl
              exact reclaim_endings hreach hop hok rfl id
          · next error _ =>
              obtain ⟨rfl, rfl⟩ := Prod.mk.inj happly
              have hends : Event.ends id (db.lease id).token
                ⟨now, .reclaim batch skip draw, .limitExceeded error⟩ = [] := rfl
              rw [hends, List.append_nil]
      -- a fence adds a row, but no ending
      | complete envelope w resultId =>
          simp only [apply, Prod.mk.injEq] at happly
          obtain ⟨rfl, -⟩ := happly
          have hends : Event.ends id (db.lease id).token
              ⟨now, .complete envelope w resultId, reply⟩ =
              [] := by
            by_cases hc : reply.done = true ∧ Uuid.parse envelope.taskId = some id <;>
              simp [Event.ends, Event.label, hc]
          rw [hends, List.append_nil]
          rcases completeTask_cases db now envelope w resultId with hnone | ⟨row, hrow, hid, hcase⟩
          · rw [hnone]
          · generalize completeTask db now envelope w resultId = r at hcase ⊢
            cases hcase with
            | fenced hstatus hstale hheld => rw [recordFence_endings]
            | _ => rfl
      | purge retentionDays =>
          simp only [apply, Prod.mk.injEq] at happly
          obtain ⟨rfl, -⟩ := happly
          have hsame : (purgeExpiredResults db now retentionDays).1.attempts = db.attempts := by
            unfold purgeExpiredResults
            split <;> rfl
          have hends : Event.ends id (db.lease id).token
              ⟨now, .purge retentionDays, reply⟩ = [] := rfl
          rw [hends, List.append_nil, Db.endings, hsame]
          rfl
      | _ => cases hrec

/-! ## Along a run -/

section Timeline

variable {id : Uuid} {s : TaskState} {n : ℕ} {l : List (AttemptOutcome × ℕ × Option Uuid)}

theorem Reassigned.later (h : Reassigned es id n l) : Reassigned (es ++ [e]) id n l := by
  refine ⟨h.numbers, h.outcome, fun x hx => ?_⟩
  obtain ⟨w, hw, hc⟩ := h.worker x hx
  exact ⟨w, hw, hc.later⟩

/-- One more attempt was taken back. -/
theorem Reassigned.snoc (h : Reassigned es id n l) {w : Uuid} (hc : Claimed es id n w) :
    Reassigned es id (n + 1) (l ++ [(.reassigned, n, some w)]) := by
  refine ⟨?_, fun x hx => ?_, fun x hx => ?_⟩
  · rw [List.map_append, h.numbers, List.range_succ]
    rfl
  · rcases List.mem_append.mp hx with hx | hx
    · exact h.outcome x hx
    · rw [List.mem_singleton.mp hx]
  · rcases List.mem_append.mp hx with hx | hx
    · exact h.worker x hx
    · rw [List.mem_singleton.mp hx]
      exact ⟨w, rfl, hc⟩

theorem failures_snoc : failures id (es ++ [e]) =
    failures id es ++ [e.label id].filter Lease.Event.isFailure := by
  rw [failures, List.map_append, List.filter_append]
  rfl

theorem Timeline.later (h : Timeline es id s n l) (hlabel : e.label id = .silent) :
    Timeline (es ++ [e]) id s n l := by
  have hsame : failures id (es ++ [e]) = failures id es := by
    rw [failures_snoc, hlabel]
    exact List.append_nil _
  cases h with
  | going hs hl hf => exact .going hs hl.later (hsame.trans hf)
  | exhausted hl hc hf => exact .exhausted hl.later hc.later (hsame.trans hf)
  | reported hl hc hf => exact .reported hl.later hc.later (hsame.trans hf)

/-- Until a task fails its endings are reassignments. -/
theorem Timeline.reassigned (h : Timeline es id s n l) (hs : s ≠ .failed) :
    Reassigned es id n l ∧ failures id es = [] := by
  cases h with
  | going _ hl hf => exact ⟨hl, hf⟩
  | exhausted => exact absurd rfl hs
  | reported => exact absurd rfl hs

end Timeline

theorem TaskState.ne_failed_of_isLive {s : TaskState} (h : s.isLive = true) : s ≠ .failed := by
  rintro rfl
  cases h

/-- **One row.** What the event adds to the endings is what its timeline needs. -/
theorem RowStep.timeline {t t' : Task} {l : List (AttemptOutcome × ℕ × Option Uuid)}
    (h : RowStep cfg db e t t') (hrun : (queue cfg schemas).Run es db) (ht : t ∈ db.tasks)
    (hl : Timeline es t.id t.status t.attemptCount l) :
    Timeline (es ++ [e]) t.id t'.status t'.attemptCount (l ++ e.ends t.id t.attemptCount) := by
  have hheld : ∀ {w}, t.status.isLive = true → t.assignedWorkerId = some w →
      Claimed (es ++ [e]) t.id t.attemptCount w := fun hlive hw =>
    (Run.claimed_of_live hrun ht hlive hw).later
  -- a row that is live, or queued, has not failed
  have hgoing : t.status ≠ .failed → Reassigned (es ++ [e]) t.id t.attemptCount l := fun hs =>
    (hl.reassigned hs).1.later
  have hevents : t.status ≠ .failed → failures t.id (es ++ [e]) =
      [e.label t.id].filter Lease.Event.isFailure := by
    intro hs
    rw [failures_snoc, (hl.reassigned hs).2, List.nil_append]
  have hsilent : e.ends t.id t.attemptCount = [] →
      l ++ e.ends t.id t.attemptCount = l := by
    intro hnone
    rw [hnone, List.append_nil]
  cases h with
  | keep hlabel =>
      rw [hsilent (by rw [Event.ends, hlabel])]
      exact hl.later hlabel
  | purge hop hwhere hlabel =>
      rw [hsilent (by rw [Event.ends, hlabel])]
      exact hl.later hlabel
  | claim hop hwhere hlabel =>
      rw [hsilent (by rw [Event.ends, hlabel])]
      have hs : t.status ≠ .failed := by rw [claimable_queued hwhere]; decide
      exact .going (s := .assigned) (by decide) (hgoing hs) (by rw [hevents hs, hlabel]; rfl)
  | start hop hreply hid howner hstatus hlabel =>
      rw [hsilent (by rw [Event.ends, hlabel])]
      have hs : t.status ≠ .failed := by rw [hstatus]; decide
      exact .going (s := .running) (by decide) (hgoing hs) (by rw [hevents hs, hlabel]; rfl)
  | complete hop hreply hid howner hlive hattempt hlabel =>
      rw [hsilent (by rw [Event.ends, hlabel])]
      have hs := TaskState.ne_failed_of_isLive hlive
      exact .going (s := .completed) (by decide) (hgoing hs) (by rw [hevents hs, hlabel]; rfl)
  | renew hwhere hlabel =>
      rw [hsilent (by rw [Event.ends, hlabel])]
      have hs := TaskState.ne_failed_of_isLive (heldLive_holds.mp hwhere).2
      exact .going hs (hgoing hs) (by rw [hevents hs, hlabel]; rfl)
  | shorten hwhere hlabel =>
      rw [hsilent (by rw [Event.ends, hlabel])]
      have hs := TaskState.ne_failed_of_isLive (heldLive_holds.mp hwhere).2
      exact .going hs (hgoing hs) (by rw [hevents hs, hlabel]; rfl)
  | cancel hop hid hstatus hlabel =>
      rw [hsilent (by rw [Event.ends, hlabel])]
      have hs : t.status ≠ .failed := by rw [hstatus]; decide
      exact .going (s := .cancelled) (by decide) (hgoing hs) (by rw [hevents hs, hlabel]; rfl)
  | fail hop hreply hid howner hlive hlabel =>
      rw [Event.ends, hlabel]
      have hs := TaskState.ne_failed_of_isLive hlive
      exact .reported (hgoing hs) (hheld hlive howner) (by rw [hevents hs, hlabel]; rfl)
  | @reclaim batch skip draw hop hwhere hlabel =>
      have hlive := (expired_holds.mp hwhere).1
      obtain ⟨w, hw⟩ := (reachable_shape hrun.reachable t ht).holder hlive
      have hs := TaskState.ne_failed_of_isLive hlive
      cases hex : t.exhausted cfg db.policies with
      | true =>
          have hexpire : e.label t.id = .expire w t.attemptCount := by
            rw [hlabel]
            simp [ReclaimedTask.label, Task.reclaimed, Task.reclaim, hex, hw]
          have hstatus : (t.reclaim cfg db.policies e.now draw).status = .failed := by
            simp [Task.reclaim, hex]
          rw [Event.ends, hexpire, hstatus]
          exact .exhausted (hgoing hs) (hheld hlive hw) (by rw [hevents hs, hexpire]; rfl)
      | false =>
          have hrevoke : e.label t.id = .revoke w t.attemptCount := by
            rw [hlabel]
            simp [ReclaimedTask.label, Task.reclaimed, Task.reclaim, hex, hw]
          have hstatus : (t.reclaim cfg db.policies e.now draw).status = .queued := by
            simp [Task.reclaim, hex]
          rw [Event.ends, hrevoke, hstatus]
          exact .going (by decide) ((hgoing hs).snoc (hheld hlive hw))
            (by rw [hevents hs, hrevoke]; rfl)

/-- Every row of the attempt history is of a task. -/
theorem Run.attempts_task (h : (queue cfg schemas).Run es db) :
    ∀ a ∈ db.attempts, ∃ t ∈ db.tasks, t.id = a.taskId := by
  refine h.invariant (I := fun _ db => ∀ a ∈ db.attempts, ∃ t ∈ db.tasks, t.id = a.taskId) ?_ ?_
  · rintro db ⟨-, -, hattempts⟩ a ha
    rw [hattempts] at ha
    cases ha
  · intro es db e db' _ ih hs a ha
    have hkeep : (∃ t ∈ db.tasks, t.id = a.taskId) → ∃ t ∈ db'.tasks, t.id = a.taskId := by
      rintro ⟨t, ht, hid⟩
      obtain ⟨t', ht', -, hid'⟩ := (step_rows hs).forward t ht
      exact ⟨t', ht', hid'.trans hid⟩
    obtain ⟨new, hattempts, hnew⟩ := step_attempts hs
    rw [hattempts, List.mem_append] at ha
    refine hkeep ?_
    rcases ha with hold | hadded
    · exact ih a hold
    · cases hnew a hadded with
      | @expiry t batch skip draw ht hop hwhere => exact ⟨t, ht, rfl⟩
      | failure ht hop howner hlive htask hnumber hworker => exact ⟨_, ht, htask.symm⟩
      | fence ht hop hstatus hheld htask hnumber hworker => exact ⟨_, ht, htask.symm⟩

/-- A task without a row has not failed. -/
theorem failures_of_absent (h : (queue cfg schemas).Run es db) {id : Uuid}
    (hnone : db.tasks.get? id = none) : failures id es = [] := by
  refine List.filter_eq_nil_iff.mpr fun label hlabel hfailure => ?_
  have hphase : (db.lease id).phase = .closed := by
    refine Lease.Run.closed_of_failure (Run.lease h id) hlabel hfailure
  rw [Db.lease, hnone] at hphase
  cases hphase

/-- An attempt that is reported failed was live. -/
theorem live_of_abandon (hreach : (queue cfg schemas).Reachable db)
    (hs : (queue cfg schemas).step db e db') {t : Task} (ht : t ∈ db.tasks) {w : Uuid}
    (hlabel : e.label t.id = .abandon w) : t.status.isLive = true := by
  have hstep : Lease.Step (db.lease t.id) (e.label t.id) (db'.lease t.id) :=
      step_lease hreach hs t.id
  rw [hlabel, Db.lease_of_mem ht] at hstep
  cases hstatus : t.status with
  | assigned => rfl
  | running => rfl
  | _ =>
      rw [Task.lease, hstatus] at hstep
      cases hstep

/-- **The attempt history of every run.** -/
theorem Run.timeline (h : (queue cfg schemas).Run es db) : ∀ t ∈ db.tasks,
    Timeline es t.id t.status t.attemptCount ((db.endings t.id).map TaskAttempt.entry) := by
  refine h.invariant (I := fun es db => ∀ t ∈ db.tasks,
    Timeline es t.id t.status t.attemptCount ((db.endings t.id).map TaskAttempt.entry)) ?_ ?_
  · rintro db ⟨htasks, -, -⟩ t ht
    rw [htasks] at ht
    exact absurd ht (Table.not_mem_empty t)
  · intro es db e db' hrun ih hs t' ht'
    rcases (step_rows hs).backward t' ht' with ⟨t, ht, hrow, hid⟩ | ⟨hnew, hfresh⟩
    · have htoken : (db.lease t.id).token = t.attemptCount := by
        rw [Db.lease_of_mem ht]
        rfl
      have hunfailed : ∀ v, e.label t.id = .abandon v → ∀ a ∈ db.endings t.id,
          a.outcome ≠ .failed := by
        intro v hlabel a ha
        have hlive := live_of_abandon hrun.reachable hs ht hlabel
        have hout := ((ih t ht).reassigned (TaskState.ne_failed_of_isLive hlive)).1.outcome _
          (List.mem_map_of_mem ha)
        rw [show a.outcome = .reassigned from hout]
        decide
      rw [hid, step_endings hrun.reachable hs hunfailed, htoken]
      exact hrow.timeline hrun ht (ih t ht)
    · -- a new task has no history yet
      have hlabel : e.label t'.id = .create := by
        obtain ⟨req, _, _, hop, hreply, -⟩ := hnew
        simp [Event.label, hop, hreply, Reply.done]
      have hnone : db.endings t'.id = [] := by
        refine List.filter_eq_nil_iff.mpr fun a ha hmatch => ?_
        obtain ⟨t, ht, hid⟩ := Run.attempts_task hrun a ha
        exact hfresh t ht (hid.trans (of_decide_eq_true hmatch).1)
      have hends : e.ends t'.id (db.lease t'.id).token = [] := by rw [Event.ends, hlabel]
      rw [step_endings hrun.reachable hs (fun v hv => by rw [hlabel] at hv; cases hv), hnone, hends]
      obtain ⟨req, _, _, -, -, heq⟩ := hnew
      have hnothing : failures t'.id (es ++ [e]) = [] := by
        rw [failures_snoc, hlabel, failures_of_absent hrun (Table.get?_eq_none_iff.mpr hfresh)]
        rfl
      have hrow : t'.status = .queued ∧ t'.attemptCount = 0 := by
        rw [heq]
        exact ⟨rfl, rfl⟩
      rw [hrow.1, hrow.2]
      exact .going (by decide) ⟨rfl, by simp, by simp⟩ hnothing

end

end TaskFleet.Model
