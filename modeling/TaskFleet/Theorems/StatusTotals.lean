import TaskFleet.Logic.Endings

/-!
# The counts of the dashboard are the books of the history

A task is in the queue because it was created or put back, and leaves it when it is handed
out or cancelled; it is with a worker because it was handed out, and leaves it when the
attempt ends; it runs from the report of its start on. So every number `counts_by_status`
shows is a difference of what was counted along the way, whatever the history.
-/

namespace TaskFleet.Model

open Py Sql

/-- The count the groups give a status: zero for one that has no group. -/
def countOf (groups : List (TaskState × Nat)) (s : TaskState) : Nat := (groups.lookup s).getD 0

/-- The history has the task `id` running: the start of its attempt was reported, and
nothing has happened to its lease since. -/
def startedNow (id : Uuid) (es : List Event) : Bool :=
  es.foldl (fun started e => e.starts id || (started && (e.label id).isSilent)) false

/-- The tasks the history has running. -/
def runningIn (es : List Event) : List Uuid := (enqueuedIn es).filter fun id => startedNow id es

/-- A group is left out only when it would be empty. -/
theorem countOf_countsByStatus (db : Db) (s : TaskState) :
    countOf (countsByStatus db) s = statusCount db s := by
  have hlookup : ∀ l : List TaskState, s ∈ l →
      countOf ((l.map fun s => (s, statusCount db s)).filter fun group => group.2 ≠ 0) s =
        statusCount db s := by
    intro l hs
    induction l with
    | nil => cases hs
    | cons u l ih =>
        rw [List.map_cons]
        by_cases hu : u = s
        · subst hu
          by_cases hzero : statusCount db u = 0
          · -- no group of this status is left anywhere
            have hnone : (((u :: l).map fun s => (s, statusCount db s)).filter
                fun group => group.2 ≠ 0).lookup u = none := by
              rw [List.lookup_eq_none_iff]
              intro group hgroup
              obtain ⟨hmem, hne⟩ := List.mem_filter.mp hgroup
              obtain ⟨v, -, rfl⟩ := List.mem_map.mp hmem
              have hv : v ≠ u := by
                rintro rfl
                exact absurd hzero (by simpa using hne)
              simpa using hv.symm
            rw [List.map_cons] at hnone
            rw [countOf, hnone, hzero]
            rfl
          · rw [List.filter_cons_of_pos (by simpa using hzero), countOf, List.lookup_cons_self]
            rfl
        · have hrest := ih ((List.mem_cons.mp hs).resolve_left (Ne.symm hu))
          by_cases hzero : statusCount db u = 0
          · rw [List.filter_cons_of_neg (by simpa using hzero)]
            exact hrest
          · rw [List.filter_cons_of_pos (by simpa using hzero), countOf, List.lookup_cons,
              beq_false_of_ne (Ne.symm hu)]
            exact hrest
  refine hlookup TaskState.all ?_
  cases s <;> decide

section

variable {cfg : Config} {schemas : Schemas} {db db' : Db} {e : Event} {es : List Event}

/-- What a row counts for in the queue. -/
theorem Task.Shape.idleCount {t : Task} (h : t.Shape) :
    t.lease.idleCount = if t.status = .queued then 1 else 0 := by
  rcases h.cases with hq | hlive | hterm
  · rw [Task.lease_queued hq, if_pos hq]
    rfl
  · obtain ⟨w, hw⟩ := h.holder hlive
    rw [Task.lease_live hlive hw, if_neg (TaskState.ne_queued_of_isLive hlive)]
    rfl
  · rw [Task.lease_terminal hterm, if_neg]
    · rfl
    · intro hq
      rw [hq] at hterm
      cases hterm

/-- What a row counts for with a worker. -/
theorem Task.Shape.heldCount {t : Task} (h : t.Shape) :
    t.lease.heldCount = if t.status.isLive then 1 else 0 := by
  rcases h.cases with hq | hlive | hterm
  · rw [Task.lease_queued hq, hq]
    rfl
  · obtain ⟨w, hw⟩ := h.holder hlive
    rw [Task.lease_live hlive hw, if_pos hlive]
    rfl
  · rw [Task.lease_terminal hterm, if_neg]
    · rfl
    · intro hlive
      rw [TaskState.not_isTerminal_of_isLive hlive] at hterm
      cases hterm

/-- The rows of one status, added up one by one. -/
theorem statusCount_eq_sum (db : Db) (s : TaskState) :
    statusCount db s = (db.tasks.rows.map fun t => if t.status = s then 1 else 0).sum := by
  rw [statusCount, Table.length_filter_eq_sum]
  refine congrArg List.sum (List.map_congr_left fun t _ => ?_)
  by_cases hs : t.status = s <;> simp [hs]

/-- A live row is assigned or running. -/
theorem live_eq_sum (db : Db) : (db.tasks.rows.map fun t => if t.status.isLive then 1 else 0).sum =
    statusCount db .assigned + statusCount db .running := by
  rw [statusCount_eq_sum, statusCount_eq_sum, ← List.sum_map_add]
  refine congrArg List.sum (List.map_congr_left fun t _ => ?_)
  cases t.status <;> rfl

/-- Every row has one of six statuses. -/
theorem rows_eq_sum (hreach : (queue cfg schemas).Reachable db) :
    db.tasks.rows.length = statusCount db .queued + statusCount db .assigned +
      statusCount db .running + statusCount db .completed + statusCount db .failed +
        statusCount db .cancelled := by
  have hone : db.tasks.rows.length = (db.tasks.rows.map fun _ => 1).sum := by simp
  rw [hone]
  simp only [statusCount_eq_sum, ← List.sum_map_add]
  refine congrArg List.sum (List.map_congr_left fun t ht => ?_)
  have hnot := (reachable_shape hreach t ht).notReassigned
  cases hs : t.status with
  | reassigned => exact absurd hs hnot
  | _ => rfl

/-! ## The tasks that run -/

theorem startedNow_snoc (id : Uuid) : startedNow id (es ++ [e]) =
    (e.starts id || (startedNow id es && (e.label id).isSilent)) := by
  rw [startedNow, List.foldl_append]
  rfl

/-- What a sweep takes back is no silent event. -/
theorem Task.Shape.reclaim_not_silent {t : Task} (h : t.Shape) (hlive : t.status.isLive = true)
    {policies : TaskPolicies} {now : Seconds} {draw : Uuid → ℚ} :
    (t.reclaimed cfg policies now draw).label.isSilent = false := by
  obtain ⟨w, hw⟩ := h.holder hlive
  rw [ReclaimedTask.label_eq (w := w) hw]
  split <;> rfl

/-- **One row** runs after a step that is no start if it ran before and its lease was
left alone. -/
theorem RowStep.running {t t' : Task} (h : RowStep cfg db e t t') (hshape : t.Shape)
    (hstart : e.starts t.id = false) :
    decide (t'.status = .running) = (decide (t.status = .running) && (e.label t.id).isSilent) := by
  cases h with
  | keep hlabel | purge hop hwhere hlabel | renew hwhere hlabel | shorten hwhere hlabel =>
      rw [hlabel]
      exact (Bool.and_true _).symm
  | claim hop hwhere hlabel | fail hop hreply hid howner hlive hlabel
  | complete hop hreply hid howner hlive hattempt hlabel | cancel hop hid hstatus hlabel =>
      rw [hlabel]
      exact (Bool.and_false _).symm
  | start hop hreply hid =>
      rw [starts_of_start hop hreply hid] at hstart
      cases hstart
  | reclaim hop hwhere hlabel =>
      rw [hlabel, hshape.reclaim_not_silent (expired_holds.mp hwhere).1, Bool.and_false]
      refine decide_eq_false fun hrunning => ?_
      simp only [Task.reclaim] at hrunning
      split at hrunning <;> cases hrunning

/-- **The report of a start** is all that tells a running task from an assigned one. -/
theorem Run.startedNow (h : (queue cfg schemas).Run es db) (id : Uuid) :
    startedNow id es = (db.tasks.get? id).any fun t => t.status = .running := by
  refine h.invariant (I := fun es db =>
    Model.startedNow id es = (db.tasks.get? id).any fun t => t.status = .running) ?_ ?_
  · rintro db ⟨htasks, -, -⟩
    rw [htasks]
    rfl
  · intro es db e db' hrun ih hs
    rw [startedNow_snoc, ih]
    cases hstart : e.starts id with
    | true =>
        obtain ⟨t, -, rfl, -, ht'⟩ := step_started hs hstart
        have hget' : db'.tasks.get? t.id = some (t.mark cfg db.policies e.now .running) :=
          Table.get?_of_mem ht'
        rw [hget']
        rfl
    | false =>
        rw [Bool.false_or]
        cases hget : db.tasks.get? id with
        | some t =>
            obtain ⟨hmem, rfl⟩ := Table.get?_eq_some_iff.mp hget
            obtain ⟨t', hget', hrow⟩ := (step_rows hs).get? hget
            rw [hget']
            exact (hrow.running (reachable_shape hrun.reachable t hmem) hstart).symm
        | none =>
            rw [Option.any_none, Bool.false_and]
            cases hget' : db'.tasks.get? id with
            | none => rfl
            | some t =>
                obtain ⟨req, taskType, parameters, -, -, heq⟩ :=
                  (step_rows hs).get?_none hget hget'
                rw [heq]
                rfl

/-- What happens to a row is no creation. -/
theorem RowStep.not_create {t t' : Task} (h : RowStep cfg db e t t') :
    (e.label t.id).isCreate = false := by
  cases h with
  | reclaim hop hwhere hlabel =>
      rw [hlabel]
      exact ReclaimedTask.isCreate_label _
  | keep hlabel | claim hop hwhere hlabel | start hop hreply hid howner hstatus hlabel
  | fail hop hreply hid howner hlive hlabel
  | complete hop hreply hid howner hlive hattempt hlabel | renew hwhere hlabel
  | shorten hwhere hlabel | cancel hop hid hstatus hlabel | purge hop hwhere hlabel =>
      rw [hlabel]
      rfl

/-- A row was created once, and nothing else was. -/
theorem Run.enqueued_once (h : (queue cfg schemas).Run es db) (id : Uuid) :
    ((enqueuedIn es).filter fun i => i = id).length =
      if (db.tasks.get? id).isSome then 1 else 0 := by
  refine h.invariant (I := fun es db => ((enqueuedIn es).filter fun i => i = id).length =
    if (db.tasks.get? id).isSome then 1 else 0) ?_ ?_
  · rintro db ⟨htasks, -, -⟩
    rw [htasks]
    rfl
  · intro es db e db' hrun ih hs
    rw [enqueuedIn, List.flatMap_append, List.filter_append, List.length_append, ← enqueuedIn, ih,
      List.flatMap_singleton, enqueued_filter]
    cases hget : db.tasks.get? id with
    | some t =>
        obtain ⟨hmem, rfl⟩ := Table.get?_eq_some_iff.mp hget
        obtain ⟨t', hget', hrow⟩ := (step_rows hs).get? hget
        rw [hget', hrow.not_create]
        rfl
    | none =>
        cases hget' : db'.tasks.get? id with
        | none =>
            rw [label_of_absent hs hget hget']
            rfl
        | some t =>
            obtain ⟨req, taskType, parameters, hop, hreply, -⟩ :=
              (step_rows hs).get?_none hget hget'
            obtain ⟨-, rfl⟩ := Table.get?_eq_some_iff.mp hget'
            have hlabel : e.label t.id = .create := by
              simp [Event.label, hop, hreply, Reply.done]
            rw [hlabel]
            rfl

/-- As many rows are running as the history has tasks running. -/
theorem Run.running_count (h : (queue cfg schemas).Run es db) :
    statusCount db .running = (runningIn es).length := by
  refine (Table.length_filter_eq (t := db.tasks) (fun i : Uuid => i) (fun id hid => ?_)
    fun t ht => ?_).symm
  · have honce := Run.enqueued_once h id
    cases hget : db.tasks.get? id with
    | some t =>
        obtain ⟨hmem, hkey⟩ := Table.get?_eq_some_iff.mp hget
        exact ⟨t, hmem, hkey⟩
    | none =>
        rw [hget, if_neg (by simp), List.length_eq_zero_iff, List.filter_eq_nil_iff] at honce
        exact absurd (decide_eq_true rfl) (honce id hid)
  · have honce := Run.enqueued_once h t.id
    have hnow := Run.startedNow h t.id
    rw [Table.get?_of_mem ht] at honce hnow
    have hsame :
        ((enqueuedIn es).filter fun i => i = t.id).filter (fun i => Model.startedNow i es) =
        if t.status = .running then (enqueuedIn es).filter (fun i => i = t.id) else [] := by
      split
      · next hrunning =>
          refine List.filter_eq_self.mpr fun i hi => ?_
          obtain rfl : i = t.id := of_decide_eq_true (List.mem_filter.mp hi).2
          rw [hnow]
          exact decide_eq_true hrunning
      · next hrunning =>
          refine List.filter_eq_nil_iff.mpr fun i hi => ?_
          obtain rfl : i = t.id := of_decide_eq_true (List.mem_filter.mp hi).2
          rw [hnow]
          simpa using hrunning
    rw [hsame]
    by_cases hrunning : t.status = .running
    · rw [if_pos hrunning, honce]
      simp [hrunning]
    · rw [if_neg hrunning]
      simp [hrunning]

/-- What the books of the lease say of every row, added up. -/
theorem Run.balance_sum (h : (queue cfg schemas).Run es db) :
    statusCount db .queued + (handed es).length + (endingsBy .cancellation es).length =
      (enqueuedIn es).length + (requeuedIn es).length ∧
    statusCount db .assigned + statusCount db .running + (requeuedIn es).length +
      (endingsBy .exhaustion es).length + (endingsBy .result es).length +
        (endingsBy .report es).length = (handed es).length := by
  have hbalance : ∀ t ∈ db.tasks.rows,
      Lease.Balance (es.map (Event.label t.id)) t.lease := by
    intro t ht
    have hb := Lease.Run.balance (Run.lease h t.id)
    rw [Db.lease_of_mem ht] at hb
    exact hb
  have hshape := reachable_shape h.reachable
  have hcause : ∀ cause, (endingsBy cause es).length = (db.tasks.rows.map fun t =>
      Lease.occurrences (fun l => leaseCause l = some cause) (es.map (Event.label t.id))).sum :=
    fun cause => by
      rw [endingsBy_eq_flatMap]
      exact Run.total (counted_endings cause) rfl h
  have hhanded : (handed es).length = (db.tasks.rows.map fun t =>
      (Lease.grants (es.map (Event.label t.id))).length).sum := by
    simp only [Lease.grants_length]
    exact Run.total counted_claims rfl h
  rw [hhanded, hcause, hcause, hcause, hcause, enqueuedIn, Run.total counted_enqueued rfl h,
    requeuedIn, Run.total counted_requeued rfl h, ← live_eq_sum, statusCount_eq_sum]
  simp only [← List.sum_map_add]
  constructor
  · refine congrArg List.sum (List.map_congr_left fun t ht => ?_)
    have hidle := (hbalance t ht).idle
    rw [(hshape t ht).idleCount] at hidle
    have hkind : (fun l : Lease.Event Uuid => decide (leaseCause l = some .cancellation)) =
        Lease.Event.isWithdraw := by
      funext l
      cases l <;> rfl
    rw [hkind]
    exact hidle
  · refine congrArg List.sum (List.map_congr_left fun t ht => ?_)
    have hheld := (hbalance t ht).held
    rw [(hshape t ht).heldCount] at hheld
    have hexpire : (fun l : Lease.Event Uuid => decide (leaseCause l = some .exhaustion)) =
        Lease.Event.isExpire := by
      funext l
      cases l <;> rfl
    have haccept : (fun l : Lease.Event Uuid => decide (leaseCause l = some .result)) =
        Lease.Event.isAccept := by
      funext l
      cases l <;> rfl
    have habandon : (fun l : Lease.Event Uuid => decide (leaseCause l = some .report)) =
        Lease.Event.isAbandon := by
      funext l
      cases l <;> rfl
    rw [hexpire, haccept, habandon]
    exact hheld

/-- The rows of a terminal status are the endings that left it. -/
theorem Run.terminal_count (h : (queue cfg schemas).Run es db) {s : TaskState}
    (hterm : s.isTerminal = true) :
    statusCount db s = ((endedIn es).filter fun x => x.cause.status = s).length := by
  have hcount := Run.endings_length h fun shown => shown.1 = s
  rw [show ((endedIn es).filter fun x => x.cause.status = s) =
    (endedIn es).filter fun x => decide (x.shown.1 = s) from rfl, hcount, statusCount]
  refine congrArg List.length (List.filter_congr fun t _ => ?_)
  by_cases hs : t.status = s
  · rw [Task.ending_terminal (by rw [hs]; exact hterm)]
    simp [hs]
  · rw [Task.ending]
    split <;> simp [hs]

/-- A failure is reported, or the last attempt ran out. -/
theorem failures_length (es : List Event) :
    ((endedIn es).filter fun x => x.cause.status = .failed).length =
      (endingsBy .report es).length + (endingsBy .exhaustion es).length := by
  unfold endingsBy
  induction endedIn es with
  | nil => rfl
  | cons x l ih =>
      obtain ⟨id, cause, time⟩ := x
      cases cause <;> simp [EndCause.status] at ih ⊢ <;> omega

/-- **The books of the queue.** Along every run, what `counts_by_status` shows is what the
history leaves. The queue holds what was created and what sweeps put back, less what was
handed out and what was cancelled; the workers run the tasks whose start was reported and whose
attempt has not ended since, and hold besides what was handed out, less the attempts that
ended and those that run; each terminal count is the number of events that ended a task
that way; and no row is lost or counted twice. -/
theorem queue_books (h : (queue cfg schemas).Run es db) :
    let count := countOf (countsByStatus db)
    count .queued = queueDepth db ∧
    count .queued + (handed es).length + (endingsBy .cancellation es).length =
      (enqueuedIn es).length + (requeuedIn es).length ∧
    count .running = (runningIn es).length ∧
    count .assigned + (runningIn es).length + (requeuedIn es).length +
      (endingsBy .exhaustion es).length + (endingsBy .result es).length +
        (endingsBy .report es).length = (handed es).length ∧
    count .completed = (endingsBy .result es).length ∧
    count .failed = (endingsBy .report es).length + (endingsBy .exhaustion es).length ∧
    count .cancelled = (endingsBy .cancellation es).length ∧
    count .reassigned = 0 ∧
    db.tasks.rows.length = (enqueuedIn es).length := by
  intro count
  have hcount : ∀ s, count s = statusCount db s := countOf_countsByStatus db
  have hcause : ∀ cause, (∀ c : EndCause, c.status = cause.status → c = cause) →
      statusCount db cause.status = (endingsBy cause es).length := by
    intro cause honly
    have hterm : cause.status.isTerminal = true := by cases cause <;> rfl
    rw [Run.terminal_count h hterm, endingsBy]
    refine congrArg List.length (List.filter_congr fun x _ => ?_)
    by_cases hx : x.cause = cause
    · simp [hx]
    · simpa [hx] using fun hs => hx (honly _ hs)
  obtain ⟨hidle, hheld⟩ := Run.balance_sum h
  have hcompleted := hcause .result (by intro c; cases c <;> simp [EndCause.status])
  have hcancelled := hcause .cancellation (by intro c; cases c <;> simp [EndCause.status])
  have hfailed := (Run.terminal_count h (s := .failed) rfl).trans (failures_length es)
  have hnone : statusCount db .reassigned = 0 := by
    rw [statusCount, List.length_eq_zero_iff, List.filter_eq_nil_iff]
    intro t ht hs
    exact (reachable_shape h.reachable t ht).notReassigned (of_decide_eq_true hs)
  have hrows := rows_eq_sum h.reachable
  simp only [EndCause.status] at hcompleted hcancelled
  rw [hcount, hcount, hcount, hcount, hcount, hcount, hcount]
  have hrunning := Run.running_count h
  refine ⟨rfl, hidle, hrunning, hrunning ▸ hheld, hcompleted, hfailed, hcancelled, hnone, ?_⟩
  omega

end

/-- The first worker of the task reports its start. -/
def Demo.startReported : List (Seconds × Op) :=
  Demo.claimed ++ [(2, .start Demo.task.str Demo.worker)]

theorem Demo.startReported_playable : Playable {} Demo.schemas .empty Demo.startReported :=
  ⟨rfl, trivial, trivial, trivial⟩

/-- The delivered task was created once, handed out twice and put back once in between;
the started one is the one that runs. -/
theorem queue_books_delivered :
    (let run := play {} Demo.schemas .empty Demo.fullLife
    let count := countOf (countsByStatus run.2)
    (handed run.1).length = 2 ∧ (requeuedIn run.1).length = 1 ∧ count .completed = 1 ∧
      count .queued + (handed run.1).length + (endingsBy .cancellation run.1).length =
        (enqueuedIn run.1).length + (requeuedIn run.1).length) ∧
    countOf (countsByStatus (play {} Demo.schemas .empty Demo.startReported).2) .running = 1 := by
  constructor
  · intro run count
    have hbooks := queue_books (play_run Demo.fullLife_playable)
    have hone : (endingsBy .result run.1).length = 1 := by decide +kernel
    refine ⟨by decide +kernel, by decide +kernel, ?_, hbooks.2.1⟩
    exact hbooks.2.2.2.2.1.trans hone
  · have hone : (runningIn (play {} Demo.schemas .empty Demo.startReported).1).length = 1 := by
      decide +kernel
    exact (queue_books (play_run Demo.startReported_playable)).2.2.1.trans hone

end TaskFleet.Model
