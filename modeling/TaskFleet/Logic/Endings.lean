import TaskFleet.Lib.KeyedCounts
import TaskFleet.Lib.LeaseBalance
import TaskFleet.Logic.TaskCounts
import TaskFleet.Model.TaskViews

/-!
# What came of the tasks

A history can be counted. What its events create, hand out, take back and end are lists of
rows, each row of one task; of one task they are what the events mean to it as a fenced
lease (`enqueued_filter`, `claims_length`, `requeued_filter`, `ended_filter`). So the books
of the lease, added up over the rows of the table, are the books of the queue
(`Run.total`).

A task that has ended shows which of the events ended it, and when (`Run.endings_row`).
-/

namespace TaskFleet.Model

open Py Sql

/-- Why a task ended. -/
inductive EndCause where
  /-- `complete_task` stored its result. -/
  | result
  /-- The holder reported that the executor failed. -/
  | report
  /-- The sweep took its last attempt back. -/
  | exhaustion
  /-- It was cancelled while it was queued. -/
  | cancellation
  deriving DecidableEq

/-- The status the cause leaves. -/
def EndCause.status : EndCause → TaskState
  | result => .completed
  | report | exhaustion => .failed
  | cancellation => .cancelled

/-- One task that ended. -/
structure TaskEnd where
  taskId : Uuid
  cause : EndCause
  time : Seconds
  deriving DecidableEq

/-- The tasks an event created. -/
def Event.enqueued (e : Event) : List Uuid :=
  match e.op with
  | .enqueue id _ => if e.reply.done then [id] else []
  | _ => []

/-- The rows a sweep put back into the queue. -/
def Reply.requeued (r : Reply) : List ReclaimedTask := r.reclaims.filter fun r => r.status ≠ .failed

/-- The tasks an event ended. -/
def Event.ended (e : Event) : List TaskEnd :=
  match e.op with
  | .complete envelope _ _ =>
      if e.reply.done then
        ((Uuid.parse envelope.taskId).map fun id => ⟨id, .result, e.now⟩).toList else []
  | .fail taskId _ _ _ =>
      if e.reply.done then ((Uuid.parse taskId).map fun id => ⟨id, .report, e.now⟩).toList else []
  | .cancel taskId =>
      if e.reply.done then
        ((Uuid.parse taskId).map fun id => ⟨id, .cancellation, e.now⟩).toList else []
  | .reclaim _ _ _ =>
      (e.reply.reclaims.filter fun r => r.status = .failed).map fun r => ⟨r.id, .exhaustion, e.now⟩
  | _ => []

/-- Every task the history created, oldest first. -/
def enqueuedIn (es : List Event) : List Uuid := es.flatMap Event.enqueued

/-- Every row the sweeps of the history put back, oldest first. -/
def requeuedIn (es : List Event) : List ReclaimedTask := es.flatMap fun e => e.reply.requeued

/-- Every task the history ended, oldest first. -/
def endedIn (es : List Event) : List TaskEnd := es.flatMap Event.ended

/-- Those that ended for one cause. -/
def endingsBy (cause : EndCause) (es : List Event) : List TaskEnd :=
  (endedIn es).filter fun x => x.cause = cause

/-- Why the event ends the task it is about, if it does. -/
def leaseCause : Lease.Event Uuid → Option EndCause
  | .accept _ _ => some .result
  | .abandon _ => some .report
  | .expire _ _ => some .exhaustion
  | .withdraw => some .cancellation
  | _ => none

/-- How a row ended: its status, and when it was last written. -/
def Task.ending (t : Task) : Option (TaskState × Seconds) :=
  if t.status.isTerminal then some (t.status, t.updatedAt) else none

section

variable {cfg : Config} {schemas : Schemas} {db db' : Db} {e : Event} {es : List Event}

/-! ## One event, one task -/

/-- A sweep's row says who had it: whether it was the last attempt decides what happened. -/
theorem ReclaimedTask.label_eq {r : ReclaimedTask} {w : Uuid} (h : r.previousWorkerId = some w) :
    r.label = if r.status = .failed then .expire w (r.attemptCount - 1)
      else .revoke w (r.attemptCount - 1) := by
  simp only [ReclaimedTask.label, h]

/-- A sweep creates nothing. -/
theorem ReclaimedTask.isCreate_label (r : ReclaimedTask) : r.label.isCreate = false := by
  simp only [ReclaimedTask.label]
  split
  · rfl
  · split <;> rfl

/-- The rows of a sweep's answer have different ids, and each was taken from somebody. -/
theorem reclaims_rows (hreach : (queue cfg schemas).Reachable db)
    (hs : (queue cfg schemas).step db e db') : (e.reply.reclaims.map ReclaimedTask.id).Nodup ∧
      ∀ r ∈ e.reply.reclaims, ∃ w, r.previousWorkerId = some w := by
  rcases step_reclaims hs with hnone | ⟨batch, skip, draw, -, hrows⟩
  · rw [hnone]
    exact ⟨List.nodup_nil, fun r hr => absurd hr List.not_mem_nil⟩
  · rw [hrows]
    constructor
    · rw [List.map_map]
      exact nodup_selection
    · intro r hr
      obtain ⟨t, ht, rfl⟩ := List.mem_map.mp hr
      obtain ⟨hmem, hwhere⟩ := mem_expiredRows ht
      exact (reachable_shape hreach t hmem).holder (expired_holds.mp hwhere).1

/-- A creation is of one task. -/
theorem enqueued_filter (id : Uuid) :
    (e.enqueued.filter fun i => i = id).length = if (e.label id).isCreate then 1 else 0 := by
  cases hop : e.op with
  | enqueue i req =>
      by_cases hdone : e.reply.done = true
      · by_cases hid : i = id <;>
          simp [Event.enqueued, Event.label, hop, hdone, hid, Lease.Event.isCreate]
      · simp [Event.enqueued, Event.label, hop, hdone, Lease.Event.isCreate]
  | dequeue w limit maxBatch taskTypes skip =>
      simp only [Event.enqueued, Event.label, hop]
      split <;> rfl
  | reclaim batch skip draw =>
      simp only [Event.enqueued, Event.label, hop]
      split
      · rw [ReclaimedTask.isCreate_label]
        rfl
      · rfl
  | complete | fail | cancel =>
      simp only [Event.enqueued, Event.label, hop]
      split <;> rfl
  | _ => simp [Event.enqueued, Event.label, hop, Lease.Event.isCreate]

/-- What was handed out of one task. -/
theorem claims_length (hs : (queue cfg schemas).step db e db') (id : Uuid) :
    (e.reply.claims.filter fun r => r.id = id).length =
      if (e.label id).granted.isSome then 1 else 0 := by
  have hnumbers := congrArg List.length (claims_filter hs id)
  rw [List.length_map, List.length_map] at hnumbers
  rw [hnumbers]
  cases (e.label id).granted <;> rfl

/-- What a sweep put back of one task. -/
theorem requeued_filter (hreach : (queue cfg schemas).Reachable db)
    (hs : (queue cfg schemas).step db e db') (id : Uuid) :
    (e.reply.requeued.filter fun r => r.id = id).length =
      if (e.label id).isRevoke then 1 else 0 := by
  obtain ⟨hnodup, hheld⟩ := reclaims_rows hreach hs
  rcases step_reclaims hs with hnone | ⟨batch, skip, draw, hop, -⟩
  · have htaken : (e.label id).isTaken = false := isTaken_label_eq_false hnone
    have hrevoke : (e.label id).isRevoke = false := by
      cases hl : e.label id with
      | revoke w n => rw [hl] at htaken; cases htaken
      | _ => rfl
    rw [Reply.requeued, hnone, hrevoke]
    rfl
  · rw [Reply.requeued, List.filter_comm, Table.filter_eq_toList_find? hnodup]
    simp only [Event.label, hop]
    cases hfind : e.reply.reclaims.find? fun r => r.id = id with
    | none => rfl
    | some r =>
        obtain ⟨w, hw⟩ := hheld r (List.mem_of_find?_eq_some hfind)
        simp only [ReclaimedTask.label_eq hw]
        by_cases hfailed : r.status = .failed <;> simp [hfailed, Lease.Event.isRevoke]

/-- What an event ended of one task. -/
theorem ended_filter (hreach : (queue cfg schemas).Reachable db)
    (hs : (queue cfg schemas).step db e db') (id : Uuid) :
    e.ended.filter (fun x => x.taskId = id) =
      ((leaseCause (e.label id)).map fun cause => ⟨id, cause, e.now⟩).toList := by
  -- a report ends the task its id parses to, if it was done
  have hone : ∀ (parsed : Option Uuid) (cause : EndCause) (label : Lease.Event Uuid),
      leaseCause label = some cause →
      (if e.reply.done then (parsed.map fun i => (⟨i, cause, e.now⟩ : TaskEnd)).toList
        else []).filter (fun x => x.taskId = id) =
        ((leaseCause (if e.reply.done ∧ parsed = some id then label else .silent)).map
          fun cause => (⟨id, cause, e.now⟩ : TaskEnd)).toList := by
    intro parsed cause label hlabel
    have hsilent : leaseCause .silent = none := rfl
    cases parsed with
    | none => by_cases hdone : e.reply.done = true <;> simp [hdone, hsilent]
    | some i =>
        by_cases hdone : e.reply.done = true
        · by_cases hid : i = id <;> simp [hdone, hid, hlabel, hsilent]
        · simp [hdone, hsilent]
  cases hop : e.op with
  | complete envelope w resultId =>
      simp only [Event.ended, Event.label, hop]
      exact hone (Uuid.parse envelope.taskId) .result (.accept w envelope.attemptNumber) rfl
  | fail taskId w errorType correlationId =>
      simp only [Event.ended, Event.label, hop]
      exact hone (Uuid.parse taskId) .report (.abandon w) rfl
  | cancel taskId =>
      simp only [Event.ended, Event.label, hop]
      exact hone (Uuid.parse taskId) .cancellation .withdraw rfl
  | reclaim batch skip draw =>
      obtain ⟨hnodup, hheld⟩ := reclaims_rows hreach hs
      simp only [Event.ended, Event.label, hop, List.filter_map]
      rw [show ((fun x : TaskEnd => decide (x.taskId = id)) ∘ fun r : ReclaimedTask =>
        (⟨r.id, .exhaustion, e.now⟩ : TaskEnd)) = fun r => decide (r.id = id) from rfl,
        List.filter_comm, Table.filter_eq_toList_find? hnodup]
      cases hfind : e.reply.reclaims.find? fun r => r.id = id with
      | none => rfl
      | some r =>
          obtain ⟨w, hw⟩ := hheld r (List.mem_of_find?_eq_some hfind)
          have hid : r.id = id := by simpa using List.find?_some hfind
          simp only [ReclaimedTask.label_eq hw]
          by_cases hfailed : r.status = .failed <;> simp [hfailed, hid, leaseCause]
  | dequeue w limit maxBatch taskTypes skip =>
      simp only [Event.ended, Event.label, hop]
      split <;> rfl
  | enqueue i req =>
      simp only [Event.ended, Event.label, hop]
      split <;> rfl
  | _ => simp [Event.ended, Event.label, hop, leaseCause]

/-! ## Along a run -/

/-- To a task that is not in the table nothing has happened. -/
theorem Run.absent_labels (h : (queue cfg schemas).Run es db) {id : Uuid}
    (hnone : db.tasks.get? id = none) : ∀ e ∈ es, e.label id = .silent := by
  refine h.invariant (I := fun es db => db.tasks.get? id = none → ∀ e ∈ es, e.label id = .silent)
    ?_ ?_ hnone
  · intro db _ _ e he
    exact absurd he List.not_mem_nil
  · intro es db e db' _ ih hs hnone'
    have hbefore : db.tasks.get? id = none := by
      cases hget : db.tasks.get? id with
      | none => rfl
      | some t =>
          obtain ⟨t', hget', -⟩ := (step_rows hs).get? hget
          rw [hnone'] at hget'
          cases hget'
    intro f hf
    rcases List.mem_append.mp hf with hold | hlast
    · exact ih hbefore f hold
    · rw [List.mem_singleton.mp hlast]
      exact label_of_absent hs hbefore hnone'

section Items

variable {β : Type} {items : Event → List β} {keyOf : β → Uuid} {kind : Lease.Event Uuid → Bool}

/-- Items that each event has one of for a task if it is of a kind to the task. -/
def Counted (cfg : Config) (schemas : Schemas) (items : Event → List β) (keyOf : β → Uuid)
    (kind : Lease.Event Uuid → Bool) : Prop :=
  ∀ db e db', (queue cfg schemas).Reachable db → (queue cfg schemas).step db e db' → ∀ id,
    ((items e).filter fun x => keyOf x = id).length = if kind (e.label id) then 1 else 0

/-- Along a run the items of one task are the events of the kind. -/
theorem Run.counted (hcount : Counted cfg schemas items keyOf kind)
    (h : (queue cfg schemas).Run es db) (id : Uuid) :
    ((es.flatMap items).filter fun x => keyOf x = id).length =
      Lease.occurrences kind (es.map (Event.label id)) := by
  refine h.invariant (I := fun es _ => ((es.flatMap items).filter fun x => keyOf x = id).length =
    Lease.occurrences kind (es.map (Event.label id))) (fun _ _ => rfl) ?_
  intro es db e db' hrun ih hs
  rw [List.flatMap_append, List.filter_append, List.length_append, ih, List.flatMap_singleton,
    hcount db e db' hrun.reachable hs id, List.map_append, List.map_singleton,
    Lease.occurrences_snoc]

/-- **Totals.** All items together are the events of the kind, row by row. -/
theorem Run.total (hcount : Counted cfg schemas items keyOf kind) (hsilent : kind .silent = false)
    (h : (queue cfg schemas).Run es db) : (es.flatMap items).length =
      (db.tasks.rows.map fun t => Lease.occurrences kind (es.map (Event.label t.id))).sum := by
  have hrow : ∀ x ∈ es.flatMap items, ∃ t ∈ db.tasks, t.id = keyOf x := by
    intro x hx
    cases hget : db.tasks.get? (keyOf x) with
    | some t =>
        obtain ⟨hmem, hid⟩ := Table.get?_eq_some_iff.mp hget
        exact ⟨t, hmem, hid⟩
    | none =>
        -- an item of a task that does not exist would be a silent event of the kind
        have hnone : Lease.occurrences kind (es.map (Event.label (keyOf x))) = 0 := by
          rw [Lease.occurrences, List.length_eq_zero_iff, List.filter_eq_nil_iff]
          intro l hl
          obtain ⟨e, he, rfl⟩ := List.mem_map.mp hl
          rw [Run.absent_labels h hget e he, hsilent]
          decide
        rw [← Run.counted hcount h, List.length_eq_zero_iff, List.filter_eq_nil_iff] at hnone
        exact absurd (decide_eq_true rfl) (hnone x hx)
  rw [Table.length_eq_sum hrow]
  refine congrArg List.sum (List.map_congr_left fun t _ => ?_)
  exact Run.counted hcount h t.id

end Items

theorem counted_enqueued : Counted cfg schemas Event.enqueued (fun i => i) Lease.Event.isCreate :=
  fun _ _ _ _ _ id => enqueued_filter id

theorem counted_claims : Counted cfg schemas (fun e => e.reply.claims) ClaimedTask.id
    (fun l => l.granted.isSome) := fun _ _ _ _ hs id => claims_length hs id

theorem counted_requeued : Counted cfg schemas (fun e => e.reply.requeued) ReclaimedTask.id
    Lease.Event.isRevoke := fun _ _ _ hreach hs id => requeued_filter hreach hs id

/-- The endings of one cause. -/
theorem counted_endings (cause : EndCause) : Counted cfg schemas
    (fun e => e.ended.filter fun x => x.cause = cause) TaskEnd.taskId
    (fun l => leaseCause l = some cause) := by
  intro db e db' hreach hs id
  rw [List.filter_comm, ended_filter hreach hs id]
  cases hl : leaseCause (e.label id) with
  | none => simp [hl]
  | some c => by_cases hc : c = cause <;> simp [hl, hc]

theorem endingsBy_eq_flatMap (cause : EndCause) :
    endingsBy cause es = es.flatMap fun e => e.ended.filter fun x => x.cause = cause := by
  rw [endingsBy, endedIn, List.filter_flatMap]

/-! ## How a row ended -/

theorem Task.ending_live {t : Task} (h : t.status.isLive = true) : t.ending = none := by
  rw [Task.ending, TaskState.not_isTerminal_of_isLive h]
  rfl

theorem Task.ending_queued {t : Task} (h : t.status = .queued) : t.ending = none := by
  rw [Task.ending, h]
  rfl

theorem Task.ending_terminal {t : Task} (h : t.status.isTerminal = true) :
    t.ending = some (t.status, t.updatedAt) := by
  rw [Task.ending, h]
  rfl

/-- **One row.** A row that had not ended shows the event that ends it, and a row that had
shows what it showed. -/
theorem RowStep.ending {t t' : Task} (h : RowStep cfg db e t t') (hshape : t.Shape) :
    t'.ending.toList = t.ending.toList ++
      ((leaseCause (e.label t.id)).map fun cause => (cause.status, e.now)).toList := by
  cases h with
  | keep hlabel =>
      rw [hlabel]
      exact (List.append_nil _).symm
  | purge hop hwhere hlabel =>
      rw [hlabel]
      exact (List.append_nil _).symm
  | claim hop hwhere hlabel =>
      rw [hlabel, Task.ending_queued (claimable_queued hwhere),
        Task.ending_live (t := t.claim cfg db.policies e.now _) rfl]
      rfl
  | start hop hreply hid howner hstatus hlabel =>
      rw [hlabel, Task.ending_live (t := t) (by rw [hstatus]; rfl),
        Task.ending_live (t := t.mark cfg db.policies e.now .running) rfl]
      rfl
  | fail hop hreply hid howner hlive hlabel =>
      rw [hlabel, Task.ending_live hlive,
        Task.ending_terminal (t := t.mark cfg db.policies e.now .failed) rfl]
      rfl
  | complete hop hreply hid howner hlive hattempt hlabel =>
      rw [hlabel, Task.ending_live hlive, Task.ending_terminal (t := t.complete _ _) rfl]
      rfl
  | renew hwhere hlabel =>
      have hlive := (heldLive_holds.mp hwhere).2
      rw [hlabel, Task.ending_live hlive, Task.ending_live (t := t.renew cfg e.now) hlive]
      rfl
  | shorten hwhere hlabel =>
      have hlive := (heldLive_holds.mp hwhere).2
      rw [hlabel, Task.ending_live hlive, Task.ending_live (t := t.shorten e.now _) hlive]
      rfl
  | cancel hop hid hstatus hlabel =>
      rw [hlabel, Task.ending_queued hstatus, Task.ending_terminal (t := t.cancel e.now) rfl]
      rfl
  | @reclaim batch skip draw hop hwhere hlabel =>
      have hlive := (expired_holds.mp hwhere).1
      obtain ⟨w, hw⟩ := hshape.holder hlive
      rw [hlabel, Task.ending_live hlive, ReclaimedTask.label_eq hw]
      -- the last attempt ends the task, an earlier one queues it again
      cases hex : t.exhausted cfg db.policies with
      | true =>
          have hstatus : (t.reclaim cfg db.policies e.now draw).status = .failed := by
            simp [Task.reclaim, hex]
          have hfailed : (t.reclaimed cfg db.policies e.now draw).status = .failed := hstatus
          rw [Task.ending_terminal (by rw [hstatus]; rfl), hstatus, if_pos hfailed]
          rfl
      | false =>
          have hstatus : (t.reclaim cfg db.policies e.now draw).status = .queued := by
            simp [Task.reclaim, hex]
          have hfailed : (t.reclaimed cfg db.policies e.now draw).status ≠ .failed := by
            show (t.reclaim cfg db.policies e.now draw).status ≠ .failed
            rw [hstatus]
            decide
          rw [Task.ending_queued hstatus, if_neg hfailed]
          rfl

/-- The ending a row shows. -/
def TaskEnd.shown (x : TaskEnd) : TaskState × Seconds := (x.cause.status, x.time)

/-- How the task `id` ended, if it is in the table and did. -/
def Db.ending (db : Db) (id : Uuid) : Option (TaskState × Seconds) :=
  (db.tasks.get? id).bind Task.ending

theorem Db.ending_of_mem {t : Task} (ht : t ∈ db.tasks) : db.ending t.id = t.ending := by
  rw [Db.ending, Table.get?_of_mem ht]
  rfl

/-- **One step** shows of each task what it ended. -/
theorem step_ended (hreach : (queue cfg schemas).Reachable db)
    (hs : (queue cfg schemas).step db e db') (id : Uuid) :
    (db'.ending id).toList = (db.ending id).toList ++
      (e.ended.filter fun x => x.taskId = id).map TaskEnd.shown := by
  have hshown : (e.ended.filter fun x => x.taskId = id).map TaskEnd.shown =
      ((leaseCause (e.label id)).map fun cause => (cause.status, e.now)).toList := by
    rw [ended_filter hreach hs id]
    cases leaseCause (e.label id) <;> rfl
  rw [hshown]
  cases hget : db.tasks.get? id with
  | some t =>
      obtain ⟨hmem, rfl⟩ := Table.get?_eq_some_iff.mp hget
      obtain ⟨t', hget', hrow⟩ := (step_rows hs).get? hget
      rw [Db.ending, Db.ending, hget, hget']
      exact hrow.ending (reachable_shape hreach t hmem)
  | none =>
      cases hget' : db'.tasks.get? id with
      | none =>
          rw [Db.ending, Db.ending, hget, hget', label_of_absent hs hget hget']
          rfl
      | some t =>
          -- the row just created, which is queued
          obtain ⟨req, taskType, parameters, hop, hreply, heq⟩ :=
            (step_rows hs).get?_none hget hget'
          obtain ⟨-, rfl⟩ := Table.get?_eq_some_iff.mp hget'
          have hlabel : e.label t.id = .create := by
            simp [Event.label, hop, hreply, Reply.done]
          have hqueued : t.status = .queued := by
            rw [heq]
            rfl
          rw [Db.ending, Db.ending, hget, hget', hlabel]
          exact congrArg Option.toList (Task.ending_queued hqueued)

/-- **Endings.** Along every run a task shows exactly the one event that ended it. -/
theorem Run.ending (h : (queue cfg schemas).Run es db) (id : Uuid) :
    ((endedIn es).filter fun x => x.taskId = id).map TaskEnd.shown = (db.ending id).toList := by
  refine h.invariant (I := fun es db =>
    ((endedIn es).filter fun x => x.taskId = id).map TaskEnd.shown = (db.ending id).toList) ?_ ?_
  · rintro db ⟨htasks, -, -⟩
    rw [Db.ending, htasks]
    rfl
  · intro es db e db' hrun ih hs
    rw [step_ended hrun.reachable hs id, ← ih, endedIn, List.flatMap_append, List.filter_append,
      List.map_append, List.flatMap_singleton]
    rfl

/-- Whatever ended is in the table. -/
theorem Run.ended_task (h : (queue cfg schemas).Run es db) :
    ∀ x ∈ endedIn es, ∃ t ∈ db.tasks, t.id = x.taskId := by
  intro x hx
  cases hget : db.tasks.get? x.taskId with
  | some t =>
      obtain ⟨hmem, hid⟩ := Table.get?_eq_some_iff.mp hget
      exact ⟨t, hmem, hid⟩
  | none =>
      have hnone := Run.ending h x.taskId
      rw [Db.ending, hget, Option.bind_none, Option.toList_none, List.map_eq_nil_iff,
        List.filter_eq_nil_iff] at hnone
      exact absurd (decide_eq_true rfl) (hnone x hx)

/-- **Endings, counted.** As many events end a task in a way that meets `p` as rows show an
ending that does. -/
theorem Run.endings_length (h : (queue cfg schemas).Run es db) (p : TaskState × Seconds → Bool) :
    ((endedIn es).filter fun x => p x.shown).length =
      (db.tasks.rows.filter fun t => t.ending.any p).length := by
  refine Table.length_filter_eq TaskEnd.taskId (Run.ended_task h) fun t ht => ?_
  have hshown := Run.ending h t.id
  rw [Db.ending_of_mem ht] at hshown
  have hfilter : (((endedIn es).filter fun x => x.taskId = t.id).filter fun x => p x.shown).length =
      ((((endedIn es).filter fun x => x.taskId = t.id).map TaskEnd.shown).filter p).length := by
    rw [List.filter_map, List.length_map]
    rfl
  rw [hfilter, hshown]
  cases hending : t.ending with
  | none => rfl
  | some shown => cases hp : p shown <;> simp [hp]

end

/-! ## One task, end to end -/

/-- The task of the small deployment is lost by its first worker, handed out again and
completed at 200. -/
def Demo.fullLife : List (Seconds × Op) := Demo.reclaimed ++ [
  (190, .dequeue Demo.otherWorker 1 100 none []),
  (200, .complete (Demo.envelope 1 Demo.token) Demo.otherWorker Demo.resultId)]

theorem Demo.fullLife_playable : Playable {} Demo.schemas .empty Demo.fullLife :=
  ⟨rfl, trivial, fun _ => by constructor <;> norm_num, trivial, rfl, trivial⟩

end TaskFleet.Model
