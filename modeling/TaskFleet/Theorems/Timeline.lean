import TaskFleet.Model.Inspection
import TaskFleet.Theorems.LeaseBounds

/-!
# The timeline of a task

`_lifecycle` shows the row's own timestamps. What a step does to them is one lemma
(`step_extends`): it leaves the entries there were, or, when it takes the task back,
the first of them, and appends its own, at its `now()`. So the last entry is the
status and every entry is of the current attempt, in every run
(`Run.timelineTrue_iff`). The order is another matter: `now()` is when a transaction
began, and the row it acts on may have been written, and committed, since.
-/

namespace TaskFleet.Model

open Py Sql

/-- The event is one that gives the task `id` an entry of this state. -/
def Event.Writes (id : Uuid) (e : Event) : TaskState → Prop
  | .queued => e.label id = .create
  | .assigned => ∃ w n, e.label id = .grant w n
  -- a result that comes without a start report dates the run as well
  | .running => e.starts id = true ∨ ∃ w n, e.label id = .accept w n
  | .completed => ∃ w n, e.label id = .accept w n
  | .failed => (∃ w, e.label id = .abandon w) ∨ ∃ w n, e.label id = .expire w n
  | .cancelled => e.label id = .withdraw
  | .reassigned => False

/-- An event of the history gave the task this entry, and no attempt was taken back
since then, unless the entry is about none. -/
def Recorded (es : List Event) (id : Uuid) (x : LifecycleEntry) : Prop :=
  ∃ as e bs, es = as ++ e :: bs ∧ x.time = e.now ∧ e.Writes id x.state ∧
    (x.state ≠ .queued → ∀ f ∈ bs, (f.label id).isTaken = false)

/-- The timeline of the row, after the history `es`, is chronological and true. -/
structure TimelineTrue (es : List Event) (t : Task) : Prop where
  last : (lifecycle t).getLast?.map LifecycleEntry.state = some t.status
  ordered : (lifecycle t).Pairwise fun x y => x.time ≤ y.time
  recorded : ∀ x ∈ lifecycle t, Recorded es t.id x

/-- The entries the event leaves in the timeline: one that takes the task back leaves
the first. -/
def keptEntries (e : Event) (t : Task) : List LifecycleEntry :=
  (lifecycle t).filter fun x => x.state = .queued || !(e.label t.id).isTaken

/-- **The condition.** A transaction that adds an entry to a timeline began no
earlier than the stamps it leaves there. -/
def StampsForward (db : Db) (e : Event) : Prop :=
  ∀ t ∈ db.tasks, (∃ s, e.Writes t.id s) → ∀ x ∈ keptEntries e t, x.time ≤ e.now

/-- What a step makes of the timeline of one row. -/
structure Extends (e : Event) (t t' : Task) (stamped : List LifecycleEntry) : Prop where
  eq : lifecycle t' = keptEntries e t ++ stamped
  now : ∀ x ∈ stamped, x.time = e.now ∧ e.Writes t.id x.state
  writes : (∃ s, e.Writes t.id s) → stamped ≠ []

section

variable {cfg : Config} {schemas : Schemas} {db db' : Db} {e : Event}
  {es : List Event} {t t' : Task}

/-! ## What one step does to a timeline -/

/-- Before a task ends, its timeline has the columns of the attempt. -/
theorem lifecycle_open (h : t.status.isTerminal = false) : lifecycle t =
    [⟨.queued, t.createdAt, "created_at"⟩] ++
    (t.assignedAt.map fun time => ⟨.assigned, time, "assigned_at"⟩).toList ++
    (t.startedAt.map fun time => ⟨.running, time, "started_at"⟩).toList := by
  cases hs : t.status <;> simp_all [lifecycle, TaskState.isTerminal]

/-- A queued task has the one entry. -/
theorem lifecycle_queued (hshape : t.Shape) (h : t.status = .queued) :
    lifecycle t = [⟨.queued, t.createdAt, "created_at"⟩] := by
  obtain ⟨-, hassigned, hstarted, -, -⟩ := hshape.queued h
  rw [lifecycle_open (by rw [h]; rfl), hassigned, hstarted]
  rfl

/-- An event that does not take the task back leaves every entry. -/
theorem keptEntries_eq_self (h : (e.label t.id).isTaken = false) :
    keptEntries e t = lifecycle t := by
  rw [keptEntries, h]
  exact List.filter_eq_self.mpr fun x _ => by simp

/-- One that does leaves the first. -/
theorem keptEntries_of_taken (hlive : t.status.isLive = true) (h : (e.label t.id).isTaken = true) :
    keptEntries e t = [⟨.queued, t.createdAt, "created_at"⟩] := by
  rw [keptEntries, h, lifecycle_open (TaskState.not_isTerminal_of_isLive hlive)]
  cases t.assignedAt <;> cases t.startedAt <;> rfl

/-- A silent event that starts nothing writes no entry. -/
theorem not_writes_of_silent (hlabel : e.label t.id = .silent) (hstart : e.starts t.id = false) :
    ¬ ∃ s, e.Writes t.id s := by
  intro hwrites
  obtain ⟨s, hs⟩ := hwrites
  cases s <;> simp [Event.Writes, hlabel, hstart] at hs

/-- A step that writes no entry and takes nothing back. -/
theorem extends_nil (hsame : lifecycle t' = lifecycle t) (hlabel : e.label t.id = .silent)
    (hstart : e.starts t.id = false) : Extends e t t' [] := by
  refine ⟨?_, fun x hx => (by cases hx), fun h => absurd h (not_writes_of_silent hlabel hstart)⟩
  rw [List.append_nil, hsame, keptEntries_eq_self (by rw [hlabel]; rfl)]

/-- A step that appends one entry and takes nothing back. -/
theorem extends_single {x : LifecycleEntry} (hkept : (e.label t.id).isTaken = false)
    (heq : lifecycle t' = lifecycle t ++ [x]) (hnow : x.time = e.now) (hx : e.Writes t.id x.state) :
    Extends e t t' [x] := by
  refine ⟨by rw [keptEntries_eq_self hkept, heq], fun y hy => ?_, fun _ => by simp⟩
  rw [List.mem_singleton.mp hy]
  exact ⟨hnow, hx⟩

/-- The start of an assigned row. -/
theorem extends_start (hshape : t.Shape) (hstatus : t.status = .assigned)
    (hlabel : e.label t.id = .silent) (hstart : e.starts t.id = true) :
    Extends e t (t.mark cfg db.policies e.now .running)
      [⟨.running, e.now, "started_at"⟩] := by
  refine extends_single (by rw [hlabel]; rfl) ?_ rfl (.inl hstart)
  have hnone : t.startedAt = none := by
    have hiff := hshape.started (by rw [hstatus]; rfl)
    rw [hstatus] at hiff
    exact Option.not_isSome_iff_eq_none.mp fun hsome => by cases hiff.mpr hsome
  rw [lifecycle_open (t := t.mark _ _ _ _) rfl, lifecycle_open (by rw [hstatus]; rfl), hnone]
  simp [Task.mark]

/-- A completion: of a row that has not started it dates the start, too. -/
theorem extends_complete {resultId w : Uuid} {n : ℕ} (hlive : t.status.isLive = true)
    (hlabel : e.label t.id = .accept w n) :
    ∃ stamped, Extends e t (t.complete e.now resultId) stamped := by
  have hkept : keptEntries e t = lifecycle t := keptEntries_eq_self (by rw [hlabel]; rfl)
  have hopen := lifecycle_open (TaskState.not_isTerminal_of_isLive hlive)
  cases hstarted : t.startedAt with
  | some started =>
      refine ⟨_, extends_single (x := ⟨.completed, e.now, "completed_at"⟩)
        (by rw [hlabel]; rfl) ?_ rfl ⟨w, n, hlabel⟩⟩
      rw [hopen, hstarted]
      simp [lifecycle, Task.complete, hstarted]
  | none =>
      refine ⟨[⟨.running, e.now, "started_at"⟩, ⟨.completed, e.now, "completed_at"⟩], ?_, ?_, ?_⟩
      · rw [hkept, hopen, hstarted]
        simp [lifecycle, Task.complete, hstarted]
      · intro x hx
        rcases List.mem_pair.mp hx with rfl | rfl
        · exact ⟨rfl, .inr ⟨w, n, hlabel⟩⟩
        · exact ⟨rfl, w, n, hlabel⟩
      · simp

/-- A row that is taken back is queued again with its first entry alone, or it has
failed. -/
theorem extends_reclaim {draw : Uuid → ℚ} (hshape : t.Shape) (hlive : t.status.isLive = true)
    (hlabel : e.label t.id = (t.reclaimed cfg db.policies e.now draw).label) :
    ∃ stamped, Extends e t (t.reclaim cfg db.policies e.now draw) stamped := by
  obtain ⟨w, hw⟩ := hshape.holder hlive
  have htaken : (e.label t.id).isTaken = true := by
    rw [hlabel]
    exact ReclaimedTask.isTaken_label hw
  have hkept := keptEntries_of_taken hlive htaken
  cases hex : t.exhausted cfg db.policies with
  | true =>
      have hexpire : e.label t.id = .expire w t.attemptCount := by
        rw [hlabel]
        simp [ReclaimedTask.label, Task.reclaimed, Task.reclaim, hex, hw]
      refine ⟨[⟨.failed, e.now, lastWriteSource⟩], ?_, ?_, fun _ => by simp⟩
      · rw [hkept]
        simp [lifecycle, Task.reclaim, hex]
      · intro x hx
        rw [List.mem_singleton.mp hx]
        exact ⟨rfl, .inr ⟨w, _, hexpire⟩⟩
  | false =>
      have hrevoke : e.label t.id = .revoke w t.attemptCount := by
        rw [hlabel]
        simp [ReclaimedTask.label, Task.reclaimed, Task.reclaim, hex, hw]
      refine ⟨[], ?_, fun x hx => (by cases hx), fun hwrites => ?_⟩
      · rw [hkept]
        simp [lifecycle, Task.reclaim, hex]
      · -- a sweep that queues the task again adds nothing
        obtain ⟨s, hs⟩ := hwrites
        cases s <;> simp [Event.Writes, hrevoke] at hs
        unfold Event.starts at hs
        split at hs
        · next hop =>
            simp only [Event.label, hop] at hrevoke
            cases hrevoke
        · cases hs

/-- **One row.** Whatever a step does to a row, it extends what it keeps of the
timeline. -/
theorem RowStep.extends (h : RowStep cfg db e t t') (hshape : t.Shape)
    (hstart : e.starts t.id = false) : ∃ stamped, Extends e t t' stamped := by
  cases h with
  | keep hlabel => exact ⟨_, extends_nil rfl hlabel hstart⟩
  | purge _ _ hlabel => exact ⟨_, extends_nil rfl hlabel hstart⟩
  | renew hwhere hlabel =>
      have hopen := TaskState.not_isTerminal_of_isLive (heldLive_holds.mp hwhere).2
      refine ⟨_, extends_nil ?_ hlabel hstart⟩
      rw [lifecycle_open hopen, lifecycle_open (t := t.renew _ _) hopen]
      rfl
  | shorten hwhere hlabel =>
      have hopen := TaskState.not_isTerminal_of_isLive (heldLive_holds.mp hwhere).2
      refine ⟨_, extends_nil ?_ hlabel hstart⟩
      rw [lifecycle_open hopen, lifecycle_open (t := t.shorten _ _) hopen]
      rfl
  | claim hop hwhere hlabel =>
      refine ⟨_, extends_single (x := ⟨.assigned, e.now, "assigned_at"⟩)
        (by rw [hlabel]; rfl) ?_ rfl ⟨_, _, hlabel⟩⟩
      obtain ⟨-, -, hstarted, -, -⟩ := hshape.queued (claimable_queued hwhere)
      rw [lifecycle_queued hshape (claimable_queued hwhere),
        lifecycle_open (t := t.claim _ _ _ _) rfl]
      simp [Task.claim, hstarted]
  | start hop hreply hid =>
      rw [starts_of_start hop hreply hid] at hstart
      cases hstart
  | fail hop hreply hid howner hlive hlabel =>
      refine ⟨_, extends_single (x := ⟨.failed, e.now, lastWriteSource⟩)
        (by rw [hlabel]; rfl) ?_ rfl (.inl ⟨_, hlabel⟩)⟩
      rw [lifecycle_open (TaskState.not_isTerminal_of_isLive hlive)]
      simp [lifecycle, Task.mark, TaskState.isTerminal]
  | complete hop hreply hid howner hlive hattempt hlabel => exact extends_complete hlive hlabel
  | reclaim hop hwhere hlabel =>
      exact extends_reclaim hshape (expired_holds.mp hwhere).1 hlabel
  | cancel hop hid hstatus hlabel =>
      refine ⟨_, extends_single (x := ⟨.cancelled, e.now, lastWriteSource⟩)
        (by rw [hlabel]; rfl) ?_ rfl hlabel⟩
      obtain ⟨-, hassigned, hstarted, -, -⟩ := hshape.queued hstatus
      rw [lifecycle_queued hshape hstatus]
      simp [lifecycle, Task.cancel, hassigned, hstarted]

/-- **One step**, of the row it finds and the row it leaves. -/
theorem step_extends (hreach : (queue cfg schemas).Reachable db)
    (hs : (queue cfg schemas).step db e db') (ht : t ∈ db.tasks) (ht' : t' ∈ db'.tasks)
    (hid : t'.id = t.id) : ∃ stamped, Extends e t t' stamped := by
  have hshape := reachable_shape hreach t ht
  cases hstart : e.starts t.id with
  | true =>
      obtain ⟨u, hu, huid, hstatus, hwritten⟩ := step_started hs hstart
      obtain rfl : u = t := Table.eq_of_key hu ht huid
      obtain rfl : t' = u.mark cfg db.policies e.now .running := Table.eq_of_key ht' hwritten
        (by simpa using hid)
      refine ⟨_, extends_start hshape hstatus ?_ hstart⟩
      unfold Event.starts at hstart
      split at hstart
      · next hop => simp only [Event.label, hop]
      · cases hstart
  | false =>
      obtain ⟨u', hu', hrow, huid⟩ := (step_rows hs).forward t ht
      obtain rfl : u' = t' := Table.eq_of_key hu' ht' (huid.trans hid.symm)
      exact hrow.extends hshape hstart

/-! ## What holds of every timeline -/

/-- A completed task has its completion time. -/
theorem reachable_completedAt (h : (queue cfg schemas).Reachable db) :
    ∀ t ∈ db.tasks, t.status = .completed → t.completedAt.isSome = true := by
  refine reachable_rows ?_ ?_ h
  · intro e t hnew hstatus
    obtain ⟨_, _, _, -, -, heq⟩ := hnew
    rw [heq] at hstatus
    cases hstatus
  · intro db e t t' _ _ hrow hold hstatus
    cases hrow with
    | complete => rfl
    | keep => exact hold hstatus
    | purge => exact hold hstatus
    | renew => exact hold hstatus
    | shorten => exact hold hstatus
    | claim => cases hstatus
    | start => cases hstatus
    | fail => cases hstatus
    | cancel => cases hstatus
    | reclaim =>
        simp only [Task.reclaim] at hstatus
        split at hstatus <;> cases hstatus

/-- The last entry is the status. -/
theorem lifecycle_getLast? (hshape : t.Shape)
    (hcompleted : t.status = .completed → t.completedAt.isSome = true) :
    (lifecycle t).getLast?.map LifecycleEntry.state = some t.status := by
  cases hstatus : t.status with
  | queued =>
      rw [lifecycle_queued hshape hstatus]
      rfl
  | assigned | running =>
      obtain ⟨-, hassigned, -, -⟩ := hshape.live (by rw [hstatus]; rfl)
      obtain ⟨assigned, hassigned⟩ := Option.isSome_iff_exists.mp hassigned
      have hstarted := hshape.started (by rw [hstatus]; rfl)
      rw [lifecycle_open (by rw [hstatus]; rfl), hassigned]
      cases hs : t.startedAt <;> simp_all
  | completed =>
      obtain ⟨completed, hc⟩ := Option.isSome_iff_exists.mp (hcompleted hstatus)
      rw [lifecycle, if_pos ⟨hstatus, hcompleted hstatus⟩, hc, List.getLast?_append]
      rfl
  | failed =>
      rw [lifecycle_last (.inl hstatus), Option.map_some, hstatus]
  | cancelled =>
      rw [lifecycle_last (.inr hstatus), Option.map_some, hstatus]
  | reassigned => exact absurd hstatus hshape.notReassigned

/-- An entry that is kept stays one of the history. -/
theorem Recorded.later {id : Uuid} {x : LifecycleEntry} (h : Recorded es id x)
    (hkept : x.state = .queued ∨ (e.label id).isTaken = false) : Recorded (es ++ [e]) id x := by
  obtain ⟨as, f, bs, hsplit, hnow, hwrites, hsince⟩ := h
  refine ⟨as, f, bs ++ [e], by rw [hsplit]; simp, hnow, hwrites, fun hstate g hg => ?_⟩
  rcases List.mem_append.mp hg with hg | hg
  · exact hsince hstate g hg
  · rw [List.mem_singleton.mp hg]
    exact hkept.resolve_left hstate

/-- **One row** keeps its entries recorded. -/
theorem Extends.recorded {stamped : List LifecycleEntry} (h : Extends e t t' stamped)
    (hid : t'.id = t.id) (hold : ∀ x ∈ lifecycle t, Recorded es t.id x) :
    ∀ x ∈ lifecycle t', Recorded (es ++ [e]) t'.id x := by
  intro x hx
  rw [h.eq] at hx
  rw [hid]
  rcases List.mem_append.mp hx with hx | hx
  · obtain ⟨hmem, hkept⟩ := List.mem_filter.mp hx
    rw [Bool.or_eq_true, decide_eq_true_eq, Bool.not_eq_true'] at hkept
    exact (hold x hmem).later hkept
  · obtain ⟨hnow, hwrites⟩ := h.now x hx
    exact ⟨es, e, [], rfl, hnow, hwrites, fun _ f hf => (by cases hf)⟩

/-- **One row** stays in order exactly when what is added is not before what is kept. -/
theorem Extends.ordered_iff {stamped : List LifecycleEntry} (h : Extends e t t' stamped)
    (hold : (lifecycle t).Pairwise fun x y => x.time ≤ y.time) :
    (lifecycle t').Pairwise (fun x y => x.time ≤ y.time) ↔
      ((∃ s, e.Writes t.id s) → ∀ x ∈ keptEntries e t, x.time ≤ e.now) := by
  rw [h.eq, List.pairwise_append]
  constructor
  · intro hsplit hwrites x hx
    obtain ⟨y, hy⟩ := List.exists_mem_of_ne_nil _ (h.writes hwrites)
    rw [← (h.now y hy).1]
    exact hsplit.2.2 x hx y hy
  · intro hforward
    refine ⟨hold.sublist List.filter_sublist, ?_, fun x hx y hy => ?_⟩
    · refine List.pairwise_of_forall_mem_list fun x hx y hy => ?_
      rw [(h.now x hx).1, (h.now y hy).1]
    · obtain ⟨hnow, hwrites⟩ := h.now y hy
      rw [hnow]
      exact hforward ⟨_, hwrites⟩ x hx

/-- The row that is added has its one entry from the event that adds it. -/
theorem Enqueued.timelineTrue (h : Enqueued e t) : TimelineTrue (es ++ [e]) t := by
  obtain ⟨req, taskType, parameters, hop, hreply, heq⟩ := h
  have hlabel : e.label t.id = .create := by
    simp [Event.label, hop, hreply, Reply.done]
  have hone : lifecycle t = [⟨.queued, e.now, "created_at"⟩] := by
    rw [heq]
    rfl
  refine ⟨?_, ?_, ?_⟩
  · rw [hone, heq]
    rfl
  · rw [hone]
    exact List.pairwise_singleton _ _
  · rw [hone]
    intro x hx
    rw [List.mem_singleton.mp hx]
    exact ⟨es, e, [], rfl, rfl, hlabel, fun hne => absurd rfl hne⟩

/-- **One step** keeps every timeline chronological and true exactly when it stamps
forward. -/
theorem step_timelineTrue_iff (hrun : (queue cfg schemas).Run es db)
    (hs : (queue cfg schemas).step db e db') (hold : ∀ t ∈ db.tasks, TimelineTrue es t) :
    (∀ t ∈ db'.tasks, TimelineTrue (es ++ [e]) t) ↔ StampsForward db e := by
  constructor
  · intro hnew t ht
    obtain ⟨t', ht', -, hid⟩ := (step_rows hs).forward t ht
    obtain ⟨stamped, hext⟩ := step_extends hrun.reachable hs ht ht' hid
    exact (hext.ordered_iff (hold t ht).ordered).mp (hnew t' ht').ordered
  · intro hforward t' ht'
    rcases (step_rows hs).backward t' ht' with ⟨t, ht, -, hid⟩ | ⟨hfresh, -⟩
    · obtain ⟨stamped, hext⟩ := step_extends hrun.reachable hs ht ht' hid
      have hreach' := (hrun.snoc hs).reachable
      exact ⟨lifecycle_getLast? (reachable_shape hreach' t' ht')
        (reachable_completedAt hreach' t' ht'),
        (hext.ordered_iff (hold t ht).ordered).mpr (hforward t ht),
          hext.recorded hid (hold t ht).recorded⟩
    · exact hfresh.timelineTrue

/-- **When every timeline is chronological and true.** Along any run of the queue,
whatever the clocks of its transactions, every task of every state passed through has
a timeline whose last entry is its status, whose times do not decrease, and whose
entries all stem from events after which no attempt was taken back, if and only if
every transaction that claims, starts, completes, fails or cancels a task began no
earlier than the stamps it leaves in the task's row. -/
theorem timelines_true_iff {db₀ : Db} (hinit : (queue cfg schemas).init db₀)
    (h : (queue cfg schemas).Trace db₀ es db) :
    ((queue cfg schemas).guarded StampsForward).Trace db₀ es db ↔
      ∀ as bs mid, es = as ++ bs → (queue cfg schemas).Trace db₀ as mid →
        ∀ t ∈ mid.tasks, TimelineTrue as t := by
  refine h.guarded_iff_history (P := fun es db => ∀ t ∈ db.tasks, TimelineTrue es t)
    (queue_deterministic cfg schemas) ?_ ?_ hinit
  · intro db hdb t ht
    rw [hdb.1] at ht
    exact absurd ht (Table.not_mem_empty t)
  · intro es db e db' hrun hs hold
    exact step_timelineTrue_iff hrun hs hold

end

/-- The run that claims one task. -/
theorem timelines_true_iff_claimed :
    ((queue {} Demo.schemas).guarded StampsForward).Trace .empty
        (play {} Demo.schemas .empty Demo.claimed).1
        (play {} Demo.schemas .empty Demo.claimed).2 ↔
      ∀ as bs mid, (play {} Demo.schemas .empty Demo.claimed).1 = as ++ bs →
        (queue {} Demo.schemas).Trace .empty as mid → ∀ t ∈ mid.tasks, TimelineTrue as t :=
  timelines_true_iff ⟨rfl, rfl, rfl⟩ (play_trace Demo.claimed_playable)

def Demo.laterTask : Uuid := ⟨8, by decide⟩

/-- One task waits since 0. An assignment pass begins its transaction at 3, with the
depth check that finds it; another task is submitted at 5, and the pass's `dequeue`
takes both. -/
def Demo.earlyPass : List (Seconds × Op) :=
  [(0, .enqueue Demo.task Demo.request), (5, .enqueue Demo.laterTask Demo.request),
    (3, .dequeue Demo.worker 2 100 none [])]

theorem Demo.earlyPass_playable : Playable {} Demo.schemas .empty Demo.earlyPass :=
  ⟨rfl, rfl, trivial, trivial⟩

/-- The second task was assigned two seconds before it was queued. -/
theorem timeline_runs_backwards :
    (queue {} Demo.schemas).Run (play {} Demo.schemas .empty Demo.earlyPass).1
      (play {} Demo.schemas .empty Demo.earlyPass).2 ∧
    ∃ t ∈ (play {} Demo.schemas .empty Demo.earlyPass).2.tasks,
      lifecycle t = [⟨.queued, 5, "created_at"⟩, ⟨.assigned, 3, "assigned_at"⟩] ∧
      ¬ TimelineTrue (play {} Demo.schemas .empty Demo.earlyPass).1 t := by
  have hrow : ∃ t ∈ (play {} Demo.schemas .empty Demo.earlyPass).2.tasks.rows,
      lifecycle t = [⟨.queued, 5, "created_at"⟩, ⟨.assigned, 3, "assigned_at"⟩] := by
    decide +kernel
  obtain ⟨t, ht, hline⟩ := hrow
  refine ⟨play_run Demo.earlyPass_playable, t, ht, hline, fun htrue => ?_⟩
  have hordered := htrue.ordered
  rw [hline, List.pairwise_pair] at hordered
  norm_num at hordered

end TaskFleet.Model
