import TaskFleet.Logic.HeldRow
import TaskFleet.Logic.LeaseKeeping

/-!
# Turns of the read loop

A turn commits at most one transaction of the queue (`turn_db`). What it makes
of a live row of the session's worker is a `HeldStep` (`turn_held`): nothing
that comes in on the session shortens a lease, and nobody else can. From the
`hello` on, session and renewal clock stay as they are meant to be (`Tidy`).
-/

namespace TaskFleet.Model

open Py Sql

/-! ## Deliveries -/

namespace LocalSession

variable {s : LocalSession} {k : String}

/-- Delivering other tasks leaves `k` as it was. -/
theorem untouched_deliver {taskId correlationId : String} (hne : taskId ≠ k) :
    Untouched k s (s.deliver taskId correlationId) := by
  refine ⟨?_, ?_, Iff.rfl⟩
  · rw [deliver, Dict.mem_keys_set]
    exact or_iff_right hne.symm
  · rw [deliver, Dict.mem_keys_set]
    exact or_iff_right hne.symm

theorem untouched_deliveries {rows : List ClaimedTask} (hne : ∀ r ∈ rows, r.id.str ≠ k) :
    Untouched k s (rows.foldl (fun s r => s.deliver r.id.str r.correlationId) s) := by
  induction rows generalizing s with
  | nil => exact untouched_refl
  | cons r rows ih =>
      rw [List.foldl_cons]
      exact untouched_trans (untouched_deliver (hne r (List.mem_cons_self ..)))
        (ih fun r' hr' => hne r' (List.mem_cons_of_mem r hr'))

theorem deliveries_workerId {rows : List ClaimedTask} :
    (rows.foldl (fun s r => s.deliver r.id.str r.correlationId) s).workerId = s.workerId := by
  induction rows generalizing s with
  | nil => rfl
  | cons r rows ih =>
      rw [List.foldl_cons, ih]
      rfl

end LocalSession

/-- The keys stay names of tasks. -/
theorem Channel.Named.deliverAll {ch : Channel} (h : ch.Named) (rows : List ClaimedTask) :
    (ch.deliverAll rows).Named := by
  have hsame : Untouched "" ch.session (ch.deliverAll rows).session :=
    LocalSession.untouched_deliveries fun r _ => Uuid.str_ne_empty r.id
  exact ⟨fun hk => h.credited (hsame.credited.mp hk), fun hk => h.pending (hsame.pending.mp hk)⟩

theorem Channel.Named.turned {cfg : Config} {now : Seconds} {ch ch' : Channel} (h : ch.Named)
    (ht : Turned cfg now ch ch') : ch'.Named :=
  ⟨fun hk => h.credited (ht.shrinks.credited hk), fun hk => h.pending (ht.shrinks.pending hk)⟩

/-! ## A held row through a turn -/

section

variable {cfg : Config} {fl : FloatOps} {schemas : Schemas} {db : Db} {now : Seconds}
  {ch : Channel} {t : Task}

theorem heldStep_renewLease (taskId : String) (w : Uuid) (ht : t ∈ db.tasks) :
    ∃ t' ∈ (renewLease cfg db now taskId w).1.tasks, HeldStep cfg db now t t' := by
  unfold renewLease
  split
  · exact ⟨t, ht, .same⟩
  · exact heldStep_updateWhere Task.renew_id ht fun _ => .renewed

theorem heldStep_renewIfDue {through : Bool} {taskId : String} (ht : t ∈ db.tasks) :
    ∃ t' ∈ (ch.renewIfDue cfg db now through taskId).1.tasks, HeldStep cfg db now t t' := by
  unfold Channel.renewIfDue
  split
  · dsimp only
    exact heldStep_renewLease taskId ch.session.workerId ht
  · exact ⟨t, ht, .same⟩

/-- **A message** does to a live row what the row can bear. -/
theorem handle_held {through : Bool} {resultId : Uuid} {msg : WorkerMessage} {r : Db × Channel}
    (ht : t ∈ db.tasks) (h : ch.handle cfg fl db now through resultId msg = some r) :
    ∃ t' ∈ r.1.tasks, HeldStep cfg db now t t' := by
  cases msg with
  | taskAck taskId accepted reasonCode =>
      rw [← Option.some.inj h]
      unfold Channel.handleTaskAck
      split
      · exact heldStep_renewIfDue ht
      · exact ⟨t, ht, .same⟩
  | capacity taskId freed =>
      rw [← Option.some.inj h]
      exact ⟨t, ht, .same⟩
  | taskStarted taskId =>
      rw [← Option.some.inj h]
      simp only [Channel.handleTaskStarted]
      exact heldStep_markStatus ht fun hedge _ => .started (running_mem_allowed.mp hedge)
  | taskProgress taskId =>
      rw [← Option.some.inj h]
      exact heldStep_renewIfDue ht
  | taskFailed taskId errorType correlationId =>
      rw [← Option.some.inj h]
      simp only [Channel.handleTaskFailed]
      exact heldStep_failTask ht
  | taskResult payload =>
      rw [Channel.handle] at h
      rcases Channel.handleTaskResult_cases h with
        ⟨-, renewed, rfl, rfl⟩ | ⟨envelope, answer, -, rfl, -, hdb, -⟩
      · exact heldStep_renewIfDue ht
      · rw [hdb]
        exact heldStep_completeTask ht
  | other =>
      rw [← Option.some.inj h]
      exact ⟨t, ht, .same⟩

variable {s s' : Loop} {e : LoopEvent}

/-- **A turn** does to a live row of the session's worker what the row can
bear, unless it is a sweep that comes too late. -/
theorem turn_held (hs : (readLoop cfg fl schemas).step s e s') (ht : t ∈ s.db.tasks)
    (hlive : t.status.isLive = true) (hw : t.assignedWorkerId = some s.channel.session.workerId)
    (hswept : ∀ batch skip draw, e.act = .other (.reclaim batch skip draw) →
      (expired e.now t).holds = false) :
    ∃ t' ∈ s'.db.tasks, HeldStep cfg s.db e.now t t' := by
  obtain ⟨⟨-, hallowed⟩, hturn⟩ := hs
  cases hact : e.act with
  | message resultId msg =>
      simp only [Loop.turn, hact, Option.map_eq_some_iff] at hturn
      obtain ⟨r, hr, rfl⟩ := hturn
      exact handle_held ht hr
  | assign skip sent =>
      simp only [Loop.turn, hact, Option.some.injEq] at hturn
      rw [← hturn]
      rcases s.channel.assignOnce_cases cfg s.db e.now skip sent with
        hpass | ⟨limit, maxBatch, taskTypes, db', rows, hok, hpass⟩
      · rw [hpass]
        exact ⟨t, ht, .same⟩
      · rw [hpass]
        exact ⟨t, (dequeue_keeps ht hlive hok).1, .same⟩
  | other op =>
      simp only [Loop.turn, hact] at hturn
      rw [hact] at hallowed
      rw [← Option.some.inj hturn]
      refine held_step ht hlive hw (fun graceSeconds hop => ?_) fun batch skip draw hop => ?_
      · rw [hop] at hallowed
        exact hallowed.1 rfl
      · rw [hop] at hact
        exact hswept batch skip draw hact

/-- A turn commits one transaction of the queue, or none. -/
theorem turn_db (hs : (readLoop cfg fl schemas).step s e s') :
    s'.db = s.db ∨ ∃ op reply, (queue cfg schemas).step s.db ⟨e.now, op, reply⟩ s'.db := by
  obtain ⟨⟨-, hallowed⟩, hturn⟩ := hs
  cases hact : e.act with
  | message resultId msg =>
      rw [hact] at hallowed
      simp only [Loop.turn, hact, Option.map_eq_some_iff] at hturn
      obtain ⟨r, hr, rfl⟩ := hturn
      have hcall : CalledBy cfg schemas s.channel.session.workerId s.db e.now r.1 :=
        Channel.handle_calledBy hallowed hr
      rcases hcall with hsame | ⟨op, -, hadm, hdb⟩
      · exact .inl hsame
      · exact .inr ⟨op, (apply cfg schemas s.db e.now op).2, hdb ▸ queue_step hadm⟩
  | assign skip sent =>
      simp only [Loop.turn, hact, Option.some.injEq] at hturn
      rw [← hturn]
      rcases s.channel.assignOnce_cases cfg s.db e.now skip sent with
        hpass | ⟨limit, maxBatch, taskTypes, db', rows, hok, hpass⟩
      · rw [hpass]
        exact .inl rfl
      · let op : Op := .dequeue s.channel.session.workerId limit maxBatch taskTypes skip
        have hstep : (queue cfg schemas).step s.db ⟨e.now, op, (apply cfg schemas s.db e.now op).2⟩
          (apply cfg schemas s.db e.now op).1 := queue_step trivial
        simp only [op, apply, hok] at hstep
        rw [hpass]
        exact .inr ⟨_, _, hstep⟩
  | other op =>
      rw [hact] at hallowed
      simp only [Loop.turn, hact] at hturn
      rw [← Option.some.inj hturn]
      exact .inr ⟨op, _, queue_step hallowed.2⟩

/-- What ended stays as it ended. -/
theorem turn_terminal (hs : (readLoop cfg fl schemas).step s e s') (ht : t ∈ s.db.tasks)
    (hterm : t.status.isTerminal = true) :
    ∃ t' ∈ s'.db.tasks, t'.id = t.id ∧ t'.status = t.status ∧ t'.attemptCount = t.attemptCount := by
  rcases turn_db hs with hsame | ⟨op, reply, hstep⟩
  · exact ⟨t, hsame ▸ ht, rfl, rfl, rfl⟩
  · obtain ⟨t', ht', hid, hstatus, hattempt, -⟩ := Trace.terminal_row (.single hstep) ht hterm
    exact ⟨t', ht', hid, hstatus, hattempt⟩

/-! ## From the `hello` on -/

/-- A session over a database that can be. -/
structure Tidy (cfg : Config) (schemas : Schemas) (s : Loop) : Prop where
  queue : (queue cfg schemas).Reachable s.db
  named : s.channel.Named
  /-- No renewal is put off by more than a period. -/
  due : ∀ k due, s.channel.leaseRenewDue.lookup k = some due →
    due ≤ s.channel.monotonic s.clock + cfg.renewPeriod

/-- Whatever else a turn does, time goes on and the worker is the same. -/
theorem turn_clock (hs : (readLoop cfg fl schemas).step s e s') :
    s'.clock = e.now ∧ s.clock ≤ s'.clock := by
  obtain ⟨⟨hclock, -⟩, hturn⟩ := hs
  have hnow : s'.clock = e.now := by
    cases hact : e.act with
    | message resultId msg =>
        simp only [Loop.turn, hact, Option.map_eq_some_iff] at hturn
        obtain ⟨r, -, rfl⟩ := hturn
        rfl
    | assign skip sent =>
        simp only [Loop.turn, hact, Option.some.injEq] at hturn
        rw [← hturn]
    | other op =>
        simp only [Loop.turn, hact] at hturn
        rw [← Option.some.inj hturn]
  exact ⟨hnow, hnow ▸ hclock⟩

/-- What a turn does to the channel: a message is handled, or tasks are
delivered. -/
theorem turn_channel (hs : (readLoop cfg fl schemas).step s e s') :
    Turned cfg e.now s.channel s'.channel ∨
    ∃ rows : List ClaimedTask, s'.channel = s.channel.deliverAll rows := by
  obtain ⟨-, hturn⟩ := hs
  cases hact : e.act with
  | message resultId msg =>
      simp only [Loop.turn, hact, Option.map_eq_some_iff] at hturn
      obtain ⟨r, hr, rfl⟩ := hturn
      exact .inl (Channel.handle_turned hr)
  | assign skip sent =>
      simp only [Loop.turn, hact, Option.some.injEq] at hturn
      rw [← hturn]
      rcases s.channel.assignOnce_cases cfg s.db e.now skip sent with
        hpass | ⟨limit, maxBatch, taskTypes, db', rows, hok, hpass⟩
      · rw [hpass]
        exact .inl Channel.turned_refl
      · rw [hpass]
        exact .inr ⟨_, rfl⟩
  | other op =>
      simp only [Loop.turn, hact] at hturn
      rw [← Option.some.inj hturn]
      exact .inl Channel.turned_refl

/-- **A turn that names another task** leaves the channel as it was about a live
one. -/
theorem turn_apart (hnamed : s.channel.Named) (hs : (readLoop cfg fl schemas).step s e s')
    (ht : t ∈ s.db.tasks) (hlive : t.status.isLive = true)
    (hother : ∀ resultId msg, e.act = .message resultId msg →
      msg.taskId cfg fl ≠ t.id.str ∧ msg.unnamed = false) :
    Apart t.id.str s.channel s'.channel := by
  have hrefl : Apart t.id.str s.channel s.channel := ⟨LocalSession.untouched_refl, rfl⟩
  obtain ⟨-, hturn⟩ := hs
  cases hact : e.act with
  | message resultId msg =>
      simp only [Loop.turn, hact, Option.map_eq_some_iff] at hturn
      obtain ⟨r, hr, rfl⟩ := hturn
      obtain ⟨hne, hunnamed⟩ := hother resultId msg hact
      exact Channel.handle_apart hnamed hne hunnamed hr
  | assign skip sent =>
      simp only [Loop.turn, hact, Option.some.injEq] at hturn
      rw [← hturn]
      rcases s.channel.assignOnce_cases cfg s.db e.now skip sent with
        hpass | ⟨limit, maxBatch, taskTypes, db', rows, hok, hpass⟩
      · rw [hpass]
        exact hrefl
      · rw [hpass]
        refine ⟨LocalSession.untouched_deliveries fun r hr hid => ?_, rfl⟩
        exact (dequeue_keeps ht hlive hok).2 r (List.mem_of_mem_filter hr) (Uuid.str_inj.mp hid)
  | other op =>
      simp only [Loop.turn, hact] at hturn
      rw [← Option.some.inj hturn]
      exact hrefl

theorem turn_workerId (hs : (readLoop cfg fl schemas).step s e s') :
    s'.channel.session.workerId = s.channel.session.workerId := by
  rcases turn_channel hs with hturned | ⟨rows, hrows⟩
  · exact hturned.shrinks.worker
  · rw [hrows]
    exact LocalSession.deliveries_workerId

theorem trace_workerId {es : List LoopEvent} (h : (readLoop cfg fl schemas).Trace s es s') :
    s'.channel.session.workerId = s.channel.session.workerId := by
  induction h with
  | nil => rfl
  | snoc _ hstep ih => rw [turn_workerId hstep, ih]

theorem turn_offset (hs : (readLoop cfg fl schemas).step s e s') :
    s'.channel.clockOffset = s.channel.clockOffset := by
  rcases turn_channel hs with hturned | ⟨rows, hrows⟩
  · exact hturned.offset
  · rw [hrows]
    rfl

/-- **One turn** keeps it so. -/
theorem Tidy.step (h : Tidy cfg schemas s) (hs : (readLoop cfg fl schemas).step s e s') :
    Tidy cfg schemas s' := by
  obtain ⟨hnow, hlater⟩ := turn_clock hs
  have hmono : s.channel.monotonic s.clock ≤ s'.channel.monotonic s'.clock := by
    rw [Channel.monotonic, Channel.monotonic, turn_offset hs]
    exact add_le_add_left hlater _
  refine ⟨?_, ?_, ?_⟩
  · rcases turn_db hs with hsame | ⟨op, reply, hstep⟩
    · exact hsame ▸ h.queue
    · obtain ⟨es, hrun⟩ := h.queue
      exact (hrun.snoc hstep).reachable
  · rcases turn_channel hs with hturned | ⟨rows, hrows⟩
    · exact h.named.turned hturned
    · rw [hrows]
      exact h.named.deliverAll rows
  · intro k due hdue
    have hold : ∀ due, s.channel.leaseRenewDue.lookup k = some due →
        due ≤ s'.channel.monotonic s'.clock + cfg.renewPeriod :=
      fun due hk => (h.due k due hk).trans (add_le_add_left hmono _)
    rcases turn_channel hs with hturned | ⟨rows, hrows⟩
    · rcases hturned.due k due hdue with hk | hset
      · exact hold due hk
      · rw [hset, Channel.monotonic, Channel.monotonic, hturned.offset, hnow]
    · rw [hrows] at hdue
      exact hold due hdue

theorem reachable_tidy (h : (readLoop cfg fl schemas).Reachable s) : Tidy cfg schemas s := by
  refine h.invariant (P := Tidy cfg schemas) ?_ fun s e s' _ hp hs => hp.step hs
  rintro s ⟨hqueue, hpending, hcredited, hdue⟩
  refine ⟨hqueue, ⟨?_, ?_⟩, fun k due hk => ?_⟩
  · rw [hcredited]
    exact List.not_mem_nil
  · rw [hpending]
    exact List.not_mem_nil
  · rw [hdue] at hk
    cases hk

end

end TaskFleet.Model
