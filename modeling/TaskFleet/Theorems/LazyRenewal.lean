import TaskFleet.Logic.LoopSteps
import TaskFleet.Theorems.LeaseTtl
import Mathlib.Tactic.Ring

/-!
# Lazy renewal

A worker that is never silent about its task for as long as `(1 - f)·T` keeps
it until the deadline, though most of what it says writes nothing. The lease is
on the clock of the database and the due time on the clock of the process; an
accepted acknowledgement ties the two together, and `Keepalive.Safe` is the
knot.

The acknowledgement ties it only if it is itself worth a write, or the lease is
long enough as it is (`FreshAck`). `_lease_due` calls the first message of a
task's life always due; but a due time is kept by task and not by attempt, so
the acknowledgement of a task that was taken back and handed out again can find
the timer of the attempt before. It is then not due, and the short delivery
lease stays (`late_due_time_loses_task`).
-/

namespace TaskFleet.Model

open Py Sql

/-! ## What is heard -/

/-- A word of the worker that renews the lease of the task `k`. -/
def LoopEvent.renews (k : String) (e : LoopEvent) : Bool :=
  match e.act with
  | .message _ (.taskProgress taskId) => taskId = k
  | _ => false

/-- When the worker was last heard about `k`, if it was first heard at `since`. -/
def lastHeard (k : String) (since : Seconds) (es : List LoopEvent) : Seconds :=
  es.foldl (fun heard e => if e.renews k then e.now else heard) since

/-- Every gap between two such words is shorter than `(1 - f)·T`. -/
def Paced (cfg : Config) (k : String) (since : Seconds) (es : List LoopEvent) : Prop :=
  ∀ as e bs, es = as ++ e :: bs → e.renews k = true → e.now < lastHeard k since as + cfg.renewGap

/-- The message gives neither the task nor an unnamed credit back; a result it
brings is one of attempt `n`. -/
def WorkerMessage.KeepsTask (cfg : Config) (fl : FloatOps) (k : String) (n : Nat) :
    WorkerMessage → Prop
  | .capacity taskId freed => 1 ≤ freed → taskId ≠ k ∧ taskId ≠ ""
  | .taskResult payload =>
      match validate fl payload cfg.taskResultMaxBytes with
      | .error _ => Json.getStr fl payload "task_id" ≠ k
      | .ok envelope => envelope.taskId = k → envelope.attemptNumber = n
  | _ => True

/-- What may happen while attempt `n` of the task goes on. -/
structure Undisturbed (cfg : Config) (fl : FloatOps) (id : Uuid) (n : Nat) (s : Loop)
    (e : LoopEvent) : Prop where
  /-- The type of the task has no lease TTL of its own. -/
  ttl : ∀ t ∈ s.db.tasks, t.id = id → LeaseTtlIsDefault cfg s.db.policies t.taskType
  /-- The worker does not give the task back. -/
  message : ∀ resultId msg, e.act = .message resultId msg → msg.KeepsTask cfg fl id.str n
  /-- No sweep comes after the deadline. -/
  sweep : ∀ batch skip draw, e.act = .other (.reclaim batch skip draw) →
    ∀ t ∈ s.db.tasks, t.id = id → ∀ deadline, t.deadlineAt = some deadline → e.now < deadline

/-- The acknowledgement of `t` at `now` finds the task still credited to the
session; and if it finds a due time that has not come, the lease reaches a gap
beyond that time, or up to the deadline. -/
structure FreshAck (cfg : Config) (now : Seconds) (ch : Channel) (t : Task) : Prop where
  entitled : ch.session.mayRenew t.id.str = true
  covered : ∀ due, ch.leaseRenewDue.lookup t.id.str = some due → ch.monotonic now < due →
    ∀ lease deadline, t.leaseExpiresAt = some lease → t.deadlineAt = some deadline →
      min (due - ch.clockOffset + cfg.renewGap) deadline ≤ lease

section

variable {cfg : Config} {fl : FloatOps} {schemas : Schemas} {s s' : Loop} {e : LoopEvent}
  {t t' : Task} {id : Uuid} {n : Nat} {heard now : Seconds} {k : String}

theorem lastHeard_snoc {since : Seconds} {es : List LoopEvent} :
    lastHeard k since (es ++ [e]) = if e.renews k then e.now else lastHeard k since es := by
  simp only [lastHeard, List.foldl_append, List.foldl_cons, List.foldl_nil]

theorem paced_nil {since : Seconds} : Paced cfg k since [] := by
  intro as e bs hsplit
  cases as <;> cases hsplit

theorem paced_snoc {since : Seconds} {es : List LoopEvent} :
    Paced cfg k since (es ++ [e]) ↔ Paced cfg k since es ∧
      (e.renews k = true → e.now < lastHeard k since es + cfg.renewGap) := by
  constructor
  · refine fun h => ⟨fun as f bs hsplit => ?_, h es e [] rfl⟩
    exact h as f (bs ++ [e]) (by rw [hsplit, List.append_assoc, List.cons_append])
  · rintro ⟨hbefore, hlast⟩ as f bs hsplit
    rcases List.eq_nil_or_concat bs with rfl | ⟨bs', b, rfl⟩
    · obtain ⟨rfl, he⟩ := List.append_inj' hsplit rfl
      obtain rfl : e = f := by simpa using he
      exact hlast
    · rw [List.concat_eq_append, ← List.cons_append, ← List.append_assoc] at hsplit
      exact hbefore as f bs' (List.append_inj' hsplit rfl).1

theorem renewPeriod_add_renewGap :
    cfg.renewPeriod + cfg.renewGap = (cfg.taskLeaseTtlSeconds : Seconds) := by
  rw [Config.renewPeriod, Config.renewGap]
  ring

/-- The start of a task whose type has no TTL of its own. -/
theorem policySeconds_of_default {policies : TaskPolicies} {taskType : TaskType}
    (h : LeaseTtlIsDefault cfg policies taskType) :
    policySeconds policies .leaseTtlSeconds cfg.taskLeaseTtlSeconds taskType =
      cfg.taskLeaseTtlSeconds :=
  (policySeconds_eq_effective cfg policies .leaseTtlSeconds taskType).trans
    (effective_leaseTtl_iff.mpr h)

/-! ## The row and the timer -/

/-- The live row `t` of the session's worker, and the session's timer for it. -/
structure Timed (cfg : Config) (heard : Seconds) (s : Loop) (t : Task) : Prop where
  owner : t.assignedWorkerId = some s.channel.session.workerId
  entitled : s.channel.session.mayRenew t.id.str = true
  acked : t.id.str ∉ s.channel.session.pendingAcks.keys
  timer : ∃ lease deadline due, t.leaseExpiresAt = some lease ∧ t.deadlineAt = some deadline ∧
    s.channel.leaseRenewDue.lookup t.id.str = some (due + s.channel.clockOffset) ∧
    Keepalive.Safe cfg.renewPeriod cfg.renewGap ⟨s.clock, heard, due, lease, deadline⟩

/-- Attempt `n` goes on, or came to an end of its own. -/
def Kept (cfg : Config) (id : Uuid) (n : Nat) (heard : Seconds) (s : Loop) : Prop :=
  ∃ t ∈ s.db.tasks, t.id = id ∧ t.attemptCount = n ∧
    (t.status.isTerminal = true ∨ t.status.isLive = true ∧ Timed cfg heard s t)

/-- A lease that is safe has not run out. -/
theorem Timed.not_expired (h : Timed cfg heard s t) (hgap : now < heard + cfg.renewGap)
    (hdeadline : ∀ deadline, t.deadlineAt = some deadline → now < deadline) :
    ∃ lease, t.leaseExpiresAt = some lease ∧ now < lease := by
  obtain ⟨lease, deadline, due, hlease, hd, -, hsafe⟩ := h.timer
  exact ⟨lease, hlease, hsafe.alive hgap (hdeadline deadline hd)⟩

theorem not_expired_of_lease {lease : Seconds} (hlease : t.leaseExpiresAt = some lease)
    (hnow : now < lease) : (expired now t).holds = false := by
  rw [Bool.eq_false_iff]
  intro hexpired
  obtain ⟨-, lease', hlease', hlt⟩ := expired_holds.mp hexpired
  rw [hlease, Option.some.injEq] at hlease'
  rw [← hlease'] at hlt
  exact lt_asymm hnow hlt

/-- The row after a step that leaves the session's timer alone. -/
theorem Timed.held (h : Timed cfg heard s t) (hlive : t.status.isLive = true)
    (hstep : HeldStep cfg s.db e.now t t') (hs : (readLoop cfg fl schemas).step s e s')
    (hapart : Apart t.id.str s.channel s'.channel) (hperiod : 0 < cfg.renewPeriod)
    (httl : LeaseTtlIsDefault cfg s.db.policies t.taskType) :
    t'.attemptCount = t.attemptCount ∧
      (t'.status.isTerminal = true ∨ t'.status.isLive = true ∧ Timed cfg heard s' t') := by
  obtain ⟨lease, deadline, due, hlease, hd, hdue, hsafe⟩ := h.timer
  obtain ⟨hnow, hlater⟩ := turn_clock hs
  have hdue' : s'.channel.leaseRenewDue.lookup t.id.str = some (due + s'.channel.clockOffset) := by
    rw [hapart.due, turn_offset hs, hdue]
  have howner : t.assignedWorkerId = some s'.channel.session.workerId := by
    rw [turn_workerId hs]
    exact h.owner
  have hentitled : s'.channel.session.mayRenew t.id.str = true :=
    (LocalSession.mayRenew_eq hapart.session).trans h.entitled
  have hacked : t.id.str ∉ s'.channel.session.pendingAcks.keys :=
    fun hk => h.acked (hapart.session.pending.mp hk)
  -- the two moves of the abstract clocks: time passes, or the lease is written
  have hidle : Keepalive.Safe cfg.renewPeriod cfg.renewGap
      ⟨s'.clock, heard, due, lease, deadline⟩ :=
    hsafe.step hperiod hlater (.idle _)
  have hwrite : ∀ cap, Keepalive.Safe cfg.renewPeriod cfg.renewGap
      ⟨s'.clock, heard, due, min (e.now + cfg.taskLeaseTtlSeconds) cap, cap⟩ := by
    intro cap
    rw [← hnow, ← renewPeriod_add_renewGap]
    exact hsafe.step hperiod hlater (.write _ cap)
  cases hstep with
  | same =>
      exact ⟨rfl, .inr ⟨hlive, howner, hentitled, hacked, lease, deadline, due, hlease, hd, hdue',
        hidle⟩⟩
  | cleared =>
      exact ⟨rfl, .inr ⟨hlive, howner, hentitled, hacked, lease, deadline, due, hlease, hd, hdue',
        hidle⟩⟩
  | renewed =>
      have hlease' : (t.renew cfg e.now).leaseExpiresAt =
          some (min (e.now + cfg.taskLeaseTtlSeconds) deadline) := by
        rw [Task.renew, renewalTarget, hd, least_some]
      exact ⟨rfl, .inr ⟨hlive, howner, hentitled, hacked, _, deadline, due, hlease', hd, hdue',
        hwrite deadline⟩⟩
  | started hstatus =>
      have hlease' : (t.mark cfg s.db.policies e.now .running).leaseExpiresAt =
          some (min (e.now + cfg.taskLeaseTtlSeconds)
            (e.now + maxExecutionSeconds s.db.policies t.taskType)) := by
        rw [Task.mark_running_leaseExpiresAt, policySeconds_of_default httl]
        rfl
      exact ⟨rfl, .inr ⟨rfl, howner, hentitled, hacked, _, _, due, hlease', rfl, hdue', hwrite _⟩⟩
  | ended hterm hid hattempt => exact ⟨hattempt, .inl hterm⟩

/-- The row after a turn that sets the session's timer. -/
theorem Timed.marked {cap heard' : Seconds} (h : Timed cfg heard s t)
    (hs : (readLoop cfg fl schemas).step s e s')
    (hsession : Untouched t.id.str s.channel.session s'.channel.session)
    (hdue : s'.channel.leaseRenewDue.lookup t.id.str = some
      (s.channel.monotonic e.now + cfg.renewPeriod))
    (hperiod : 0 < cfg.renewPeriod) (hid : t'.id = t.id)
    (howner : t'.assignedWorkerId = t.assignedWorkerId)
    (hcap : t'.deadlineAt = some cap)
    (hlease : t'.leaseExpiresAt = some (min (e.now + cfg.taskLeaseTtlSeconds) cap))
    (hheard : heard' = heard ∨ heard' = e.now) : Timed cfg heard' s' t' := by
  obtain ⟨lease, deadline, due, -, -, -, hsafe⟩ := h.timer
  obtain ⟨hnow, hlater⟩ := turn_clock hs
  have hmark : Keepalive.Safe cfg.renewPeriod cfg.renewGap
      ⟨s'.clock, heard', e.now + cfg.renewPeriod,
        min (e.now + cfg.taskLeaseTtlSeconds) cap, cap⟩ := by
    rw [← hnow] at hheard ⊢
    rw [← renewPeriod_add_renewGap]
    exact hsafe.step hperiod hlater (.mark _ cap hheard)
  refine ⟨?_, ?_, ?_, _, cap, e.now + cfg.renewPeriod, hlease, hcap, ?_, hmark⟩
  · rw [howner, turn_workerId hs]
    exact h.owner
  · rw [hid, LocalSession.mayRenew_eq hsession]
    exact h.entitled
  · rw [hid]
    exact fun hk => h.acked (hsession.pending.mp hk)
  · rw [hid, hdue, turn_offset hs, Channel.monotonic]
    exact congrArg some (add_right_comm _ _ _)

/-- Attempt `n` of `t` as it is after a turn. -/
abbrev Timed.After (cfg : Config) (heard : Seconds) (s' : Loop) (t : Task) : Prop :=
  ∃ t' ∈ s'.db.tasks, t'.id = t.id ∧ t'.attemptCount = t.attemptCount ∧
    (t'.status.isTerminal = true ∨ t'.status.isLive = true ∧ Timed cfg heard s' t')

/-- A turn that is not about the task, or comes to nothing. -/
theorem Timed.apart (h : Timed cfg heard s t) (ht : t ∈ s.db.tasks) (hlive : t.status.isLive = true)
    (hs : (readLoop cfg fl schemas).step s e s') (hapart : Apart t.id.str s.channel s'.channel)
    (hperiod : 0 < cfg.renewPeriod) (hundisturbed : Undisturbed cfg fl t.id t.attemptCount s e)
    (hgap : e.now < heard + cfg.renewGap) : Timed.After cfg heard s' t := by
  obtain ⟨t', ht', hstep⟩ := turn_held hs ht hlive h.owner fun batch skip draw hact => by
    obtain ⟨lease, hlease, hnow⟩ :=
      h.not_expired hgap (hundisturbed.sweep batch skip draw hact t ht rfl)
    exact not_expired_of_lease hlease hnow
  exact ⟨t', ht', hstep.id_eq, h.held hlive hstep hs hapart hperiod (hundisturbed.ttl t ht rfl)⟩

/-- The worker is heard: the lease is renewed if that is due. -/
theorem Timed.progress (h : Timed cfg heard s t) (ht : t ∈ s.db.tasks)
    (hlive : t.status.isLive = true) (hs : (readLoop cfg fl schemas).step s e s') {resultId : Uuid}
    (hact : e.act = .message resultId (.taskProgress t.id.str)) (hperiod : 0 < cfg.renewPeriod) :
    Timed.After cfg e.now s' t := by
  have hturn := hs.2
  simp only [Loop.turn, hact, Channel.handle, Option.map_some, Option.some.injEq] at hturn
  obtain ⟨lease, deadline, due, hlease, hd, hdue, hsafe⟩ := h.timer
  cases hisDue : s.channel.leaseDue e.now t.id.str with
  | true =>
      simp only [Channel.renewIfDue, h.entitled, hisDue, Bool.and_self, if_true] at hturn
      have hrow : t.renew cfg e.now ∈ s'.db.tasks := by
        simp only [← hturn]
        exact renewLease_row ht hlive h.owner e.now
      have hchannel : s'.channel = s.channel.markRenewed cfg e.now t.id.str := by rw [← hturn]
      have htimed : Timed cfg e.now s' (t.renew cfg e.now) := by
        refine h.marked hs ?_ ?_ hperiod rfl rfl hd ?_ (.inr rfl)
        · rw [hchannel]
          exact LocalSession.untouched_refl
        · rw [hchannel, Channel.markRenewed, Dict.lookup_set, if_pos rfl, Config.renewPeriod]
        · rw [Task.renew, renewalTarget, hd, least_some]
      exact ⟨t.renew cfg e.now, hrow, rfl, rfl, .inr ⟨hlive, htimed⟩⟩
  | false =>
      simp only [Channel.renewIfDue, h.entitled, hisDue, Bool.and_true, Bool.and_false,
        Bool.false_eq_true, if_false] at hturn
      subst hturn
      have hearly : e.now < due := by
        simp only [Channel.leaseDue, hdue, Channel.monotonic] at hisDue
        exact lt_of_add_lt_add_right (not_le.mp (of_decide_eq_false hisDue))
      refine ⟨t, ht, rfl, rfl,
        .inr ⟨hlive, h.owner, h.entitled, h.acked, lease, deadline, due, hlease,
        hd, hdue, ?_⟩⟩
      exact hsafe.step hperiod hs.1.1 (.early _ hearly)

/-- The worker starts the task, or says so again. -/
theorem Timed.start (h : Timed cfg heard s t) (ht : t ∈ s.db.tasks)
    (hlive : t.status.isLive = true) (hs : (readLoop cfg fl schemas).step s e s') {resultId : Uuid}
    (hact : e.act = .message resultId (.taskStarted t.id.str)) (hperiod : 0 < cfg.renewPeriod)
    (hundisturbed : Undisturbed cfg fl t.id t.attemptCount s e)
    (hgap : e.now < heard + cfg.renewGap) : Timed.After cfg heard s' t := by
  have hturn := hs.2
  simp only [Loop.turn, hact, Channel.handle, Channel.handleTaskStarted, markStatus, Uuid.parse_str,
    Option.map_some, Option.some.injEq] at hturn
  -- a first report writes a new lease and deadline; a repeated one changes nothing
  rcases markStatusAt_cases cfg s.db e.now t.id s.channel.session.workerId .running with
    ⟨row, hrow, -, -, hmark⟩ | ⟨outcome, hne, hmark⟩
  · rw [hmark, if_pos rfl] at hturn
    have hrow : t.mark cfg s.db.policies e.now .running ∈ s'.db.tasks := by
      rw [← hturn]
      exact Db.mem_updateTask Task.mark_id ht rfl
    have hchannel : s'.channel = s.channel.markRenewed cfg e.now t.id.str := by rw [← hturn]
    have hlease : (t.mark cfg s.db.policies e.now .running).leaseExpiresAt =
        some (min (e.now + cfg.taskLeaseTtlSeconds)
          (e.now + maxExecutionSeconds s.db.policies t.taskType)) := by
      rw [Task.mark_running_leaseExpiresAt, policySeconds_of_default (hundisturbed.ttl t ht rfl)]
      rfl
    have htimed : Timed cfg heard s' (t.mark cfg s.db.policies e.now .running) := by
      refine h.marked hs ?_ ?_ hperiod rfl rfl rfl hlease (.inl rfl)
      · rw [hchannel]
        exact LocalSession.untouched_refl
      · rw [hchannel, Channel.markRenewed, Dict.lookup_set, if_pos rfl, Config.renewPeriod]
    exact ⟨_, hrow, rfl, rfl, .inr ⟨rfl, htimed⟩⟩
  · rw [hmark, if_neg hne] at hturn
    have hsame : s'.channel = s.channel := by rw [← hturn]
    exact h.apart ht hlive hs (hsame ▸ ⟨LocalSession.untouched_refl, rfl⟩) hperiod hundisturbed hgap

/-- A message that keeps the task and names another releases no credit at
random. -/
theorem WorkerMessage.KeepsTask.unnamed {msg : WorkerMessage} (h : msg.KeepsTask cfg fl k n) :
    msg.unnamed = false := by
  cases msg with
  | capacity taskId freed =>
      rw [WorkerMessage.unnamed, Bool.and_eq_false_iff]
      by_cases hfreed : 1 ≤ freed
      · exact .inl (decide_eq_false (h hfreed).2)
      · exact .inr (decide_eq_false hfreed)
  | _ => rfl

theorem LoopEvent.renews_of_ne {resultId : Uuid} {msg : WorkerMessage}
    (hact : e.act = .message resultId msg) (hne : msg.taskId cfg fl ≠ k) : e.renews k = false := by
  cases msg with
  | taskProgress taskId =>
      rw [LoopEvent.renews, hact]
      exact decide_eq_false hne
  | _ => rw [LoopEvent.renews, hact]

/-- A message about the task. -/
theorem Timed.message (h : Timed cfg heard s t) (ht : t ∈ s.db.tasks)
    (hlive : t.status.isLive = true) (hs : (readLoop cfg fl schemas).step s e s') {resultId : Uuid}
    {msg : WorkerMessage} (hact : e.act = .message resultId msg)
    (hname : msg.taskId cfg fl = t.id.str) (hperiod : 0 < cfg.renewPeriod)
    (hundisturbed : Undisturbed cfg fl t.id t.attemptCount s e)
    (hgap : e.now < heard + cfg.renewGap) :
    Timed.After cfg (if e.renews t.id.str then e.now else heard) s' t := by
  have hkeeps := hundisturbed.message resultId msg hact
  have hturn := hs.2
  simp only [Loop.turn, hact, Option.map_eq_some_iff] at hturn
  obtain ⟨r, hr, rfl⟩ := hturn
  -- nothing happens to the session where the message is refused
  have hidle : r.2 = s.channel → e.renews t.id.str = false →
      Timed.After cfg (if e.renews t.id.str then e.now else heard) ⟨r.1, r.2, e.now⟩ t := by
    intro hsame hsilent
    rw [hsilent]
    exact h.apart ht hlive hs (hsame ▸ ⟨LocalSession.untouched_refl, rfl⟩) hperiod hundisturbed hgap
  cases msg with
  | taskAck taskId accepted reasonCode =>
      obtain rfl : taskId = t.id.str := hname
      have hnot : s.channel.session.pendingAcks.contains t.id.str = false := by
        rw [Bool.eq_false_iff]
        exact fun hc => h.acked (Dict.contains_iff.mp hc)
      refine hidle ?_ (by rw [LoopEvent.renews, hact])
      rw [← Option.some.inj hr]
      simp only [Channel.handleTaskAck, LocalSession.handleTaskAck, hnot, Bool.false_and,
        Bool.false_eq_true, if_false]
  | capacity taskId freed =>
      refine hidle ?_ (by rw [LoopEvent.renews, hact])
      rw [← Option.some.inj hr]
      have hfreed : freed < 1 := not_le.mp fun hle => (hkeeps hle).1 hname
      simp only [Channel.handleCapacity, hfreed, if_true]
  | taskStarted taskId =>
      obtain rfl : taskId = t.id.str := hname
      have hsilent : e.renews t.id.str = false := by rw [LoopEvent.renews, hact]
      rw [hsilent]
      exact h.start ht hlive hs hact hperiod hundisturbed hgap
  | taskProgress taskId =>
      obtain rfl : taskId = t.id.str := hname
      have hheard : e.renews t.id.str = true := by
        rw [LoopEvent.renews, hact]
        exact decide_eq_true rfl
      rw [hheard]
      exact h.progress ht hlive hs hact hperiod
  | taskFailed taskId errorType correlationId =>
      obtain rfl : taskId = t.id.str := hname
      rw [← Option.some.inj hr]
      simp only [Timed.After, Channel.handleTaskFailed]
      obtain ⟨t', ht', hid, hattempt, hterm⟩ := failTask_ends ht hlive h.owner
      exact ⟨t', ht', hid, hattempt, .inl hterm⟩
  | taskResult payload =>
      simp only [WorkerMessage.taskId] at hname
      simp only [WorkerMessage.KeepsTask] at hkeeps
      rw [Channel.handle] at hr
      rcases Channel.handleTaskResult_cases hr with
        ⟨⟨reason, hvalid⟩, -⟩ | ⟨envelope, answer, hvalid, rfl, htaken, hdb, -⟩
      · rw [hvalid] at hname hkeeps
        exact absurd hname hkeeps
      · rw [hvalid] at hname hkeeps
        obtain ⟨t', ht', hid, hattempt, hterm⟩ :=
          completeTask_ends ht hlive h.owner hname (hkeeps hname) htaken
        have hrow : t' ∈ r.1.tasks := by
          rw [hdb]
          exact ht'
        exact ⟨t', hrow, hid, hattempt, .inl hterm⟩
  | other => exact absurd hname.symm (Uuid.str_ne_empty t.id)

/-- **One turn** keeps the attempt. -/
theorem Kept.step (h : Kept cfg id n heard s) (htidy : Tidy cfg schemas s)
    (hs : (readLoop cfg fl schemas).step s e s') (hperiod : 0 < cfg.renewPeriod)
    (hundisturbed : Undisturbed cfg fl id n s e) (hgap : e.now < heard + cfg.renewGap) :
    Kept cfg id n (if e.renews id.str then e.now else heard) s' := by
  obtain ⟨t, ht, rfl, rfl, hterm | ⟨hlive, htimed⟩⟩ := h
  · obtain ⟨t', ht', hid, hstatus, hattempt⟩ := turn_terminal hs ht hterm
    exact ⟨t', ht', hid, hattempt, .inl (hstatus ▸ hterm)⟩
  · -- a turn that does not name the task leaves its timer alone
    have hother : (∀ resultId msg, e.act = .message resultId msg → msg.taskId cfg fl ≠ t.id.str) →
        e.renews t.id.str = false →
        Timed.After cfg (if e.renews t.id.str then e.now else heard) s' t := by
      intro hne hsilent
      have hapart : Apart t.id.str s.channel s'.channel :=
        turn_apart htidy.named hs ht hlive fun resultId msg hact =>
          ⟨hne resultId msg hact, (hundisturbed.message resultId msg hact).unnamed⟩
      rw [hsilent]
      exact htimed.apart ht hlive hs hapart hperiod hundisturbed hgap
    cases hact : e.act with
    | message resultId msg =>
        by_cases hname : msg.taskId cfg fl = t.id.str
        · exact htimed.message ht hlive hs hact hname hperiod hundisturbed hgap
        · refine hother (fun resultId' msg' hact' => ?_) (LoopEvent.renews_of_ne hact hname)
          rw [hact] at hact'
          cases hact'
          exact hname
    | assign skip sent =>
        refine hother (fun resultId msg hact' => ?_) (by rw [LoopEvent.renews, hact])
        rw [hact] at hact'
        cases hact'
    | other op =>
        refine hother (fun resultId msg hact' => ?_) (by rw [LoopEvent.renews, hact])
        rw [hact] at hact'
        cases hact'

/-- The accepted acknowledgement of a delivered task is taken off the books, and
is heard. -/
theorem handleTaskAck_accepted {db : Db} {through : Bool} {ch : Channel} {reasonCode : String}
    (hpending : ch.session.pendingAcks.contains k = true) :
    ch.handleTaskAck cfg db now through k true reasonCode =
      Channel.renewIfDue cfg db now through
        { ch with session := { ch.session with pendingAcks := ch.session.pendingAcks.erase k } }
          k := by
  simp only [Channel.handleTaskAck, LocalSession.handleTaskAck, hpending, Bool.and_self, if_true]

/-- **The acknowledgement** ties lease and timer together. -/
theorem FreshAck.kept {resultId : Uuid} {reasonCode : String} (h : FreshAck cfg e.now s.channel t)
    (htidy : Tidy cfg schemas s) (ht : t ∈ s.db.tasks) (hlive : t.status.isLive = true)
    (howner : t.assignedWorkerId = some s.channel.session.workerId)
    (hpending : s.channel.session.pendingAcks.contains t.id.str = true)
    (hs : (readLoop cfg fl schemas).step s e s')
    (hact : e.act = .message resultId (.taskAck t.id.str true reasonCode))
    (hperiod : 0 < cfg.renewPeriod) : Kept cfg t.id t.attemptCount e.now s' := by
  obtain ⟨-, -, hhasLease, hhasDeadline⟩ := (reachable_shape htidy.queue t ht).live hlive
  obtain ⟨lease, hlease⟩ := Option.isSome_iff_exists.mp hhasLease
  obtain ⟨deadline, hd⟩ := Option.isSome_iff_exists.mp hhasDeadline
  obtain ⟨⟨hclock, -⟩, hturn⟩ := hs
  simp only [Loop.turn, hact, Channel.handle, handleTaskAck_accepted hpending, Option.map_some,
    Option.some.injEq] at hturn
  -- what the acknowledgement finds, but for its own entry
  generalize hch : ({ s.channel with session := { s.channel.session with
    pendingAcks := s.channel.session.pendingAcks.erase t.id.str } } : Channel) = ch at hturn
  have hacked : t.id.str ∉ ch.session.pendingAcks.keys := by
    rw [← hch]
    exact fun hk => (Dict.mem_keys_erase.mp hk).1 rfl
  have hentitled : ch.session.mayRenew t.id.str = true := by
    rw [← hch]
    exact h.entitled
  have howner' : t.assignedWorkerId = some ch.session.workerId := by
    rw [← hch]
    exact howner
  have hdues : ch.leaseRenewDue = s.channel.leaseRenewDue := by rw [← hch]
  have hoffset : ch.clockOffset = s.channel.clockOffset := by rw [← hch]
  cases hisDue : ch.leaseDue e.now t.id.str with
  | true =>
      simp only [Channel.renewIfDue, hentitled, hisDue, Bool.and_self, if_true] at hturn
      have hrow : t.renew cfg e.now ∈ s'.db.tasks := by
        simp only [← hturn]
        exact renewLease_row ht hlive howner' e.now
      have hwritten : (t.renew cfg e.now).leaseExpiresAt =
          some (min (e.now + (cfg.renewPeriod + cfg.renewGap)) deadline) := by
        rw [Task.renew, renewalTarget, hd, least_some, renewPeriod_add_renewGap]
      have hset : (ch.markRenewed cfg e.now t.id.str).leaseRenewDue.lookup t.id.str =
          some (e.now + cfg.renewPeriod + ch.clockOffset) := by
        rw [Channel.markRenewed, Dict.lookup_set, if_pos rfl, Channel.monotonic, Config.renewPeriod]
        exact congrArg some (add_right_comm _ _ _)
      refine ⟨t.renew cfg e.now, hrow, rfl, rfl, .inr ⟨hlive, ?_⟩⟩
      rw [← hturn]
      exact ⟨howner', hentitled, hacked, _, deadline, _, hwritten, hd, hset, le_rfl,
        lt_add_of_pos_right e.now hperiod, le_rfl, Keepalive.covered_of_write le_rfl⟩
  | false =>
      simp only [Channel.renewIfDue, hentitled, hisDue, Bool.and_true, Bool.and_false,
        Bool.false_eq_true, if_false] at hturn
      cases hdue : ch.leaseRenewDue.lookup t.id.str with
      | none =>
          rw [Channel.leaseDue, hdue] at hisDue
          cases hisDue
      | some due =>
          simp only [Channel.leaseDue, hdue] at hisDue
          have hlater : ch.monotonic e.now < due := not_le.mp (of_decide_eq_false hisDue)
          have hbound : due ≤ s.channel.monotonic s.clock + cfg.renewPeriod :=
            htidy.due t.id.str due (hdues ▸ hdue)
          have hcovered : min (due - ch.clockOffset + cfg.renewGap) deadline ≤ lease := by
            rw [hoffset]
            rw [Channel.monotonic, hoffset] at hlater
            exact h.covered due (hdues ▸ hdue) hlater lease deadline hlease hd
          rw [Channel.monotonic, ← hoffset] at hbound
          rw [Channel.monotonic] at hlater
          refine ⟨t, hturn ▸ ht, rfl, rfl, .inr ⟨hlive, ?_⟩⟩
          rw [← hturn]
          refine ⟨howner', hentitled, hacked, lease, deadline, due - ch.clockOffset, hlease, hd, ?_,
            le_rfl, ?_, ?_, hcovered⟩
          · rw [sub_add_cancel]
            exact hdue
          · exact lt_sub_iff_add_lt.mpr hlater
          · show due - ch.clockOffset ≤ e.now + cfg.renewPeriod
            linarith

/-! ## Runs -/

theorem lastHeard_le {since : Seconds} {es : List LoopEvent} (hsince : since ≤ s.clock)
    (h : (readLoop cfg fl schemas).Trace s es s') : lastHeard k since es ≤ s'.clock := by
  induction h with
  | nil => exact hsince
  | snoc _ hstep ih =>
      obtain ⟨hnow, hlater⟩ := turn_clock hstep
      rw [lastHeard_snoc]
      split
      · exact hnow.ge
      · exact ih.trans hlater

/-- **Every run** of a worker that keeps being heard keeps the attempt. -/
theorem Kept.run {since : Seconds} {es : List LoopEvent}
    (hreach : (readLoop cfg fl schemas).Reachable s)
    (h : Kept cfg id n since s) (hperiod : 0 < cfg.renewPeriod)
    (htrace : ((readLoop cfg fl schemas).guarded (Undisturbed cfg fl id n)).Trace s es s')
    (hpaced : Paced cfg id.str since es) (hnow : s'.clock ≤ now)
    (hheard : now < lastHeard id.str since es + cfg.renewGap) :
    Kept cfg id n (lastHeard id.str since es) s' := by
  induction htrace generalizing now with
  | nil => exact h
  | @snoc es u v e htr hstep ih =>
      obtain ⟨hclock, hlater⟩ := turn_clock hstep.1
      obtain ⟨hbefore, hlast⟩ := paced_snoc.mp hpaced
      -- the worker was heard in time for this event, whatever comes next
      have hgap : e.now < lastHeard id.str since es + cfg.renewGap := by
        cases hrenews : e.renews id.str with
        | true => exact hlast hrenews
        | false =>
            rw [lastHeard_snoc, hrenews] at hheard
            exact (hclock ▸ hnow).trans_lt hheard
      have hkept : Kept cfg id n (lastHeard id.str since es) u := ih hbefore (hclock ▸ hlater) hgap
      have htidy : Tidy cfg schemas u := by
        obtain ⟨past, hpast⟩ := hreach
        exact reachable_tidy (hpast.extend htr.of_guarded).reachable
      rw [lastHeard_snoc]
      exact hkept.step htidy hstep.1 hperiod hstep.2 hgap

/-- A word that comes before it is due writes nothing. -/
theorem turn_quiet (hs : (readLoop cfg fl schemas).step s e s') (hrenews : e.renews k = true)
    (hdue : s.channel.leaseDue e.now k = false) : s'.db = s.db := by
  obtain ⟨-, hturn⟩ := hs
  unfold LoopEvent.renews at hrenews
  split at hrenews
  · next resultId taskId hact =>
      obtain rfl : taskId = k := of_decide_eq_true hrenews
      simp only [Loop.turn, hact, Channel.handle, Channel.renewIfDue, hdue, Bool.and_true,
        Bool.and_false, Bool.false_eq_true, if_false, Option.map_some, Option.some.injEq] at hturn
      rw [← hturn]
  · cases hrenews

/-- With a fraction between zero and one, a gap is only there with a period. -/
theorem renewPeriod_pos (hf : 0 < cfg.taskLeaseRenewFraction) (hf' : cfg.taskLeaseRenewFraction < 1)
    (hgap : 0 < cfg.renewGap) : 0 < cfg.renewPeriod := by
  have httl : 0 < (cfg.taskLeaseTtlSeconds : Seconds) :=
    (mul_pos_iff_of_pos_left (sub_pos.mpr hf')).mp hgap
  exact mul_pos httl hf

/-- **Lazy renewal keeps the task.** After the accepted acknowledgement of a
delivered task that finds the task credited and no timer of an earlier attempt
(`FreshAck`), in every run in which the worker does not give the task back and
is never silent about it for `(1 - f)·T`: the attempt goes on or has come to an
end of its own, and while it goes on, at every time before the deadline the
lease is in the future and no sweep selects the row. And a word that comes
before it is due writes nothing. -/
theorem lazy_renewal_keeps {s₀ s₁ : Loop} {es : List LoopEvent} {resultId : Uuid}
    {reasonCode : String} {ackTime : Seconds} (hf : 0 < cfg.taskLeaseRenewFraction)
    (hf' : cfg.taskLeaseRenewFraction < 1) (hreach : (readLoop cfg fl schemas).Reachable s₀)
    (ht : t ∈ s₀.db.tasks) (hlive : t.status.isLive = true)
    (howner : t.assignedWorkerId = some s₀.channel.session.workerId)
    (hpending : s₀.channel.session.pendingAcks.contains t.id.str = true)
    (hfresh : FreshAck cfg ackTime s₀.channel t)
    (hack : (readLoop cfg fl schemas).step s₀
      ⟨ackTime, .message resultId (.taskAck t.id.str true reasonCode)⟩ s₁)
    (htrace : ((readLoop cfg fl schemas).guarded
      (Undisturbed cfg fl t.id t.attemptCount)).Trace s₁ es s)
    (hpaced : Paced cfg t.id.str ackTime es) (hnow : s.clock ≤ now)
    (hheard : now < lastHeard t.id.str ackTime es + cfg.renewGap) :
    (∃ t' ∈ s.db.tasks, t'.id = t.id ∧ t'.attemptCount = t.attemptCount ∧
      (t'.status.isTerminal = true ∨
        t'.status.isLive = true ∧ t'.assignedWorkerId = t.assignedWorkerId ∧
          ((∀ deadline, t'.deadlineAt = some deadline → now < deadline) →
            (∃ lease, t'.leaseExpiresAt = some lease ∧ now < lease) ∧
              ∀ batch skip, t' ∉ expiredRows s.db now batch skip))) ∧
    ∀ e s', (readLoop cfg fl schemas).step s e s' → e.renews t.id.str = true →
      s.channel.leaseDue e.now t.id.str = false → s'.db = s.db := by
  refine ⟨?_, fun e s' hs hrenews hdue => turn_quiet hs hrenews hdue⟩
  have hclock : lastHeard t.id.str ackTime es ≤ now :=
    (lastHeard_le (turn_clock hack).1.ge htrace.of_guarded).trans hnow
  have hperiod : 0 < cfg.renewPeriod :=
    renewPeriod_pos hf hf' (pos_of_lt_add_right (hclock.trans_lt hheard))
  -- the acknowledgement leaves both clocks far enough ahead; the run keeps them so
  have hkept : Kept cfg t.id t.attemptCount ackTime s₁ :=
    hfresh.kept (reachable_tidy hreach) ht hlive howner hpending hack rfl hperiod
  obtain ⟨past, hpast⟩ := hreach
  obtain ⟨t', ht', hid, hattempt, hterm | ⟨hlive', htimed⟩⟩ :=
    hkept.run (hpast.snoc hack).reachable hperiod htrace hpaced hnow hheard
  · exact ⟨t', ht', hid, hattempt, .inl hterm⟩
  · have hworker : s.channel.session.workerId = s₀.channel.session.workerId :=
      (trace_workerId htrace.of_guarded).trans (turn_workerId hack)
    have howner' : t'.assignedWorkerId = t.assignedWorkerId := by
      rw [htimed.owner, hworker, howner]
    refine ⟨t', ht', hid, hattempt, .inr ⟨hlive', howner', fun hdeadline => ?_⟩⟩
    obtain ⟨lease, hlease, hfuture⟩ := htimed.not_expired hheard hdeadline
    refine ⟨⟨lease, hlease, hfuture⟩, fun batch skip hselected => ?_⟩
    have hexpired := (mem_expiredRows hselected).2
    rw [not_expired_of_lease hlease hfuture] at hexpired
    cases hexpired

end

namespace Demo

/-- A session of the small deployment from its `hello` on, with two slots. -/
def welcomed (cfg : Config) (calls : List (Seconds × Op)) : Loop where
  db := (play cfg schemas .empty calls).2
  channel := { session := .open cfg worker 1 (some 2) none ["sleep"] }
  clock := 0

theorem welcomed_reachable (cfg : Config) (calls : List (Seconds × Op)) (es : List LoopEvent)
    (h : Playable cfg schemas .empty calls)
    (hes : Loop.Playable cfg floats schemas (welcomed cfg calls) es) :
    (readLoop cfg floats schemas).Reachable ((welcomed cfg calls).play cfg floats schemas es) :=
  ⟨es, welcomed cfg calls, ⟨(play_run h).reachable, rfl, rfl, rfl⟩, Loop.play_trace hes⟩

def taskAssigned (now : Seconds) : LoopEvent := ⟨now, .assign [] [task]⟩

def taskAcked (now : Seconds) : LoopEvent := ⟨now, .message resultId (.taskAck task.str true "")⟩

def taskHeard (now : Seconds) : LoopEvent := ⟨now, .message resultId (.taskProgress task.str)⟩

theorem message_allowed {s : Loop} {now : Seconds} {msg : WorkerMessage} (hclock : s.clock ≤ now)
    (hfresh : s.db.results.get? resultId = none) :
    LoopEvent.Allowed ⟨now, .message resultId msg⟩ s :=
  ⟨hclock, hfresh⟩

/-- Nothing is disturbed by a word about a task whose type has no policy. -/
theorem taskHeard_undisturbed {cfg : Config} {s : Loop} {now : Seconds} {n : Nat}
    (h : s.db.policies.rows.all (fun p => (p.override .leaseTtlSeconds).isNone) = true) :
    Undisturbed cfg floats task n s (taskHeard now) := by
  refine ⟨fun t _ _ p hp _ ttl hoverride => ?_, fun _ _ hact => ?_, fun _ _ _ hact => ?_⟩
  · have hnone := List.all_eq_true.mp h p hp
    rw [hoverride] at hnone
    cases hnone
  · cases hact
    trivial
  · cases hact

/-- The task is enqueued, and claimed at 1. -/
def handedOut : Loop :=
  (welcomed {} [(0, .enqueue task request)]).play {} floats schemas [taskAssigned 1]

theorem handedOut_reachable : (readLoop {} floats schemas).Reachable handedOut :=
  welcomed_reachable {} [(0, .enqueue task request)] [taskAssigned 1] ⟨rfl, trivial⟩
    ⟨⟨by decide +kernel, trivial⟩, by decide +kernel, trivial⟩

def acknowledged : Loop := handedOut.next {} floats schemas (taskAcked 2)

def heardTwice : Loop := acknowledged.play {} floats schemas [taskHeard 20, taskHeard 40]

end Demo

/-- The task is acknowledged at 2, and the worker is heard at 20 and at 40; at
60 its lease has not run out. -/
theorem lazy_renewal_keeps_heard : ∃ t ∈ Demo.heardTwice.db.tasks, t.id = Demo.task ∧
    t.status.isLive = true ∧ ∃ lease, t.leaseExpiresAt = some lease ∧ 60 < lease := by
  obtain ⟨t, ht, hid, hattempt, hlive, howner⟩ :
      ∃ t ∈ Demo.handedOut.db.tasks.rows, t.id = Demo.task ∧ t.attemptCount = 0 ∧
        t.status.isLive = true ∧ t.assignedWorkerId = some Demo.worker := by
    decide +kernel
  have hfresh : FreshAck {} 2 Demo.handedOut.channel t := by
    refine ⟨by rw [hid]; decide +kernel, fun due hdue => ?_⟩
    have hnone : Demo.handedOut.channel.leaseRenewDue.lookup Demo.task.str = none := by
      decide +kernel
    rw [hid, hnone] at hdue
    cases hdue
  have hack : (readLoop {} Demo.floats Demo.schemas).step Demo.handedOut
      ⟨2, .message Demo.resultId (.taskAck t.id.str true "")⟩ Demo.acknowledged := by
    rw [hid]
    exact Loop.step_next (Demo.message_allowed (by decide +kernel) (by decide +kernel))
      (by decide +kernel)
  have htrace : ((readLoop {} Demo.floats Demo.schemas).guarded
      (Undisturbed {} Demo.floats t.id t.attemptCount)).Trace Demo.acknowledged
      [Demo.taskHeard 20, Demo.taskHeard 40] Demo.heardTwice := by
    rw [hid]
    refine .cons ⟨Loop.step_next (Demo.message_allowed ?_ ?_) ?_, Demo.taskHeard_undisturbed ?_⟩
      (.single ⟨Loop.step_next (Demo.message_allowed ?_ ?_) ?_, Demo.taskHeard_undisturbed ?_⟩)
    all_goals decide +kernel
  have hpaced : Paced {} t.id.str 2 [Demo.taskHeard 20, Demo.taskHeard 40] := by
    rw [hid]
    refine paced_snoc.mpr ⟨paced_snoc.mpr ⟨paced_nil, fun _ => ?_⟩, fun _ => ?_⟩
    all_goals decide +kernel
  have hheard : 60 < lastHeard t.id.str 2 [Demo.taskHeard 20, Demo.taskHeard 40] +
      Config.renewGap {} := by
    rw [hid]
    decide +kernel
  have hafter : ∀ t ∈ Demo.heardTwice.db.tasks.rows,
      t.status.isTerminal = false ∧ t.deadlineAt = some 3901 := by
    decide +kernel
  obtain ⟨⟨t', ht', hid', -, hcase⟩, -⟩ := lazy_renewal_keeps (by decide +kernel)
    (by decide +kernel)
    Demo.handedOut_reachable ht hlive howner (by rw [hid]; decide +kernel) hfresh hack htrace hpaced
    (by decide +kernel) hheard
  obtain ⟨hgoesOn, hd⟩ := hafter t' ht'
  rcases hcase with hterm | ⟨hlive', -, hsafe⟩
  · rw [hgoesOn] at hterm
    cases hterm
  · refine ⟨t', ht', hid'.trans hid, hlive', (hsafe fun deadline hdeadline => ?_).1⟩
    rw [hd, Option.some.injEq] at hdeadline
    rw [← hdeadline]
    decide +kernel

namespace Demo

/-- A lease lasts five minutes, and a task has 200 seconds. -/
def longTtl : Config := { taskLeaseTtlSeconds := 300 }

def shortTasks : List (Seconds × Op) :=
  [(0, .setPolicy "sleep" [(.maxExecutionSeconds, some 200)]), (0, .enqueue task request)]

/-- The first attempt is renewed at 160, which puts the next renewal off until
310; at 202 its deadline has passed and it is taken back, and the `task_cancel` is
lost. At 280 the task is handed to the same session, for its second slot. -/
def firstAttempt : List LoopEvent :=
  [taskAssigned 1, taskAcked 2, taskHeard 100, taskHeard 160,
    ⟨202, .other (.reclaim 100 [] fun _ => 0)⟩, taskAssigned 280]

def handedOutAgain : Loop := (welcomed longTtl shortTasks).play longTtl floats schemas firstAttempt

def reacknowledged : Loop := handedOutAgain.next longTtl floats schemas (taskAcked 281)

def reheard : Loop := reacknowledged.next longTtl floats schemas (taskHeard 309)

theorem handedOutAgain_reachable : (readLoop longTtl floats schemas).Reachable handedOutAgain := by
  refine welcomed_reachable longTtl shortTasks firstAttempt ⟨trivial, rfl, trivial⟩
    ⟨⟨?_, trivial⟩, ?_,
    message_allowed ?_ ?_, ?_, message_allowed ?_ ?_, ?_, message_allowed ?_ ?_, ?_,
    ⟨?_, (fun hsender => by cases hsender), fun _ => ⟨le_rfl, zero_lt_one⟩⟩, ?_,
      ⟨?_, trivial⟩, ?_, trivial⟩
  all_goals decide +kernel

end Demo

/-- The second attempt is acknowledged at 281, long before its delivery lease
runs out at 310, and the worker is heard at 309. The timer of the first attempt
was in the way both times: at 311, two seconds after the last word, the lease
has run out, and the sweep selects the row. -/
theorem late_due_time_loses_task :
    (readLoop Demo.longTtl Demo.floats Demo.schemas).Reachable Demo.handedOutAgain ∧
    (∃ t ∈ Demo.handedOutAgain.db.tasks, t.id = Demo.task ∧ t.attemptCount = 1 ∧
      t.status.isLive = true ∧
        t.assignedWorkerId = some Demo.handedOutAgain.channel.session.workerId ∧
      t.leaseExpiresAt = some 310) ∧
    Demo.handedOutAgain.channel.session.pendingAcks.contains Demo.task.str = true ∧
    (readLoop Demo.longTtl Demo.floats Demo.schemas).step Demo.handedOutAgain (Demo.taskAcked 281)
      Demo.reacknowledged ∧
    ((readLoop Demo.longTtl Demo.floats Demo.schemas).guarded
      (Undisturbed Demo.longTtl Demo.floats Demo.task 1)).Trace Demo.reacknowledged
      [Demo.taskHeard 309] Demo.reheard ∧
    Paced Demo.longTtl Demo.task.str 281 [Demo.taskHeard 309] ∧
    311 < lastHeard Demo.task.str 281 [Demo.taskHeard 309] + Demo.longTtl.renewGap ∧
    ∃ t ∈ expiredRows Demo.reheard.db 311 100 [], t.id = Demo.task ∧ t.attemptCount = 1 ∧
      t.leaseExpiresAt = some 310 ∧ t.deadlineAt = some 480 := by
  refine ⟨Demo.handedOutAgain_reachable, by decide +kernel, by decide +kernel,
    Loop.step_next (Demo.message_allowed ?_ ?_) ?_,
    .single ⟨Loop.step_next (Demo.message_allowed ?_ ?_) ?_, Demo.taskHeard_undisturbed ?_⟩,
    paced_snoc.mpr ⟨paced_nil, fun _ => ?_⟩, ?_, ?_⟩
  all_goals decide +kernel

end TaskFleet.Model
