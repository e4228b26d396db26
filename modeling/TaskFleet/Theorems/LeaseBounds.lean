import TaskFleet.Logic.TaskCounts
import Mathlib.Data.Rat.Cast.Order
import Mathlib.Tactic.Linarith

/-!
# What bounds a lease

Four statements write `lease_expires_at`. The start and the two renewals take
the smaller of their target and `deadline_at`, and the disconnect only ever
shortens; the claim stamps both columns, each from its own policy field, and
does not compare them. So a lease outlives its deadline exactly when a task is
handed out under an acknowledgement timeout longer than its execution cap
(`leases_within_deadlines`), and how long a worker can hold an attempt is
bounded all the same (`hold_bound`).
-/

namespace TaskFleet.Model

open Py Sql

/-- The lease of a live row is over by its deadline. -/
def Task.LeaseWithinDeadline (t : Task) : Prop :=
  t.status.isLive = true →
    ∃ lease deadline, t.leaseExpiresAt = some lease ∧ t.deadlineAt = some deadline ∧
      lease ≤ deadline

/-- So is that of every live row. -/
def Db.LeasesWithinDeadlines (db : Db) : Prop := ∀ t ∈ db.tasks, t.LeaseWithinDeadline

/-- The effective acknowledgement timeout of the row's type. -/
def Task.ackSeconds (cfg : Config) (policies : TaskPolicies) (t : Task) : Int :=
  (effectivePolicy cfg policies t.taskType).value .ackTimeoutSeconds

/-- The effective execution cap of the row's type. -/
def Task.capSeconds (cfg : Config) (policies : TaskPolicies) (t : Task) : Int :=
  (effectivePolicy cfg policies t.taskType).value .maxExecutionSeconds

/-- What is handed out has an acknowledgement timeout within its execution cap. -/
def AcksWithinCap (cfg : Config) (db : Db) (e : Event) : Prop :=
  ∀ t ∈ db.tasks, (∃ r ∈ e.reply.claims, r.id = t.id) →
    t.ackSeconds cfg db.policies ≤ t.capSeconds cfg db.policies

/-! ## The four writers -/

section

variable {cfg : Config} {schemas : Schemas} {db db' : Db} {e : Event}
  {es : List Event} {t t' : Task}

theorem ackSeconds_eq (cfg : Config) (policies : TaskPolicies) (t : Task) :
    policySeconds policies .ackTimeoutSeconds cfg.taskAckTimeoutSeconds t.taskType =
      t.ackSeconds cfg policies :=
  policySeconds_eq_effective cfg policies .ackTimeoutSeconds t.taskType

theorem capSeconds_eq (cfg : Config) (policies : TaskPolicies) (t : Task) :
    maxExecutionSeconds policies t.taskType = t.capSeconds cfg policies :=
  policySeconds_eq_effective cfg policies .maxExecutionSeconds t.taskType

/-- The claim keeps within the deadline exactly when its two timeouts are in
this order. -/
theorem claim_within_iff {policies : TaskPolicies} {now : Seconds} {w : Uuid} :
    (t.claim cfg policies now w).LeaseWithinDeadline ↔
      t.ackSeconds cfg policies ≤ t.capSeconds cfg policies := by
  rw [← ackSeconds_eq, ← capSeconds_eq]
  constructor
  · intro h
    obtain ⟨lease, deadline, hlease, hdeadline, hle⟩ := h rfl
    cases hlease
    cases hdeadline
    exact Int.cast_le.mp ((add_le_add_iff_left now).mp hle)
  · intro hle _
    exact ⟨_, _, rfl, rfl, (add_le_add_iff_left now).mpr (Int.cast_le.mpr hle)⟩

/-- The start is capped at the deadline it stamps. -/
theorem mark_running_lease (cfg : Config) (policies : TaskPolicies) (now : Seconds) (t : Task) :
    ∃ lease, (t.mark cfg policies now .running).leaseExpiresAt = some lease ∧
      lease ≤ now + maxExecutionSeconds policies t.taskType :=
  ⟨_, rfl, min_le_right _ _⟩

/-- A renewal is capped at the deadline there is. -/
theorem renew_lease (cfg : Config) (now : Seconds) {deadline : Seconds}
    (hd : t.deadlineAt = some deadline) :
    ∃ lease, (t.renew cfg now).leaseExpiresAt = some lease ∧ lease ≤ deadline := by
  refine ⟨min (now + cfg.taskLeaseTtlSeconds) deadline, ?_, min_le_right _ _⟩
  rw [Task.renew, renewalTarget, hd]
  rfl

/-- A disconnect never extends. -/
theorem shorten_lease (now : Seconds) (graceSeconds : Int) {lease : Seconds}
    (hl : t.leaseExpiresAt = some lease) :
    ∃ lease', (t.shorten now graceSeconds).leaseExpiresAt = some lease' ∧ lease' ≤ lease := by
  refine ⟨min lease (now + graceSeconds), ?_, min_le_left _ _⟩
  rw [Task.shorten, hl]
  rfl

/-! ## No lease outlives its deadline -/

/-- **One row.** Every writer but the claim keeps the lease within the deadline. -/
theorem RowStep.leaseWithinDeadline (h : RowStep cfg db e t t') (ht : t ∈ db.tasks)
    (hguard : AcksWithinCap cfg db e) (hold : t.LeaseWithinDeadline) : t'.LeaseWithinDeadline := by
  cases h with
  | keep => exact hold
  | purge => exact hold
  | claim hop hwhere hlabel =>
      obtain ⟨-, r, hr, hid, -⟩ := claims_of_label hlabel
      exact claim_within_iff.mpr (hguard t ht ⟨r, hr, hid⟩)
  | start =>
      intro _
      obtain ⟨lease, hlease, hle⟩ := mark_running_lease cfg db.policies e.now t
      exact ⟨lease, _, hlease, rfl, hle⟩
  | fail => intro hlive; cases hlive
  | complete => intro hlive; cases hlive
  | cancel => intro hlive; cases hlive
  | renew hwhere =>
      intro _
      obtain ⟨lease, deadline, -, hd, -⟩ := hold (heldLive_holds.mp hwhere).2
      obtain ⟨lease', hlease', hle⟩ := renew_lease cfg e.now hd
      exact ⟨lease', deadline, hlease', hd, hle⟩
  | @shorten _ graceSeconds hwhere =>
      intro _
      obtain ⟨lease, deadline, hl, hd, hle⟩ := hold (heldLive_holds.mp hwhere).2
      obtain ⟨lease', hlease', hle'⟩ := shorten_lease e.now graceSeconds hl
      exact ⟨lease', deadline, hlease', hd, hle'.trans hle⟩
  | reclaim =>
      intro hlive
      simp only [Task.reclaim] at hlive
      split at hlive <;> cases hlive

/-- **One step** from a state whose leases are within their deadlines keeps
them there exactly when what it hands out has its timeouts in order. -/
theorem step_leasesWithinDeadlines_iff (hs : (queue cfg schemas).step db e db')
    (hold : db.LeasesWithinDeadlines) : db'.LeasesWithinDeadlines ↔ AcksWithinCap cfg db e := by
  constructor
  · rintro hnew t ht ⟨r, hr, hid⟩
    obtain ⟨t', ht', hrow, -⟩ := (step_rows hs).forward t ht
    obtain ⟨w, hlabel⟩ := label_of_mem_claims hs hr hid
    obtain ⟨v, rfl⟩ := hrow.of_grant hlabel
    exact claim_within_iff.mp (hnew _ ht')
  · intro hguard t' ht'
    rcases (step_rows hs).backward t' ht' with ⟨t, ht, hrow, -⟩ | ⟨⟨_, _, _, -, -, heq⟩, -⟩
    · exact hrow.leaseWithinDeadline ht hguard (hold t ht)
    · intro hlive
      rw [heq] at hlive
      cases hlive

/-- **When no lease outlives its deadline.** Along any run of the queue, under
any policies and any changes of them, every live row of every state passed
through has `lease_expires_at ≤ deadline_at` if and only if every task handed
out has, at that moment, an acknowledgement timeout within its execution cap. -/
theorem leases_within_deadlines {db₀ : Db} (hinit : (queue cfg schemas).init db₀)
    (h : (queue cfg schemas).Trace db₀ es db) :
    ((queue cfg schemas).guarded (AcksWithinCap cfg)).Trace db₀ es db ↔
      ∀ as bs mid, es = as ++ bs → (queue cfg schemas).Trace db₀ as mid →
        mid.LeasesWithinDeadlines := by
  refine h.guarded_iff (queue_deterministic cfg schemas) ?_ ?_ hinit
  · rintro db ⟨htasks, -, -⟩ t ht
    rw [htasks] at ht
    exact absurd ht (Table.not_mem_empty t)
  · intro db e db' _ hs hold
    exact step_leasesWithinDeadlines_iff hs hold

end

/-- The run that claims one task under the shipped policies keeps its lease
within its deadline. -/
theorem leases_within_deadlines_claimed :
    ((queue {} Demo.schemas).guarded (AcksWithinCap {})).Trace .empty
        (play {} Demo.schemas .empty Demo.claimed).1
        (play {} Demo.schemas .empty Demo.claimed).2 ↔
      ∀ as bs mid, (play {} Demo.schemas .empty Demo.claimed).1 = as ++ bs →
        (queue {} Demo.schemas).Trace .empty as mid → mid.LeasesWithinDeadlines :=
  leases_within_deadlines ⟨rfl, rfl, rfl⟩ (play_trace Demo.claimed_playable)

/-- The operator gives `sleep` a minute to acknowledge and ten seconds to run,
each within its bounds, and the task is handed out. -/
def Demo.slowAck : List (Seconds × Op) :=
  (0, .setPolicy "sleep" [(.ackTimeoutSeconds, some 60), (.maxExecutionSeconds, some 10)]) ::
    Demo.claimed

theorem Demo.slowAck_playable : Playable {} Demo.schemas .empty Demo.slowAck :=
  ⟨trivial, rfl, trivial, trivial⟩

/-- The `ASSIGNED` row has its deadline at 11 and its lease until 61. -/
theorem lease_outlives_deadline :
    (queue {} Demo.schemas).Reachable (play {} Demo.schemas .empty Demo.slowAck).2 ∧
    ∃ t ∈ (play {} Demo.schemas .empty Demo.slowAck).2.tasks, t.status = .assigned ∧
      t.deadlineAt = some 11 ∧ t.leaseExpiresAt = some 61 ∧ ¬ t.LeaseWithinDeadline := by
  have hrow : ∃ t ∈ (play {} Demo.schemas .empty Demo.slowAck).2.tasks.rows,
      t.status = .assigned ∧ t.deadlineAt = some 11 ∧ t.leaseExpiresAt = some 61 := by
    decide +kernel
  obtain ⟨t, ht, hstatus, hdeadline, hlease⟩ := hrow
  refine ⟨(play_run Demo.slowAck_playable).reachable, t, ht, hstatus, hdeadline, hlease,
    fun hwithin => ?_⟩
  obtain ⟨lease, deadline, hl, hd, hle⟩ := hwithin (by rw [hstatus]; rfl)
  rw [hlease, Option.some.injEq] at hl
  rw [hdeadline, Option.some.injEq] at hd
  subst hl hd
  revert hle
  decide

section

variable {cfg : Config} {schemas : Schemas} {db db' : Db} {e : Event}
  {es : List Event} {t t' : Task}

/-! ## How long an attempt can be held -/

/-- Every override of the table is one `validate_policy` admits. -/
def PoliciesValid (policies : TaskPolicies) : Prop :=
  ∀ p ∈ policies, ∀ field value, p.override field = some value →
    field.bounds.1 ≤ value ∧ value ≤ field.bounds.2

/-- The policy table is this one when the step is taken. -/
def PoliciesAre (policies : TaskPolicies) (db : Db) (_ : Event) : Prop := db.policies = policies

/-- The two clocks of a live row, measured from the stamp of its status. -/
structure Task.HoldBound (cfg : Config) (policies : TaskPolicies) (t : Task) : Prop where
  assigned : t.status = .assigned → ∃ delivered lease, t.assignedAt = some delivered ∧
    t.deadlineAt = some (delivered + t.capSeconds cfg policies) ∧ t.leaseExpiresAt = some lease ∧
    lease ≤ delivered + (max (t.ackSeconds cfg policies) (t.capSeconds cfg policies) : Int)
  running : t.status = .running → ∃ started lease, t.startedAt = some started ∧
    t.deadlineAt = some (started + t.capSeconds cfg policies) ∧ t.leaseExpiresAt = some lease ∧
    lease ≤ started + t.capSeconds cfg policies

/-- The event stamps the task's `deadline_at`: it hands the task out, or
reports it started. -/
def Event.stampsDeadline (id : Uuid) (e : Event) : Bool :=
  e.starts id || e.reply.claims.any fun r => r.id = id

/-- The start report of the task, if the event is one, is handled before its
lease has run out. -/
def StartsInTime (id : Uuid) (db : Db) (e : Event) : Prop :=
  e.starts id = true → ∀ t ∈ db.tasks, t.id = id →
    ∃ lease, t.leaseExpiresAt = some lease ∧ e.now ≤ lease

/-- Of a valid table, an effective cap is positive. -/
theorem capSeconds_nonneg {policies : TaskPolicies} (hvalid : PoliciesValid policies) (t : Task) :
    0 ≤ t.capSeconds cfg policies := by
  rw [← capSeconds_eq, maxExecutionSeconds, policySeconds]
  cases hrow : policies.get? t.taskType with
  | none =>
      show 0 ≤ t.taskType.defaultMaxExecutionSeconds
      cases t.taskType <;> decide
  | some p =>
      obtain ⟨hmem, -⟩ := Table.get?_eq_some_iff.mp hrow
      cases hoverride : p.override .maxExecutionSeconds with
      | none =>
          simp only [Option.bind_some, hoverride, Option.getD_none]
          cases t.taskType <;> decide
      | some value =>
          have hlow : (1 : Int) ≤ value := (hvalid p hmem _ _ hoverride).1
          simp only [Option.bind_some, hoverride, Option.getD_some]
          omega

/-- A row that is not live has no clock to keep. -/
theorem Task.holdBound_of_not_isLive {policies : TaskPolicies} (h : t.status.isLive = false) :
    t.HoldBound cfg policies := by
  refine ⟨fun hs => ?_, fun hs => ?_⟩
  · rw [hs] at h
    cases h
  · rw [hs] at h
    cases h

/-- **One row.** Every statement keeps the two clocks where they should be. -/
theorem RowStep.holdBound {policies : TaskPolicies} (h : RowStep cfg db e t t')
    (hpolicies : db.policies = policies) (hold : t.HoldBound cfg policies) :
    t'.HoldBound cfg policies := by
  subst hpolicies
  cases h with
  | keep => exact hold
  | purge => exact ⟨hold.assigned, hold.running⟩
  -- a claim takes the acknowledgement time even where the cap is shorter
  | claim =>
      refine ⟨fun _ => ⟨e.now, _, rfl, ?_, rfl, ?_⟩, fun hs => by cases hs⟩
      · rw [Task.claim, capSeconds_eq cfg]
        rfl
      · rw [ackSeconds_eq]
        exact (add_le_add_iff_left e.now).mpr (Int.cast_le.mpr (le_max_left _ _))
  | start =>
      refine ⟨fun hs => (by cases hs), fun _ => ?_⟩
      obtain ⟨lease, hlease, hle⟩ := mark_running_lease cfg db.policies e.now t
      rw [capSeconds_eq cfg] at hle
      refine ⟨e.now, lease, rfl, ?_, hlease, hle⟩
      show some (e.now + (maxExecutionSeconds db.policies t.taskType : Seconds)) = _
      rw [capSeconds_eq cfg]
      rfl
  | fail => exact Task.holdBound_of_not_isLive rfl
  | complete => exact Task.holdBound_of_not_isLive rfl
  | cancel => exact Task.holdBound_of_not_isLive rfl
  -- `LEAST` caps a renewal at the deadline, which no renewal moves
  | renew =>
      refine ⟨fun hs => ?_, fun hs => ?_⟩
      · obtain ⟨delivered, _, hdelivered, hd, -, -⟩ := hold.assigned hs
        obtain ⟨lease, hlease, hle⟩ := renew_lease cfg e.now hd
        refine ⟨delivered, lease, hdelivered, hd, hlease, hle.trans ?_⟩
        exact (add_le_add_iff_left delivered).mpr (Int.cast_le.mpr (le_max_right _ _))
      · obtain ⟨started, _, hstarted, hd, -, -⟩ := hold.running hs
        obtain ⟨lease, hlease, hle⟩ := renew_lease cfg e.now hd
        exact ⟨started, lease, hstarted, hd, hlease, hle⟩
  | @shorten _ graceSeconds =>
      refine ⟨fun hs => ?_, fun hs => ?_⟩
      · obtain ⟨delivered, _, hdelivered, hd, hl, hle⟩ := hold.assigned hs
        obtain ⟨lease, hlease, hle'⟩ := shorten_lease e.now graceSeconds hl
        exact ⟨delivered, lease, hdelivered, hd, hlease, hle'.trans hle⟩
      · obtain ⟨started, _, hstarted, hd, hl, hle⟩ := hold.running hs
        obtain ⟨lease, hlease, hle'⟩ := shorten_lease e.now graceSeconds hl
        exact ⟨started, lease, hstarted, hd, hlease, hle'.trans hle⟩
  | reclaim =>
      refine Task.holdBound_of_not_isLive ?_
      simp only [Task.reclaim]
      split <;> rfl

/-- The clocks of every row of a run under one policy table. -/
theorem reachable_holdBound {policies : TaskPolicies}
    (h : ((queue cfg schemas).guarded (PoliciesAre policies)).Reachable db) :
    ∀ t ∈ db.tasks, t.HoldBound cfg policies := by
  refine h.invariant (P := fun db => ∀ t ∈ db.tasks, t.HoldBound cfg policies) ?_ ?_
  · rintro db ⟨htasks, -, -⟩ t ht
    rw [htasks] at ht
    exact absurd ht (Table.not_mem_empty t)
  · intro db e db' _ ih ⟨hs, hpolicies⟩ t' ht'
    rcases (step_rows hs).backward t' ht' with ⟨t, ht, hrow, -⟩ | ⟨⟨_, _, _, -, -, heq⟩, -⟩
    · exact hrow.holdBound hpolicies (ih t ht)
    · rw [heq]
      exact Task.holdBound_of_not_isLive rfl

/-! ## How often a deadline is stamped -/

/-- How many stamps an attempt has left. -/
def TaskState.stampsLeft : TaskState → ℕ
  | .queued => 2
  | .assigned => 1
  | _ => 0

/-- The same of a task, which may not be there yet. -/
def Db.stampsLeft (db : Db) (id : Uuid) : ℕ :=
  match db.tasks.get? id with
  | none => 2
  | some t => t.status.stampsLeft

theorem TaskState.stampsLeft_le_two (s : TaskState) : s.stampsLeft ≤ 2 := by
  cases s <;> decide

theorem Db.stampsLeft_le_two (db : Db) (id : Uuid) : db.stampsLeft id ≤ 2 := by
  unfold Db.stampsLeft
  split
  · exact le_rfl
  · exact TaskState.stampsLeft_le_two _

theorem Db.stampsLeft_of_mem (ht : t ∈ db.tasks) : db.stampsLeft t.id = t.status.stampsLeft := by
  simp only [Db.stampsLeft, Table.get?_of_mem ht]

/-- No statement gives a stamp back, save the one that ends the attempt. -/
theorem RowStep.stampsLeft_le (h : RowStep cfg db e t t') (hshape : t.Shape)
    (hkept : (e.label t.id).isTaken = false) : t'.status.stampsLeft ≤ t.status.stampsLeft := by
  cases h with
  | keep => exact le_rfl
  | claim _ hwhere =>
      rw [claimable_queued hwhere]
      exact one_le_two
  | start => exact Nat.zero_le _
  | fail => exact Nat.zero_le _
  | complete => exact Nat.zero_le _
  | cancel => exact Nat.zero_le _
  | renew => exact le_rfl
  | shorten => exact le_rfl
  | purge => exact le_rfl
  | reclaim _ hwhere hlabel =>
      obtain ⟨w, hw⟩ := hshape.holder (expired_holds.mp hwhere).1
      rw [hlabel, ReclaimedTask.isTaken_label hw] at hkept
      cases hkept

/-- A row that is handed out was queued. -/
theorem RowStep.queued_of_grant (h : RowStep cfg db e t t') {w : Uuid} {n : ℕ}
    (hgrant : e.label t.id = .grant w n) : t.status = .queued := by
  cases h with
  | claim _ hwhere => exact claimable_queued hwhere
  | reclaim hop hwhere hl =>
      rw [hl] at hgrant
      unfold ReclaimedTask.label at hgrant
      split at hgrant
      · cases hgrant
      · split at hgrant <;> cases hgrant
  | keep hl => rw [hl] at hgrant; cases hgrant
  | start hop hreply hid howner hstatus hl => rw [hl] at hgrant; cases hgrant
  | fail hop hreply hid howner hlive hl => rw [hl] at hgrant; cases hgrant
  | complete hop hreply hid howner hlive hattempt hl => rw [hl] at hgrant; cases hgrant
  | renew hwhere hl => rw [hl] at hgrant; cases hgrant
  | shorten hwhere hl => rw [hl] at hgrant; cases hgrant
  | cancel hop hid hstatus hl => rw [hl] at hgrant; cases hgrant
  | purge hop hwhere hl => rw [hl] at hgrant; cases hgrant

/-- **One step** spends the stamps it makes. -/
theorem step_stampsLeft (hreach : (queue cfg schemas).Reachable db)
    (hs : (queue cfg schemas).step db e db') {id : Uuid} (hkept : (e.label id).isTaken = false) :
    ([e].filter (Event.stampsDeadline id)).length + db'.stampsLeft id ≤ db.stampsLeft id := by
  -- a stamp is a claim of the task or a start of it
  have hclaimed : (e.reply.claims.any fun r => r.id = id) = true →
      ∃ w n, e.label id = .grant w n ∧ ∃ t ∈ db.tasks, t.id = id := by
    intro hany
    obtain ⟨r, hr, hid⟩ := List.any_eq_true.mp hany
    rcases step_claims hs with hnone | ⟨w, limit, maxBatch, taskTypes, skip, hop, hrows⟩
    · rw [hnone] at hr
      cases hr
    · have hlabel : e.label id = .grant w r.attemptCount :=
        label_of_claims hs ⟨⟨_, _, _, _, hop⟩, r, hr, of_decide_eq_true hid, rfl⟩
      rw [hrows] at hr
      obtain ⟨t, ht, rfl⟩ := List.mem_map.mp hr
      exact ⟨w, _, hlabel, t, (mem_claimedRows ht).1, of_decide_eq_true hid⟩
  cases hrow : db.tasks.get? id with
  | none =>
      have habsent := Table.get?_eq_none_iff.mp hrow
      have hsilent : e.stampsDeadline id = false := by
        rw [Event.stampsDeadline, Bool.or_eq_false_iff, Bool.eq_false_iff, Bool.eq_false_iff]
        constructor
        · intro hstarts
          obtain ⟨t, ht, hid, -⟩ := step_started hs hstarts
          exact habsent t ht hid
        · intro hany
          obtain ⟨_, _, -, t, ht, hid⟩ := hclaimed hany
          exact habsent t ht hid
      -- a task that is not there yet has both stamps left
      have hleft : db.stampsLeft id = 2 := by
        simp only [Db.stampsLeft, hrow]
      rw [List.filter_cons_of_neg (by simpa using hsilent), hleft]
      simpa using Db.stampsLeft_le_two db' id
  | some t =>
      obtain ⟨ht, rfl⟩ := Table.get?_eq_some_iff.mp hrow
      obtain ⟨t', ht', hstep, hid'⟩ := (step_rows hs).forward t ht
      rw [Db.stampsLeft_of_mem ht, ← hid', Db.stampsLeft_of_mem ht', hid']
      have hle := hstep.stampsLeft_le (reachable_shape hreach t ht) hkept
      cases hstamp : e.stampsDeadline t.id with
      | false =>
          rw [List.filter_cons_of_neg (by simpa using hstamp)]
          simpa using hle
      | true =>
          rw [List.filter_cons_of_pos (by simpa using hstamp)]
          rw [Event.stampsDeadline, Bool.or_eq_true] at hstamp
          rcases hstamp with hstarts | hany
          · obtain ⟨u, hu, hid, hstatus, hmarked⟩ := step_started hs hstarts
            rw [Table.eq_of_key hu ht hid] at hstatus hmarked
            rw [Table.eq_of_key ht' hmarked hid', hstatus]
            exact le_rfl
          · obtain ⟨w, n, hgrant, -⟩ := hclaimed hany
            obtain ⟨v, rfl⟩ := hstep.of_grant hgrant
            rw [hstep.queued_of_grant hgrant]
            exact le_rfl

/-- **A stretch of one attempt** makes no more stamps than were left. -/
theorem trace_stampsLeft {id : Uuid} (hreach : (queue cfg schemas).Reachable db)
    (h : (queue cfg schemas).Trace db es db') (hkept : ∀ e ∈ es, (e.label id).isTaken = false) :
    (es.filter (Event.stampsDeadline id)).length + db'.stampsLeft id ≤ db.stampsLeft id := by
  have hstep : ∀ db e db', (queue cfg schemas).Reachable db → (queue cfg schemas).step db e db' →
      (e.label id).isTaken = false →
      ([e].filter (Event.stampsDeadline id)).length + db'.stampsLeft id ≤ db.stampsLeft id :=
    fun _ _ _ hreach hs hkept => step_stampsLeft hreach hs hkept
  exact System.Trace.count_le hstep hreach (h.guarded_of_forall hkept)

/-- What does not stamp a deadline leaves it or clears it. -/
theorem RowStep.deadline_kept (h : RowStep cfg db e t t') (hstamp : e.stampsDeadline t.id = false) :
    t'.deadlineAt = t.deadlineAt ∨ t'.deadlineAt = none := by
  rw [Event.stampsDeadline, Bool.or_eq_false_iff] at hstamp
  obtain ⟨hstarts, hclaims⟩ := hstamp
  cases h with
  | keep => exact .inl rfl
  | claim _ _ hlabel =>
      obtain ⟨-, r, hr, hid, -⟩ := claims_of_label hlabel
      rw [List.any_eq_false] at hclaims
      exact absurd (by simpa using hid) (hclaims r hr)
  | start hop hreply hid =>
      simp only [Event.starts, hop, hreply, hid, Reply.done] at hstarts
      cases hstarts
  | fail => exact .inr rfl
  | complete => exact .inr rfl
  | cancel => exact .inl rfl
  | renew => exact .inl rfl
  | shorten => exact .inl rfl
  | reclaim => exact .inr rfl
  | purge => exact .inl rfl

/-! ## How far an attempt reaches -/

/-- Since the task was last taken back, every start report of it came in
time. -/
def StartedInTime (cfg : Config) (schemas : Schemas) (db₀ : Db) (es : List Event) (id : Uuid) :
    Prop :=
  ∀ as e bs mid, es = as ++ e :: bs → (∀ f ∈ bs, (f.label id).isTaken = false) →
    (queue cfg schemas).Trace db₀ as mid → StartsInTime id mid e

/-- The start of a running row, in a run whose starts came in time. -/
def StartBounded (cfg : Config) (policies : TaskPolicies) (t : Task) : Prop :=
  t.status = .running → ∃ delivered started, t.assignedAt = some delivered ∧
    t.startedAt = some started ∧
    started ≤ delivered + (max (t.ackSeconds cfg policies) (t.capSeconds cfg policies) : Int)

/-- **One row.** Only a start report moves `started_at`, and in time it is
within the lease the row had. -/
theorem RowStep.startBounded {policies : TaskPolicies} (h : RowStep cfg db e t t')
    (ht : t ∈ db.tasks) (hbound : t.HoldBound cfg policies) (htime : StartsInTime t.id db e)
    (hold : StartBounded cfg policies t) : StartBounded cfg policies t' := by
  cases h with
  | keep => exact hold
  | claim => intro hs; cases hs
  | start hop hreply hid howner hstatus =>
      intro _
      obtain ⟨delivered, lease, hdelivered, -, hlease, hle⟩ := hbound.assigned hstatus
      have hstarts : e.starts t.id = true := by
        simp only [Event.starts, hop, hreply, hid, Reply.done, decide_true, Bool.and_self]
      obtain ⟨lease', hlease', hnow⟩ := htime hstarts t ht rfl
      rw [hlease, Option.some.injEq] at hlease'
      subst hlease'
      exact ⟨delivered, e.now, hdelivered, rfl, hnow.trans hle⟩
  | fail => intro hs; cases hs
  | complete => intro hs; cases hs
  | cancel => intro hs; cases hs
  | renew => exact hold
  | shorten => exact hold
  | purge => exact hold
  | reclaim =>
      intro hs
      simp only [Task.reclaim] at hs
      split at hs <;> cases hs

/-- A row that runs was not taken back by the step that led there. -/
theorem RowStep.kept_of_running (h : RowStep cfg db e t t') (hs : t'.status = .running) :
    (e.label t.id).isTaken = false := by
  cases htaken : (e.label t.id).isTaken with
  | false => rfl
  | true =>
      obtain ⟨-, draw, rfl⟩ := h.of_taken htaken
      simp only [Task.reclaim] at hs
      split at hs <;> cases hs

/-- The starts of a run under one policy table. -/
theorem trace_startBounded {policies : TaskPolicies} {db₀ : Db}
    (hinit : (queue cfg schemas).init db₀)
    (h : ((queue cfg schemas).guarded (PoliciesAre policies)).Trace db₀ es db) :
    ∀ t ∈ db.tasks, StartedInTime cfg schemas db₀ es t.id → StartBounded cfg policies t := by
  induction h with
  | nil =>
      obtain ⟨htasks, -, -⟩ := hinit
      intro t ht
      rw [htasks] at ht
      exact absurd ht (Table.not_mem_empty t)
  | @snoc es db db' e htrace hstep ih =>
      intro t' ht' htime
      rcases (step_rows hstep.1).backward t' ht' with
        ⟨t, ht, hrow, hid⟩ | ⟨⟨_, _, _, -, -, heq⟩, -⟩
      · intro hs
        rw [hid] at htime
        -- the row runs, so this event took no attempt back and the last start stands
        have hkept := hrow.kept_of_running hs
        refine hrow.startBounded ht (reachable_holdBound ⟨_, db₀, hinit, htrace⟩ t ht) ?_ ?_ hs
        · exact htime es e [] db rfl (by simp) htrace.of_guarded
        · refine ih t ht fun as f bs mid hsplit hbs hmid => ?_
          refine htime as f (bs ++ [e]) mid (by rw [hsplit]; simp) ?_ hmid
          intro g hg
          rcases List.mem_append.mp hg with hg | hg
          · exact hbs g hg
          · rw [List.mem_singleton.mp hg]
            exact hkept
      · rw [heq]
        intro hs
        cases hs

/-- **The hold bound.** In every run of the queue under one policy table, a
live row's two clocks are measured from its delivery or its start; a stretch of
the run in which a task is not taken back stamps its deadline at most twice,
and nothing else sets one; and so, when its start reports came in time, the
lease of an attempt ends by `assigned_at + max(ack, cap) + cap`. -/
theorem hold_bound {policies : TaskPolicies} (hvalid : PoliciesValid policies) {db₀ : Db}
    (hinit : (queue cfg schemas).init db₀)
    (h : ((queue cfg schemas).guarded (PoliciesAre policies)).Trace db₀ es db) :
    (∀ t ∈ db.tasks, t.HoldBound cfg policies) ∧
    (∀ id as mid bs, es = as ++ mid ++ bs → (∀ e ∈ mid, (e.label id).isTaken = false) →
      (mid.filter (Event.stampsDeadline id)).length ≤ 2) ∧
    (∀ as e bs before after, es = as ++ e :: bs → (queue cfg schemas).Trace db₀ as before →
      (queue cfg schemas).step before e after → ∀ t ∈ before.tasks, ∀ t' ∈ after.tasks,
        t'.id = t.id → e.stampsDeadline t.id = false →
        t'.deadlineAt = t.deadlineAt ∨ t'.deadlineAt = none) ∧
    (∀ t ∈ db.tasks, t.status.isLive = true → StartedInTime cfg schemas db₀ es t.id →
      ∃ delivered lease, t.assignedAt = some delivered ∧ t.leaseExpiresAt = some lease ∧
        lease ≤ delivered +
          (max (t.ackSeconds cfg policies) (t.capSeconds cfg policies) : Int) +
          t.capSeconds cfg policies) := by
  have hbound := reachable_holdBound ⟨es, db₀, hinit, h⟩
  refine ⟨hbound, ?_, ?_, ?_⟩
  · intro id as mid bs hsplit hkept
    rw [List.append_assoc] at hsplit
    -- what the stretch stamps, it takes from the two it started with
    obtain ⟨before, hleft, hright⟩ := h.of_guarded.split as (mid ++ bs) hsplit
    obtain ⟨after, hmid, -⟩ := hright.split mid bs rfl
    have hspent := trace_stampsLeft ⟨as, db₀, hinit, hleft⟩ hmid hkept
    have hall := Db.stampsLeft_le_two before id
    omega
  · intro as e bs before after _ _ hs t ht t' ht' hid hstamp
    obtain ⟨u, hu, hrow, hkey⟩ := (step_rows hs).forward t ht
    rw [Table.eq_of_key ht' hu (hid.trans hkey.symm)]
    exact hrow.deadline_kept hstamp
  · intro t ht hlive htime
    have hcap : (0 : Seconds) ≤ t.capSeconds cfg policies :=
      Int.cast_nonneg (capSeconds_nonneg hvalid t)
    rcases TaskState.isLive_iff.mp hlive with hs | hs
    · obtain ⟨delivered, lease, hdelivered, -, hlease, hle⟩ := (hbound t ht).assigned hs
      exact ⟨delivered, lease, hdelivered, hlease, by linarith⟩
    · obtain ⟨started, lease, hstarted, -, hlease, hle⟩ := (hbound t ht).running hs
      obtain ⟨delivered, started', hdelivered, hstarted', hle'⟩ :=
        trace_startBounded hinit h t ht htime hs
      rw [hstarted, Option.some.injEq] at hstarted'
      subst hstarted'
      exact ⟨delivered, lease, hdelivered, hlease, by linarith⟩

end

/-- The task of the small deployment, started twenty seconds after it was
claimed. -/
def Demo.started : List (Seconds × Op) := Demo.claimed ++ [(21, .start Demo.task.str Demo.worker)]

/-- The start report comes ten seconds before the lease runs out. -/
theorem Demo.started_in_time : StartedInTime {} Demo.schemas .empty
    (play {} Demo.schemas .empty Demo.started).1 Demo.task := by
  intro as e bs mid hsplit _ hmid hstarts t ht _
  rcases as with _ | ⟨a, _ | ⟨b, _ | ⟨c, rest⟩⟩⟩
  · cases hsplit
    cases hstarts
  · cases hsplit
    cases hstarts
  · cases hsplit
    rw [hmid.unique (queue_deterministic {} Demo.schemas) _
      (play_trace Demo.claimed_playable)] at ht
    have hlease : ∀ t ∈ (play {} Demo.schemas .empty Demo.claimed).2.tasks.rows,
        t.leaseExpiresAt = some 31 := by
      decide +kernel
    refine ⟨31, hlease t ht, ?_⟩
    show (21 : ℚ) ≤ 31
    norm_num
  · have hlength := congrArg List.length hsplit
    simp [Demo.started, Demo.claimed, play] at hlength

/-- Its lease cannot pass `1 + 3900 + 3900`, and two stamps were made. -/
theorem hold_bound_started :
    (∃ t ∈ (play {} Demo.schemas .empty Demo.started).2.tasks, t.status = .running ∧
      ∃ delivered lease, t.assignedAt = some delivered ∧ t.leaseExpiresAt = some lease ∧
        lease ≤ delivered + (max (t.ackSeconds {} .empty) (t.capSeconds {} .empty) : Int) +
          t.capSeconds {} .empty) ∧
    ((play {} Demo.schemas .empty Demo.started).1.filter
      (Event.stampsDeadline Demo.task)).length ≤ 2 := by
  have hvalid : PoliciesValid .empty := fun p hp => absurd hp (Table.not_mem_empty p)
  have htrace : ((queue {} Demo.schemas).guarded (PoliciesAre .empty)).Trace .empty
      (play {} Demo.schemas .empty Demo.started).1 (play {} Demo.schemas .empty Demo.started).2 :=
    .cons ⟨queue_step rfl, rfl⟩ (.cons ⟨queue_step trivial, rfl⟩
      (.cons ⟨queue_step trivial, rfl⟩ .nil))
  obtain ⟨-, hstamps, -, hreach⟩ := hold_bound hvalid ⟨rfl, rfl, rfl⟩ htrace
  obtain ⟨t, ht, hid, hstatus⟩ :
      ∃ t ∈ (play {} Demo.schemas .empty Demo.started).2.tasks.rows, t.id = Demo.task ∧
        t.status = .running := by
    decide +kernel
  refine ⟨⟨t, ht, hstatus, hreach t ht (by rw [hstatus]; rfl) ?_⟩, ?_⟩
  · rw [hid]
    exact Demo.started_in_time
  · exact hstamps Demo.task [] _ [] (by simp) (by decide)

end TaskFleet.Model
