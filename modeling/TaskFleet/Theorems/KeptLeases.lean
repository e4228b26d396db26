import TaskFleet.Theorems.LeaseBounds
import TaskFleet.Theorems.LeaseTtl

/-!
# Renewals and the lease there is

A renewal writes `now() + TASK_LEASE_TTL_SECONDS`, up to the deadline, without
looking at the lease it replaces. So it takes time away from a lease that was
written for longer than that TTL, by a claim under a longer acknowledgement
timeout or by a start under a longer TTL of the type. With no such write every
renewal keeps the lease (`renewals_keep_iff`).
-/

namespace TaskFleet.Model

open Py Sql

/-- The task's lease is not over before `bound`. -/
def Db.LeaseAtLeast (db : Db) (id : Uuid) (bound : Seconds) : Prop :=
  ∃ t ∈ db.tasks, t.id = id ∧ ∃ lease, t.leaseExpiresAt = some lease ∧ bound ≤ lease

/-- Both renewals by `w`, at `now`, leave the row `t` a lease up to `bound`. -/
structure RenewalKeeps (cfg : Config) (db : Db) (t : Task) (w : Uuid)
    (now bound : Seconds) : Prop where
  /-- `renew_lease`. -/
  signOfLife : ∀ taskId, Uuid.parse taskId = some t.id →
    (renewLease cfg db now taskId w).1.LeaseAtLeast t.id bound
  /-- `renew_worker_leases`. -/
  hello : (renewWorkerLeases cfg db now w).1.LeaseAtLeast t.id bound

/-- Of every live row whose lease and deadline are still to come, a renewal by its
holder keeps the lease, up to the deadline, whenever it begins after the row's last
write. -/
def Db.RenewalsKeep (cfg : Config) (db : Db) : Prop :=
  ∀ t ∈ db.tasks, t.status.isLive = true → ∀ w, t.assignedWorkerId = some w →
    ∀ now lease deadline, t.updatedAt ≤ now → t.leaseExpiresAt = some lease → now ≤ lease →
      t.deadlineAt = some deadline → now < deadline →
        RenewalKeeps cfg db t w now (min lease deadline)

/-- The effective lease TTL of the row's type. -/
def Task.leaseSeconds (cfg : Config) (policies : TaskPolicies) (t : Task) : Int :=
  (effectivePolicy cfg policies t.taskType).value .leaseTtlSeconds

/-- **The condition.** What the step writes for the row `t` is within one default
TTL of the clock it was written at. -/
structure WritesWithinTtl (cfg : Config) (db : Db) (e : Event) (t : Task) : Prop where
  /-- It is handed out with an acknowledgement timeout within the TTL, or an
  execution cap within it. -/
  claim : (∃ r ∈ e.reply.claims, r.id = t.id) →
    0 ≤ t.ackSeconds cfg db.policies → 0 < t.capSeconds cfg db.policies →
      min (t.ackSeconds cfg db.policies) (t.capSeconds cfg db.policies) ≤ cfg.taskLeaseTtlSeconds
  /-- It starts under a lease TTL within the default, or an execution cap within it. -/
  start : e.starts t.id = true →
    0 ≤ t.leaseSeconds cfg db.policies → 0 < t.capSeconds cfg db.policies →
      min (t.leaseSeconds cfg db.policies) (t.capSeconds cfg db.policies) ≤ cfg.taskLeaseTtlSeconds
  /-- A disconnect whose transaction began before the row's last write leaves no
  more than the TTL. -/
  shorten : ∀ w graceSeconds, e.op = .shortenWorkerLeases w graceSeconds →
    t.assignedWorkerId = some w → t.status.isLive = true → e.now < t.updatedAt →
      ∀ lease deadline, t.leaseExpiresAt = some lease → t.deadlineAt = some deadline →
        e.now ≤ min lease (e.now + graceSeconds) → e.now < deadline →
          min (min lease (e.now + graceSeconds)) deadline ≤ e.now + cfg.taskLeaseTtlSeconds

/-- Every row's is. -/
def LeasesFitTtl (cfg : Config) (db : Db) (e : Event) : Prop :=
  ∀ t ∈ db.tasks, WritesWithinTtl cfg db e t

/-- The lease of a live row, up to its deadline, is within one TTL of its last
write, or one of the two was over at once. -/
def Task.WithinTtl (cfg : Config) (t : Task) : Prop :=
  t.status.isLive = true → ∀ lease deadline, t.leaseExpiresAt = some lease →
    t.deadlineAt = some deadline → t.updatedAt ≤ lease → t.updatedAt < deadline →
      min lease deadline ≤ t.updatedAt + cfg.taskLeaseTtlSeconds

section

variable {cfg : Config} {schemas : Schemas} {db db' : Db} {e : Event}
  {es : List Event} {t t' : Task}

/-! ## One renewal -/

/-- A renewal keeps the lease exactly when the lease is within one TTL of it. -/
theorem renew_keeps_iff {now lease deadline : Seconds} (hd : t.deadlineAt = some deadline) :
    (∃ lease', (t.renew cfg now).leaseExpiresAt = some lease' ∧ min lease deadline ≤ lease') ↔
      min lease deadline ≤ now + cfg.taskLeaseTtlSeconds := by
  have hwrites : (t.renew cfg now).leaseExpiresAt =
      some (min (now + cfg.taskLeaseTtlSeconds) deadline) := by
    rw [Task.renew, renewalTarget, hd]
    rfl
  constructor
  · intro hkeeps
    obtain ⟨lease', hlease', hle⟩ := hkeeps
    rw [hwrites, Option.some.injEq] at hlease'
    rw [← hlease'] at hle
    exact hle.trans (min_le_left _ _)
  · intro hle
    exact ⟨_, hwrites, le_min hle (min_le_right _ _)⟩

/-- The row a sign of life writes, under any spelling of the id. -/
theorem mem_renewLease {taskId : String} {w : Uuid} (ht : t ∈ db.tasks)
    (hlive : t.status.isLive = true)
    (hw : t.assignedWorkerId = some w) (hid : Uuid.parse taskId = some t.id) (now : Seconds) :
    t.renew cfg now ∈ (renewLease cfg db now taskId w).1.tasks := by
  have hrow : t.renew cfg now ∈ _ := renewLease_row ht hlive hw now
  simp only [renewLease, Uuid.parse_str] at hrow
  simp only [renewLease, hid]
  exact hrow

/-- Both renewals write the same row, so they keep the lease together. -/
theorem renewalKeeps_iff {w : Uuid} {now lease deadline : Seconds} (ht : t ∈ db.tasks)
    (hlive : t.status.isLive = true) (hw : t.assignedWorkerId = some w)
    (hd : t.deadlineAt = some deadline) :
    RenewalKeeps cfg db t w now (min lease deadline) ↔
      min lease deadline ≤ now + cfg.taskLeaseTtlSeconds := by
  rw [← renew_keeps_iff hd]
  constructor
  · intro hkeeps
    obtain ⟨t', ht', hid, hlease⟩ := hkeeps.hello
    rwa [Table.eq_of_key ht' (renewWorkerLeases_row ht hlive hw now) hid] at hlease
  · intro hlease
    refine ⟨fun taskId hid => ?_, ?_⟩
    · exact ⟨_, mem_renewLease ht hlive hw hid now, rfl, hlease⟩
    · exact ⟨_, renewWorkerLeases_row ht hlive hw now, rfl, hlease⟩

/-- The latest moment to look at is the row's last write. -/
theorem renewalsKeep_iff (hreach : (queue cfg schemas).Reachable db) :
    db.RenewalsKeep cfg ↔ ∀ t ∈ db.tasks, t.WithinTtl cfg := by
  constructor
  · intro hkeeps t ht hlive lease deadline hlease hdeadline hbefore hopen
    obtain ⟨w, hw⟩ := (reachable_shape hreach t ht).holder hlive
    exact (renewalKeeps_iff ht hlive hw hdeadline).mp
      (hkeeps t ht hlive w hw _ lease deadline le_rfl hlease hbefore hdeadline hopen)
  · intro hwithin t ht hlive w hw now lease deadline hsince hlease hbefore hdeadline hopen
    rw [renewalKeeps_iff ht hlive hw hdeadline]
    have hle := hwithin t ht hlive lease deadline hlease hdeadline (hsince.trans hbefore)
      (hsince.trans_lt hopen)
    exact hle.trans ((add_le_add_iff_right _).mpr hsince)

/-! ## The writers of a lease -/

theorem leaseSeconds_eq (cfg : Config) (policies : TaskPolicies) (t : Task) :
    policySeconds policies .leaseTtlSeconds cfg.taskLeaseTtlSeconds t.taskType =
      t.leaseSeconds cfg policies :=
  policySeconds_eq_effective cfg policies .leaseTtlSeconds t.taskType

/-- Two spans from one moment, against a third. -/
theorem spans_within_iff {now : Seconds} {a b ttl : Int} :
    (now ≤ now + (a : Seconds) → now < now + (b : Seconds) →
      min (now + (a : Seconds)) (now + (b : Seconds)) ≤ now + (ttl : Seconds)) ↔
      (0 ≤ a → 0 < b → min a b ≤ ttl) := by
  rw [min_add_add_left, add_le_add_iff_left, le_add_iff_nonneg_right, lt_add_iff_pos_right,
    ← Int.cast_min, Int.cast_le, Int.cast_nonneg_iff, Int.cast_pos]

/-- The claim writes the acknowledgement timeout and the cap. -/
theorem claim_withinTtl_iff {policies : TaskPolicies} {now : Seconds} {w : Uuid} :
    (t.claim cfg policies now w).WithinTtl cfg ↔
      (0 ≤ t.ackSeconds cfg policies → 0 < t.capSeconds cfg policies →
        min (t.ackSeconds cfg policies) (t.capSeconds cfg policies) ≤ cfg.taskLeaseTtlSeconds) := by
  rw [← @spans_within_iff now, ← ackSeconds_eq, ← capSeconds_eq cfg]
  constructor
  · intro h
    exact h rfl _ _ rfl rfl
  · intro h _ lease deadline hlease hdeadline
    cases hlease
    cases hdeadline
    exact h

/-- The start writes the TTL of the type and the cap. -/
theorem start_withinTtl_iff {policies : TaskPolicies} {now : Seconds} :
    (t.mark cfg policies now .running).WithinTtl cfg ↔
      (0 ≤ t.leaseSeconds cfg policies → 0 < t.capSeconds cfg policies →
        min (t.leaseSeconds cfg policies) (t.capSeconds cfg policies) ≤
          cfg.taskLeaseTtlSeconds) := by
  rw [← @spans_within_iff now, ← leaseSeconds_eq, ← capSeconds_eq cfg]
  constructor
  · intro h hlease hcap
    have hle := h rfl _ _ rfl rfl (le_min hlease hcap.le) hcap
    rwa [min_assoc, min_self] at hle
  · intro h _ lease deadline hlease hdeadline hbefore hopen
    cases hlease
    cases hdeadline
    rw [min_assoc, min_self]
    exact h (le_min_iff.mp hbefore).1 hopen

/-- A renewal is within the TTL by what it writes. -/
theorem renew_withinTtl (now : Seconds) : (t.renew cfg now).WithinTtl cfg := by
  intro _ lease deadline hlease hdeadline _ _
  rw [Task.renew, renewalTarget] at hlease
  have hd : t.deadlineAt = some deadline := hdeadline
  rw [hd, least_some, Option.some.injEq] at hlease
  rw [← hlease]
  exact (min_le_left _ _).trans (min_le_left _ _)

/-- A disconnect shortens, and so is within the TTL unless its clock is behind the
row's. -/
theorem shorten_withinTtl_iff {now : Seconds} {graceSeconds : Int} (hlive : t.status.isLive = true)
    (hshape : t.Shape) (hold : t.WithinTtl cfg) :
    (t.shorten now graceSeconds).WithinTtl cfg ↔
      (now < t.updatedAt → ∀ lease deadline, t.leaseExpiresAt = some lease →
        t.deadlineAt = some deadline → now ≤ min lease (now + graceSeconds) → now < deadline →
          min (min lease (now + graceSeconds)) deadline ≤ now + cfg.taskLeaseTtlSeconds) := by
  have hwrites : ∀ lease, t.leaseExpiresAt = some lease →
      (t.shorten now graceSeconds).leaseExpiresAt = some (min lease (now + graceSeconds)) := by
    intro lease hlease
    rw [Task.shorten, hlease]
    rfl
  constructor
  · intro h _ lease deadline hlease hdeadline
    exact h hlive _ deadline (hwrites lease hlease) hdeadline
  · intro h _ lease' deadline hlease' hdeadline hbefore hopen
    obtain ⟨-, -, hsome, -⟩ := hshape.live hlive
    obtain ⟨lease, hlease⟩ := Option.isSome_iff_exists.mp hsome
    rw [hwrites lease hlease, Option.some.injEq] at hlease'
    subst hlease'
    by_cases hbehind : now < t.updatedAt
    · exact h hbehind lease deadline hlease hdeadline hbefore hopen
    · -- the lease it shortens was within the TTL of an earlier moment
      have hsince : t.updatedAt ≤ now := not_lt.mp hbehind
      have hle := hold hlive lease deadline hlease hdeadline
        (hsince.trans (hbefore.trans (min_le_left _ _))) (hsince.trans_lt hopen)
      calc min (min lease (now + graceSeconds)) deadline
          ≤ min lease deadline := min_le_min_right _ (min_le_left _ _)
        _ ≤ t.updatedAt + cfg.taskLeaseTtlSeconds := hle
        _ ≤ now + cfg.taskLeaseTtlSeconds := (add_le_add_iff_right _).mpr hsince

/-! ## Runs -/

/-- A row that is not live has no lease to keep. -/
theorem Task.withinTtl_of_not_isLive (h : t.status.isLive = false) : t.WithinTtl cfg := by
  intro hlive
  rw [h] at hlive
  cases hlive

/-- A disconnect shortens what its worker holds. -/
theorem step_shortened {w : Uuid} {graceSeconds : Int} (hs : (queue cfg schemas).step db e db')
    (hop : e.op = .shortenWorkerLeases w graceSeconds) (ht : t ∈ db.tasks)
    (hheld : (heldLive w t).holds = true) : t.shorten e.now graceSeconds ∈ db'.tasks := by
  obtain ⟨-, happly⟩ := hs
  simp only [hop, apply, Prod.mk.injEq] at happly
  rw [← happly.1]
  exact (Table.mem_updateWhere Task.shorten_id).mpr ⟨t, ht, by rw [if_pos hheld]⟩

/-- **One row** under a step that meets the condition. -/
theorem RowStep.withinTtl (h : RowStep cfg db e t t') (hshape : t.Shape)
    (hguard : WritesWithinTtl cfg db e t) (hold : t.WithinTtl cfg) : t'.WithinTtl cfg := by
  cases h with
  | keep => exact hold
  | purge => exact hold
  | claim hop hwhere hlabel =>
      obtain ⟨-, r, hr, hid, -⟩ := claims_of_label hlabel
      exact claim_withinTtl_iff.mpr (hguard.claim ⟨r, hr, hid⟩)
  | start hop hreply hid =>
      exact start_withinTtl_iff.mpr (hguard.start (starts_of_start hop hreply hid))
  | renew => exact renew_withinTtl _
  | shorten hwhere hlabel hop =>
      obtain ⟨hw, hlive⟩ := heldLive_holds.mp hwhere
      exact (shorten_withinTtl_iff hlive hshape hold).mpr (hguard.shorten _ _ hop hw hlive)
  | fail => exact Task.withinTtl_of_not_isLive rfl
  | complete => exact Task.withinTtl_of_not_isLive rfl
  | cancel => exact Task.withinTtl_of_not_isLive rfl
  | reclaim =>
      refine Task.withinTtl_of_not_isLive ?_
      simp only [Task.reclaim]
      split <;> rfl

/-- **One step** keeps every lease within the TTL of its last write exactly when
what it writes is. -/
theorem step_withinTtl_iff (hreach : (queue cfg schemas).Reachable db)
    (hs : (queue cfg schemas).step db e db') (hold : ∀ t ∈ db.tasks, t.WithinTtl cfg) :
    (∀ t ∈ db'.tasks, t.WithinTtl cfg) ↔ LeasesFitTtl cfg db e := by
  constructor
  · intro hnew t ht
    refine ⟨fun hclaimed => ?_, fun hstarts => ?_, fun w graceSeconds hop hw hlive => ?_⟩
    · obtain ⟨r, hr, hid⟩ := hclaimed
      obtain ⟨t', ht', hrow, -⟩ := (step_rows hs).forward t ht
      obtain ⟨w, hlabel⟩ := label_of_mem_claims hs hr hid
      obtain ⟨v, rfl⟩ := hrow.of_grant hlabel
      exact claim_withinTtl_iff.mp (hnew _ ht')
    · obtain ⟨u, hu, hid, -, hwritten⟩ := step_started hs hstarts
      obtain rfl : u = t := Table.eq_of_key hu ht hid
      exact start_withinTtl_iff.mp (hnew _ hwritten)
    · have hwritten := step_shortened hs hop ht (heldLive_holds.mpr ⟨hw, hlive⟩)
      exact (shorten_withinTtl_iff hlive (reachable_shape hreach t ht) (hold t ht)).mp
        (hnew _ hwritten)
  · intro hguard t' ht'
    rcases (step_rows hs).backward t' ht' with ⟨t, ht, hrow, -⟩ | ⟨⟨_, _, _, -, -, heq⟩, -⟩
    · exact hrow.withinTtl (reachable_shape hreach t ht) (hguard t ht) (hold t ht)
    · rw [heq]
      exact Task.withinTtl_of_not_isLive rfl

/-- **When no renewal shortens a lease.** Along any run of the queue, under any
policies and any changes of them, in every state passed through every renewal that
begins after the last write of a live row keeps the row's lease, up to its
deadline, if and only if everything that was written for a row, by a claim, a start
or a disconnect, is within one default TTL of the clock it was written at. -/
theorem renewals_keep_iff {db₀ : Db} (hinit : (queue cfg schemas).init db₀)
    (h : (queue cfg schemas).Trace db₀ es db) :
    ((queue cfg schemas).guarded (LeasesFitTtl cfg)).Trace db₀ es db ↔
      ∀ as bs mid, es = as ++ bs → (queue cfg schemas).Trace db₀ as mid → mid.RenewalsKeep cfg := by
  have hempty : ∀ db, (queue cfg schemas).init db → db.RenewalsKeep cfg := by
    intro db hdb t ht
    rw [hdb.1] at ht
    exact absurd ht (Table.not_mem_empty t)
  refine h.guarded_iff (queue_deterministic cfg schemas) hempty ?_ hinit
  intro db e db' hreach hs hkeeps
  have hreach' : (queue cfg schemas).Reachable db' := by
    obtain ⟨past, hpast⟩ := hreach
    exact (hpast.snoc hs).reachable
  rw [renewalsKeep_iff hreach']
  exact step_withinTtl_iff hreach hs ((renewalsKeep_iff hreach).mp hkeeps)

end

/-- The run that claims one task under the shipped policies. -/
theorem renewals_keep_iff_claimed :
    ((queue {} Demo.schemas).guarded (LeasesFitTtl {})).Trace .empty
        (play {} Demo.schemas .empty Demo.claimed).1
        (play {} Demo.schemas .empty Demo.claimed).2 ↔
      ∀ as bs mid, (play {} Demo.schemas .empty Demo.claimed).1 = as ++ bs →
        (queue {} Demo.schemas).Trace .empty as mid → mid.RenewalsKeep {} :=
  renewals_keep_iff ⟨rfl, rfl, rfl⟩ (play_trace Demo.claimed_playable)

/-- The lease of two minutes that `sleep` was given at its start, until 141, is cut to
90 by the sign of life at 30. -/
theorem renewal_shortens_lease :
    (queue {} Demo.schemas).Reachable (play {} Demo.schemas .empty (Demo.longLease.take 4)).2 ∧
    ∃ t ∈ (play {} Demo.schemas .empty (Demo.longLease.take 4)).2.tasks,
      t.status = .running ∧ t.assignedWorkerId = some Demo.worker ∧ t.updatedAt = 21 ∧
      t.leaseExpiresAt = some 141 ∧ t.deadlineAt = some 3921 ∧
      (t.renew {} 30).leaseExpiresAt = some 90 ∧
      ¬ RenewalKeeps {} (play {} Demo.schemas .empty (Demo.longLease.take 4)).2 t Demo.worker 30
        (min 141 3921) := by
  have hplayable : Playable {} Demo.schemas .empty (Demo.longLease.take 4) :=
    ⟨trivial, rfl, trivial, trivial, trivial⟩
  have hrow : ∃ t ∈ (play {} Demo.schemas .empty (Demo.longLease.take 4)).2.tasks.rows,
      t.status = .running ∧ t.assignedWorkerId = some Demo.worker ∧ t.updatedAt = 21 ∧
      t.leaseExpiresAt = some 141 ∧ t.deadlineAt = some 3921 ∧
      (t.renew {} 30).leaseExpiresAt = some 90 := by
    decide +kernel
  obtain ⟨t, ht, hstatus, hw, hwritten, hlease, hdeadline, hrenewed⟩ := hrow
  refine ⟨(play_run hplayable).reachable, t, ht, hstatus, hw, hwritten, hlease, hdeadline, hrenewed,
    fun hkeeps => ?_⟩
  have hle : min (141 : Seconds) 3921 ≤ 30 + ((60 : Int) : Seconds) :=
    (renewalKeeps_iff ht (by rw [hstatus]; rfl) hw hdeadline).mp hkeeps
  norm_num at hle

end TaskFleet.Model
