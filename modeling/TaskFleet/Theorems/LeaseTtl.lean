import TaskFleet.Model.ReadLoop
import TaskFleet.Logic.RowShape
import Mathlib.Data.Rat.Cast.Order
import Mathlib.Tactic.Linarith

/-!
# One lease TTL

Three statements and one timer extend an execution lease. The start resolves
the override of the task's type; the two renewals and the timer that paces them
take the default of the process. The report gives the override. So they all use
the number the report gives exactly when the type has no override of its own,
or one that repeats the default (`one_lease_ttl`).
-/

namespace TaskFleet.Model

open Py Sql

/-- Every statement and timer that extends the lease of the row `t`, held by
`w`, reckons with this TTL. -/
structure OneLeaseTtl (cfg : Config) (db : Db) (t : Task) (w : Uuid) (ttl : Int) : Prop where
  /-- `mark_status` to `RUNNING`. -/
  start : t.status = .assigned → ∀ now : Seconds,
    ∃ t' ∈ (markStatus cfg db now t.id.str w .running).1.tasks, t'.id = t.id ∧
      t'.status = .running ∧ t'.leaseExpiresAt = least (some (now + ttl)) t'.deadlineAt
  /-- `renew_lease`. -/
  renewal : ∀ now : Seconds, ∃ t' ∈ (renewLease cfg db now t.id.str w).1.tasks, t'.id = t.id ∧
    t'.leaseExpiresAt = least (some (now + ttl)) t.deadlineAt
  /-- `renew_worker_leases`. -/
  hello : ∀ now : Seconds, ∃ t' ∈ (renewWorkerLeases cfg db now w).1.tasks, t'.id = t.id ∧
    t'.leaseExpiresAt = least (some (now + ttl)) t.deadlineAt
  /-- `_mark_renewed`, on any session. -/
  timer : ∀ (ch : Channel) (now : Seconds),
    (ch.markRenewed cfg now t.id.str).leaseRenewDue.lookup t.id.str =
      some (ch.monotonic now + ttl * cfg.taskLeaseRenewFraction)

/-- The type has no override of its lease TTL, or one that repeats the
default. -/
def LeaseTtlIsDefault (cfg : Config) (policies : TaskPolicies) (taskType : TaskType) : Prop :=
  ∀ p ∈ policies, p.taskType = taskType → ∀ ttl, p.override .leaseTtlSeconds = some ttl →
    ttl = cfg.taskLeaseTtlSeconds

section

variable {cfg : Config} {schemas : Schemas} {db : Db} {t : Task} {w : Uuid} {ttl : Int}

/-- An entry of the report is the one of its type. -/
theorem eq_effectivePolicy {policies : TaskPolicies} {entry : EffectivePolicy}
    (h : entry ∈ effectivePolicies cfg policies) :
    entry = effectivePolicy cfg policies entry.taskType := by
  obtain ⟨taskType, -, rfl⟩ := List.mem_map.mp h
  rfl

/-- The reported TTL is the default exactly when nothing else was set. -/
theorem effective_leaseTtl_iff {policies : TaskPolicies} {taskType : TaskType} :
    (effectivePolicy cfg policies taskType).value .leaseTtlSeconds = cfg.taskLeaseTtlSeconds ↔
      LeaseTtlIsDefault cfg policies taskType := by
  rw [← policySeconds_eq_effective]
  show ((policies.get? taskType).bind fun p => p.override .leaseTtlSeconds).getD
    cfg.taskLeaseTtlSeconds = cfg.taskLeaseTtlSeconds ↔ _
  constructor
  · intro h p hp htype ttl hoverride
    have hget := Table.get?_of_mem hp
    rw [htype] at hget
    rwa [hget, Option.bind_some, hoverride, Option.getD_some] at h
  · intro h
    cases hget : policies.get? taskType with
    | none => rfl
    | some p =>
        obtain ⟨hp, htype⟩ := Table.get?_eq_some_iff.mp hget
        rw [Option.bind_some]
        cases hoverride : p.override .leaseTtlSeconds with
        | none => rfl
        | some ttl => exact h p hp htype ttl hoverride

/-- What the renewal makes of the holder's live row. -/
theorem renewLease_row (ht : t ∈ db.tasks) (hlive : t.status.isLive = true)
    (hw : t.assignedWorkerId = some w) (now : Seconds) :
    t.renew cfg now ∈ (renewLease cfg db now t.id.str w).1.tasks := by
  have hheld : (heldLive w t).holds = true := heldLive_holds.mpr ⟨hw, hlive⟩
  simp only [renewLease, Uuid.parse_str, renewLeaseAt]
  rw [Table.mem_updateWhere Task.renew_id]
  refine ⟨t, ht, ?_⟩
  rw [if_pos (by simp [hheld])]

/-- The same, of the renewal after a `hello`. -/
theorem renewWorkerLeases_row (ht : t ∈ db.tasks) (hlive : t.status.isLive = true)
    (hw : t.assignedWorkerId = some w) (now : Seconds) :
    t.renew cfg now ∈ (renewWorkerLeases cfg db now w).1.tasks := by
  have hheld : (heldLive w t).holds = true := heldLive_holds.mpr ⟨hw, hlive⟩
  simp only [renewWorkerLeases]
  rw [Table.mem_updateWhere Task.renew_id]
  exact ⟨t, ht, by rw [if_pos hheld]⟩

/-- A TTL that the renewal reckons with is the default of the process: renew
early enough, and the deadline hides neither. -/
theorem OneLeaseTtl.ttl_eq (h : OneLeaseTtl cfg db t w ttl) (ht : t ∈ db.tasks)
    (hlive : t.status.isLive = true) (hw : t.assignedWorkerId = some w) {deadline : Seconds}
    (hd : t.deadlineAt = some deadline) : ttl = cfg.taskLeaseTtlSeconds := by
  let now : Seconds := deadline - max (ttl : Seconds) cfg.taskLeaseTtlSeconds
  obtain ⟨t', ht', hid, hlease⟩ := h.renewal now
  have hrow : t' = t.renew cfg now := Table.eq_of_key ht' (renewLease_row ht hlive hw now) hid
  rw [hrow, hd] at hlease
  have hwrote : least (some (now + (cfg.taskLeaseTtlSeconds : Seconds))) (some deadline) =
      least (some (now + (ttl : Seconds))) (some deadline) := by
    rw [← hlease, Task.renew, renewalTarget, hd]
  have hdefault : now + (cfg.taskLeaseTtlSeconds : Seconds) ≤ deadline := by
    have := le_max_right (ttl : Seconds) cfg.taskLeaseTtlSeconds
    show deadline - max (ttl : Seconds) cfg.taskLeaseTtlSeconds + _ ≤ deadline
    linarith
  have hreported : now + (ttl : Seconds) ≤ deadline := by
    have := le_max_left (ttl : Seconds) cfg.taskLeaseTtlSeconds
    show deadline - max (ttl : Seconds) cfg.taskLeaseTtlSeconds + _ ≤ deadline
    linarith
  rw [least_some, least_some, min_eq_left hdefault, min_eq_left hreported,
    Option.some.injEq, add_right_inj, Int.cast_inj] at hwrote
  exact hwrote.symm

/-- With the default reported, all four reckon with it. -/
theorem oneLeaseTtl_of_default (ht : t ∈ db.tasks) (hlive : t.status.isLive = true)
    (hw : t.assignedWorkerId = some w)
    (hreported : (effectivePolicy cfg db.policies t.taskType).value .leaseTtlSeconds =
      cfg.taskLeaseTtlSeconds) : OneLeaseTtl cfg db t w cfg.taskLeaseTtlSeconds := by
  refine ⟨fun hassigned now => ?_, fun now => ?_, fun now => ?_, fun ch now => ?_⟩
  · have hwrites : markStatusAt cfg db now t.id w .running = (_, .transitioned) :=
      markStatusAt_of_edge ht hw (running_mem_allowed.mpr hassigned)
    simp only [markStatus, Uuid.parse_str, hwrites]
    refine ⟨_, Db.mem_updateTask Task.mark_id ht rfl, rfl, rfl, ?_⟩
    have hresolved : policySeconds db.policies .leaseTtlSeconds cfg.taskLeaseTtlSeconds t.taskType =
        cfg.taskLeaseTtlSeconds :=
      (policySeconds_eq_effective cfg db.policies .leaseTtlSeconds t.taskType).trans hreported
    rw [Task.mark_running_leaseExpiresAt, hresolved]
  · exact ⟨_, renewLease_row ht hlive hw now, rfl, rfl⟩
  · exact ⟨_, renewWorkerLeases_row ht hlive hw now, rfl, rfl⟩
  · rw [Channel.markRenewed, Dict.lookup_set, if_pos rfl]

/-- **When there is one effective lease TTL.** In every reachable state, for
every live row and its holder, everything that extends the lease reckons with
the TTL the report gives the row's type, if and only if the type has no
override of it, or one that repeats the default. -/
theorem one_lease_ttl (hreach : (queue cfg schemas).Reachable db) (ht : t ∈ db.tasks)
    (hlive : t.status.isLive = true) (hw : t.assignedWorkerId = some w) {entry : EffectivePolicy}
    (hentry : entry ∈ effectivePolicies cfg db.policies) (htype : entry.taskType = t.taskType) :
    OneLeaseTtl cfg db t w (entry.value .leaseTtlSeconds) ↔
      LeaseTtlIsDefault cfg db.policies t.taskType := by
  rw [eq_effectivePolicy hentry, htype, ← effective_leaseTtl_iff]
  constructor
  · intro h
    obtain ⟨-, -, -, hdeadline⟩ := (reachable_shape hreach t ht).live hlive
    obtain ⟨deadline, hd⟩ := Option.isSome_iff_exists.mp hdeadline
    exact h.ttl_eq ht hlive hw hd
  · intro h
    rw [h]
    exact oneLeaseTtl_of_default ht hlive hw h

end

/-- Without overrides the claimed task has its one TTL, and it is a minute. -/
theorem one_lease_ttl_claimed : ∃ t ∈ (play {} Demo.schemas .empty Demo.claimed).2.tasks,
    OneLeaseTtl {} (play {} Demo.schemas .empty Demo.claimed).2 t Demo.worker 60 := by
  obtain ⟨t, ht, htype, hstatus, howner⟩ :
      ∃ t ∈ (play {} Demo.schemas .empty Demo.claimed).2.tasks.rows, t.taskType = .sleep ∧
        t.status = .assigned ∧ t.assignedWorkerId = some Demo.worker := by
    decide +kernel
  have hentry : effectivePolicy {} .empty .sleep ∈ effectivePolicies {} .empty := by
    rw [effectivePolicies]
    exact List.mem_map_of_mem (by decide)
  refine ⟨t, ht, (one_lease_ttl (play_run Demo.claimed_playable).reachable ht (by rw [hstatus]; rfl)
    howner hentry htype.symm).mpr ?_⟩
  exact fun p hp => absurd hp (Table.not_mem_empty p)

/-- The operator gives `sleep` a lease of two minutes; the task is claimed,
starts at 21 and shows a sign of life at 30. -/
def Demo.longLease : List (Seconds × Op) :=
  (0, .setPolicy "sleep" [(.leaseTtlSeconds, some 120)]) :: Demo.claimed ++
    [(21, .start Demo.task.str Demo.worker), (30, .renewLease Demo.task.str Demo.worker)]

theorem Demo.longLease_playable : Playable {} Demo.schemas .empty Demo.longLease :=
  ⟨trivial, rfl, trivial, trivial, trivial, trivial⟩

/-- The report says two minutes, and the sign of life has cut the lease from
141 to 90. -/
theorem renewal_ignores_override :
    (queue {} Demo.schemas).Reachable (play {} Demo.schemas .empty Demo.longLease).2 ∧
    ((effectivePolicies {} (play {} Demo.schemas .empty Demo.longLease).2.policies).map
      fun entry => (entry.taskType, entry.value .leaseTtlSeconds)).contains (.sleep, 120) = true ∧
    ((play {} Demo.schemas .empty (Demo.longLease.take 4)).2.tasks.rows.map
      fun t => (t.status, t.leaseExpiresAt)) = [(.running, some 141)] ∧
    ∃ t ∈ (play {} Demo.schemas .empty Demo.longLease).2.tasks, t.taskType = .sleep ∧
      t.status = .running ∧ t.leaseExpiresAt = some 90 ∧
      ¬ OneLeaseTtl {} (play {} Demo.schemas .empty Demo.longLease).2 t Demo.worker 120 := by
  obtain ⟨t, ht, htype, hstatus, howner, hlease, hd⟩ :
      ∃ t ∈ (play {} Demo.schemas .empty Demo.longLease).2.tasks.rows, t.taskType = .sleep ∧
        t.status = .running ∧ t.assignedWorkerId = some Demo.worker ∧
        t.leaseExpiresAt = some 90 ∧ t.deadlineAt = some 3921 := by
    decide +kernel
  refine ⟨(play_run Demo.longLease_playable).reachable, by decide +kernel, by decide +kernel,
    t, ht, htype, hstatus, hlease, fun h => ?_⟩
  have hsame := h.ttl_eq ht (by rw [hstatus]; rfl) howner hd
  revert hsame
  decide

end TaskFleet.Model
