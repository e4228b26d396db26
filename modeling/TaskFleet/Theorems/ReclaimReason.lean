import TaskFleet.Logic.TaskCounts

/-!
# The reason of a reclaim

The row a sweep writes says which clock ran out, the lease or the execution
deadline. It is decided by where the sweep stands to the deadline, not by which of
the two columns the lease was cut from. The two agree but for a lease that ran out
before its deadline and is swept when the deadline has passed as well: after an
outage of the database, a worker that stopped answering is recorded as a slow one
(`reclaim_reason_iff`).
-/

namespace TaskFleet.Model

open Py Sql

/-- The lease that expired was the deadline itself. -/
def Task.CappedByDeadline (t : Task) : Prop :=
  ∃ lease deadline, t.leaseExpiresAt = some lease ∧ t.deadlineAt = some deadline ∧ deadline ≤ lease

/-- The lease was over before the deadline. -/
def Task.LeaseRanOut (t : Task) : Prop :=
  ∃ lease deadline, t.leaseExpiresAt = some lease ∧ t.deadlineAt = some deadline ∧ lease < deadline

/-- The reason recorded for the end of the row's attempt is the clock that ran
out. -/
structure NamesClock (t : Task) (reason : String) : Prop where
  deadline : reason = "execution_deadline_exceeded" ↔ t.CappedByDeadline
  lease : t.LeaseRanOut → reason = "lease_expired"

/-- **The condition.** The sweep does not come so late that it finds the deadline
of the row reached, when the row's lease was over before. -/
def SweptInTime (now : Seconds) (t : Task) : Prop :=
  ∀ lease deadline, t.leaseExpiresAt = some lease → t.deadlineAt = some deadline →
    lease < deadline → now < deadline

section

variable {cfg : Config} {policies : TaskPolicies} {now : Seconds} {draw : Uuid → ℚ} {t : Task}

/-- The flag of the sweep compares the deadline with its own clock. -/
theorem deadlineExceeded_iff :
    (t.reclaimed cfg policies now draw).deadlineExceeded = true ↔
      ∃ deadline, t.deadlineAt = some deadline ∧ deadline ≤ now := by
  simp only [Task.reclaimed, Tri.holds_and, isNotNull_holds, Bool.and_eq_true, rel_holds_iff,
    Option.some.injEq, decide_eq_true_eq]
  constructor
  · rintro ⟨-, deadline, _, hdeadline, rfl, hle⟩
    exact ⟨deadline, hdeadline, hle⟩
  · rintro ⟨deadline, hdeadline, hle⟩
    exact ⟨by rw [hdeadline]; rfl, deadline, now, hdeadline, rfl, hle⟩

/-- So does the reason. -/
theorem reason_eq_deadline_iff :
    ((t.reclaimed cfg policies now draw).attempt now).reason = "execution_deadline_exceeded" ↔
      ∃ deadline, t.deadlineAt = some deadline ∧ deadline ≤ now := by
  rw [← @deadlineExceeded_iff cfg policies now draw]
  simp only [ReclaimedTask.attempt]
  cases (t.reclaimed cfg policies now draw).deadlineExceeded <;> decide

/-- There is no third reason. -/
theorem reason_cases :
    ((t.reclaimed cfg policies now draw).attempt now).reason = "execution_deadline_exceeded" ∨
      ((t.reclaimed cfg policies now draw).attempt now).reason = "lease_expired" := by
  simp only [ReclaimedTask.attempt]
  split
  · exact .inl rfl
  · exact .inr rfl

/-- **One row** whose lease has expired gets the right reason exactly when it is
swept in time. -/
theorem namesClock_iff (hexpired : (expired now t).holds = true) :
    NamesClock t ((t.reclaimed cfg policies now draw).attempt now).reason ↔ SweptInTime now t := by
  obtain ⟨-, lease, hlease, hover⟩ := expired_holds.mp hexpired
  constructor
  · intro hnames lease' deadline hlease' hdeadline hbefore
    by_contra hpassed
    -- both clocks have run out, and the later one is named
    have hreason := (@reason_eq_deadline_iff cfg policies now draw t).mpr
      ⟨deadline, hdeadline, not_lt.mp hpassed⟩
    rw [hnames.lease ⟨lease', deadline, hlease', hdeadline, hbefore⟩] at hreason
    exact absurd hreason (by decide)
  · intro htime
    refine ⟨reason_eq_deadline_iff.trans ⟨?_, ?_⟩, ?_⟩
    · rintro ⟨deadline, hdeadline, hpassed⟩
      refine ⟨lease, deadline, hlease, hdeadline, not_lt.mp fun hbefore => ?_⟩
      exact not_lt.mpr hpassed (htime lease deadline hlease hdeadline hbefore)
    · rintro ⟨lease', deadline, hlease', hdeadline, hcapped⟩
      obtain rfl := Option.some.inj (hlease.symm.trans hlease')
      exact ⟨deadline, hdeadline, hcapped.trans hover.le⟩
    · rintro ⟨lease', deadline, hlease', hdeadline, hbefore⟩
      refine reason_cases.resolve_left fun hreason => ?_
      obtain ⟨deadline', hdeadline', hpassed⟩ := reason_eq_deadline_iff.mp hreason
      obtain rfl := Option.some.inj (hdeadline.symm.trans hdeadline')
      exact not_lt.mpr hpassed (htime lease' deadline hlease' hdeadline hbefore)

/-- **When the reason of a reclaim is the clock that ran out.** Of every row a
sweep takes, at any time, one attempt row is written, and its reason names the
clock that ran out if and only if the deadline had not been reached, or the lease
was not over before it. -/
theorem reclaim_reason_iff {db db' : Db} {batch : Int} {skip : List Uuid}
    {rows : List ReclaimedTask}
    (h : reclaimExpiredLeases cfg db now batch skip draw = .ok (db', rows))
    (ht : t ∈ expiredRows db now batch skip) :
    ∃ a, db'.attempts = db.attempts ++ rows.map (ReclaimedTask.attempt now) ∧
      (rows.map (ReclaimedTask.attempt now)).filter (fun b => b.taskId = t.id) = [a] ∧
      a.attemptNumber = t.attemptCount ∧ (NamesClock t a.reason ↔ SweptInTime now t) := by
  obtain ⟨rfl, rfl⟩ := reclaimExpiredLeases_eq_ok h
  have hsub : ∀ r ∈ expiredRows db now batch skip, r ∈ db.tasks := fun r hr =>
      (mem_expiredRows hr).1
  have hnodup : ((((expiredRows db now batch skip).map
      (Task.reclaimed cfg db.policies now draw)).map
      (ReclaimedTask.attempt now)).map TaskAttempt.taskId).Nodup := by
    rw [List.map_map, List.map_map]
    exact nodup_selection
  refine ⟨(t.reclaimed cfg db.policies now draw).attempt now, rfl, ?_, rfl,
    namesClock_iff (mem_expiredRows ht).2⟩
  have hkey : ∀ r : Task,
      (ReclaimedTask.attempt now (r.reclaimed cfg db.policies now draw)).taskId = r.id :=
    fun _ => rfl
  have hfind : (((expiredRows db now batch skip).map fun r =>
      ReclaimedTask.attempt now (r.reclaimed cfg db.policies now draw)).find? fun a =>
        a.taskId = t.id) =
        some (ReclaimedTask.attempt now (t.reclaimed cfg db.policies now draw)) :=
    Table.find?_map_of_mem hsub hkey ht
  rw [Table.filter_eq_toList_find? hnodup, List.map_map]
  exact congrArg Option.toList hfind

end

/-- The claimed task of the small deployment, with the sweep at 40 of a lease that
was over at 31: it is in time. -/
theorem reclaim_reason_iff_reclaimed :
    ∃ t ∈ (play {} Demo.schemas .empty Demo.claimed).2.tasks, ∃ db' rows a,
      reclaimExpiredLeases {} (play {} Demo.schemas .empty Demo.claimed).2 40 100 [] (fun _ => 0) =
        .ok (db', rows) ∧
      a ∈ db'.attempts ∧ a.attemptNumber = t.attemptCount ∧
      (NamesClock t a.reason ↔ SweptInTime 40 t) := by
  obtain ⟨t, ht⟩ : ∃ t, t ∈ expiredRows (play {} Demo.schemas .empty Demo.claimed).2 40 100 [] :=
    List.exists_mem_of_length_pos (by decide +kernel)
  obtain ⟨a, hattempts, hone, hnumber, hiff⟩ := reclaim_reason_iff rfl ht
  refine ⟨t, (mem_expiredRows ht).1, _, _, a, rfl, ?_, hnumber, hiff⟩
  rw [hattempts]
  exact List.mem_append_right _ (List.mem_filter.mp (hone ▸ List.mem_singleton_self a)).1

/-- The task is claimed at 1 and nobody is heard of again; the database is away
until 4000, which is past the deadline as well. -/
def Demo.sweptLate : List (Seconds × Op) := Demo.claimed ++ [(4000, .reclaim 100 [] fun _ => 0)]

theorem Demo.sweptLate_playable : Playable {} Demo.schemas .empty Demo.sweptLate :=
  ⟨rfl, trivial, fun _ => ⟨le_refl _, one_pos⟩, trivial⟩

/-- The lease was over at 31 and the deadline is 3901, and the attempt is recorded
as one that ran past its execution deadline. -/
theorem late_sweep_blames_deadline :
    (queue {} Demo.schemas).Reachable (play {} Demo.schemas .empty Demo.sweptLate).2 ∧
    ∃ t ∈ (play {} Demo.schemas .empty Demo.claimed).2.tasks,
      ∃ a ∈ (play {} Demo.schemas .empty Demo.sweptLate).2.attempts,
      t.leaseExpiresAt = some 31 ∧ t.deadlineAt = some 3901 ∧ a.taskId = t.id ∧
      a.reason = "execution_deadline_exceeded" ∧ ¬ NamesClock t a.reason := by
  have hrow : ∃ t ∈ (play {} Demo.schemas .empty Demo.claimed).2.tasks.rows,
      ∃ a ∈ (play {} Demo.schemas .empty Demo.sweptLate).2.attempts,
      t.leaseExpiresAt = some 31 ∧ t.deadlineAt = some 3901 ∧ a.taskId = t.id ∧
      a.reason = "execution_deadline_exceeded" := by
    decide +kernel
  obtain ⟨t, ht, a, ha, hlease, hdeadline, hid, hreason⟩ := hrow
  refine ⟨(play_run Demo.sweptLate_playable).reachable, t, ht, a, ha, hlease,
    hdeadline, hid, hreason,
    fun hnames => ?_⟩
  have hlate := hnames.lease ⟨31, 3901, hlease, hdeadline, by norm_num⟩
  rw [hreason] at hlate
  exact absurd hlate (by decide)

end TaskFleet.Model
