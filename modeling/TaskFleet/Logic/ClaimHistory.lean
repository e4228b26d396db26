import TaskFleet.Logic.TaskLease

/-!
# The history of claims

Who was ever given a task is in no table. `task_attempts` keeps the abnormal
endings only, and `_ever_held` reads it together with the current assignee.
`Run.everHeld_iff` says that this is exact: along any run the two agree with
the claims that were really made, for every task and every worker.

* **soundness** — an attempt row names a worker that was granted the task:
  the reclaimer and the failure path write the current holder, and a fence
  writes only who is already known to have held it;
* **completeness** — a grant that is not the current one was taken back
  (`Lease.Run.revoked_of_lt`), and taking back leaves a row (`label_recorded`).
-/

namespace TaskFleet.Model

open Py Sql

/-- The event hands attempt `n` of the task `id` to the worker `w`. -/
def Event.Claims (e : Event) (id : Uuid) (n : ℕ) (w : Uuid) : Prop :=
  (∃ limit maxBatch taskTypes skip, e.op = .dequeue w limit maxBatch taskTypes skip) ∧
  ∃ r ∈ e.reply.claims, r.id = id ∧ r.attemptCount = n

/-- Some event of the history hands attempt `n` of `id` to `w`. -/
def Claimed (es : List Event) (id : Uuid) (n : ℕ) (w : Uuid) : Prop :=
  ∃ e ∈ es, e.Claims id n w

/-- Some event of the history hands some attempt of `id` to `w`. -/
def EverAssigned (es : List Event) (id w : Uuid) : Prop := ∃ n, Claimed es id n w

section

variable {cfg : Config} {schemas : Schemas} {db db' : Db} {e : Event} {es : List Event}

theorem claims_of_label {id w : Uuid} {n : ℕ} (h : e.label id = .grant w n) : e.Claims id n w := by
  cases hop : e.op with
  | dequeue v limit maxBatch taskTypes skip =>
      simp only [Event.label, hop] at h
      split at h
      · next r hfind =>
          cases h
          exact ⟨⟨limit, maxBatch, taskTypes, skip, hop⟩, r, List.mem_of_find?_eq_some hfind,
            by simpa using List.find?_some hfind, rfl⟩
      · cases h
  | reclaim =>
      simp only [Event.label, hop] at h
      split at h
      · unfold ReclaimedTask.label at h
        split at h
        · cases h
        · split at h <;> cases h
      · cases h
  | _ =>
      simp only [Event.label, hop] at h
      first
        | cases h
        | (split at h <;> cases h)

theorem label_of_claims (hs : (queue cfg schemas).step db e db') {id w : Uuid} {n : ℕ}
    (h : e.Claims id n w) : e.label id = .grant w n := by
  obtain ⟨⟨limit, maxBatch, taskTypes, skip, hop⟩, r, hr, rfl, rfl⟩ := h
  obtain ⟨-, happly⟩ := hs
  simp only [hop, apply] at happly
  split at happly
  · next rows hok =>
      obtain ⟨-, hreply⟩ := Prod.mk.inj happly
      rw [← hreply] at hr
      obtain ⟨-, rfl⟩ := dequeue_eq_ok hok
      obtain ⟨t, ht, rfl⟩ := List.mem_map.mp hr
      have hsub : ∀ t ∈ claimedRows cfg db e.now w limit taskTypes skip, t ∈ db.tasks :=
        fun t ht => (mem_claimedRows ht).1
      show e.label t.id = .grant w t.attemptCount
      simp only [Event.label, hop, ← hreply, Reply.claims]
      rw [Table.find?_map_of_mem hsub Task.claim_claimed_id ht]
      rfl
  · obtain ⟨-, hreply⟩ := Prod.mk.inj happly
    rw [← hreply] at hr
    cases hr

/-- The grants of a task's lease are its claims. -/
theorem Run.claimed_iff (h : (queue cfg schemas).Run es db) {id w : Uuid} {n : ℕ} :
    Claimed es id n w ↔ Lease.Event.grant w n ∈ es.map (Event.label id) := by
  rw [List.mem_map]
  constructor
  · rintro ⟨e, he, hclaims⟩
    obtain ⟨s, s', -, hs⟩ := h.step_of_mem he
    exact ⟨e, he, label_of_claims hs hclaims⟩
  · rintro ⟨e, he, hlabel⟩
    exact ⟨e, he, claims_of_label hlabel⟩

/-- **Unique claim.** One attempt of one task goes to one worker. -/
theorem Run.claimed_unique (h : (queue cfg schemas).Run es db) {id v w : Uuid} {n : ℕ}
    (hv : Claimed es id n v) (hw : Claimed es id n w) : v = w :=
  Lease.Run.grant_unique (Run.lease h id) ((Run.claimed_iff h).mp hv) ((Run.claimed_iff h).mp hw)

/-- The holder of a live row was handed its current attempt. -/
theorem Run.claimed_of_live (h : (queue cfg schemas).Run es db) {t : Task} (ht : t ∈ db.tasks)
    {w : Uuid} (hlive : t.status.isLive = true) (hw : t.assignedWorkerId = some w) :
    Claimed es t.id t.attemptCount w := by
  have hlease : db.lease t.id = ⟨.held w, t.attemptCount⟩ := by
    rw [Db.lease_of_mem ht, Task.lease_live hlive hw]
  have hgrant := Lease.Run.holder_granted (Run.lease h t.id) (w := w) (by rw [hlease])
  rw [hlease] at hgrant
  exact (Run.claimed_iff h).mpr hgrant

/-- No claim is ahead of the row. -/
theorem Run.claimed_le (h : (queue cfg schemas).Run es db) {t : Task} (ht : t ∈ db.tasks) {w : Uuid}
    {n : ℕ} (hc : Claimed es t.id n w) : n ≤ t.attemptCount := by
  have hle := Lease.Run.grant_le (Run.lease h t.id) ((Run.claimed_iff h).mp hc)
  rwa [Db.lease_of_mem ht] at hle

/-- The claim of a live row's current attempt is its holder's. -/
theorem Run.holder_of_claimed (h : (queue cfg schemas).Run es db) {t : Task} (ht : t ∈ db.tasks)
    {v w : Uuid} (hlive : t.status.isLive = true) (hw : t.assignedWorkerId = some w)
    (hc : Claimed es t.id t.attemptCount v) : v = w :=
  Run.claimed_unique h hc (Run.claimed_of_live h ht hlive hw)

/-- A live row names exactly the worker its current attempt was handed to. -/
theorem Run.holder_iff (h : (queue cfg schemas).Run es db) {t : Task} (ht : t ∈ db.tasks)
    (hlive : t.status.isLive = true) (w : Uuid) :
    t.assignedWorkerId = some w ↔ Claimed es t.id t.attemptCount w := by
  refine ⟨Run.claimed_of_live h ht hlive, fun hc => ?_⟩
  obtain ⟨v, hv⟩ := (reachable_shape h.reachable t ht).holder hlive
  rw [Run.holder_of_claimed h ht hlive hv hc]
  exact hv

/-- While a task is queued its current attempt has not been handed out. -/
theorem Run.claimed_lt_of_queued (h : (queue cfg schemas).Run es db) {t : Task} (ht : t ∈ db.tasks)
    (hq : t.status = .queued) {w : Uuid} {n : ℕ} (hc : Claimed es t.id n w) :
    n < t.attemptCount := by
  have hlease : db.lease t.id = ⟨.idle, t.attemptCount⟩ := by
    rw [Db.lease_of_mem ht, Task.lease_queued hq]
  have hlt := Lease.Run.grant_lt_of_idle (Run.lease h t.id) (by rw [hlease])
    ((Run.claimed_iff h).mp hc)
  rwa [hlease] at hlt

theorem Claimed.later {id w : Uuid} {n : ℕ} (h : Claimed es id n w) :
    Claimed (es ++ [e]) id n w := by
  obtain ⟨f, hf, hc⟩ := h
  exact ⟨f, List.mem_append_left _ hf, hc⟩

theorem EverAssigned.later {id w : Uuid} (h : EverAssigned es id w) :
    EverAssigned (es ++ [e]) id w := by
  obtain ⟨n, hc⟩ := h
  exact ⟨n, hc.later⟩

/-- What the attempt table has to do with the claims that were made. -/
structure AttemptsExact (es : List Event) (db : Db) : Prop where
  /-- A row names a worker that was handed the task. -/
  sound : ∀ a ∈ db.attempts, ∀ w, a.workerId = some w → EverAssigned es a.taskId w
  /-- Taking a task back has left a row. -/
  complete : ∀ id w n, Lease.Event.revoke w n ∈ es.map (Event.label id) ∨
    Lease.Event.expire w n ∈ es.map (Event.label id) →
    ∃ a ∈ db.attempts, a.taskId = id ∧ a.workerId = some w ∧ a.attemptNumber = n

/-- Who is known to have held a task that has not ended was handed it. -/
theorem AttemptsExact.everAssigned (h : AttemptsExact es db)
    (hrun : (queue cfg schemas).Run es db) {t : Task} (ht : t ∈ db.tasks)
    (hstatus : t.status.isTerminal = false) {w : Uuid}
    (hheld : everHeld db t.id w t.assignedWorkerId = true) : EverAssigned es t.id w := by
  simp only [everHeld, Bool.or_eq_true, decide_eq_true_eq, List.any_eq_true] at hheld
  rcases hheld with hw | ⟨a, ha, htask, hw⟩
  · have hshape := reachable_shape hrun.reachable t ht
    rcases hshape.cases with hq | hlive | hterm
    · rw [(hshape.queued hq).1] at hw
      cases hw
    · exact ⟨_, Run.claimed_of_live hrun ht hlive hw⟩
    · rw [hterm] at hstatus
      cases hstatus
  · rw [← htask]
    exact h.sound a ha w hw

/-- **One step** keeps the attempt table exact. -/
theorem AttemptsExact.step (h : AttemptsExact es db) (hrun : (queue cfg schemas).Run es db)
    (hs : (queue cfg schemas).step db e db') : AttemptsExact (es ++ [e]) db' := by
  obtain ⟨new, hattempts, hnew⟩ := step_attempts hs
  refine ⟨fun a ha w hw => ?_, fun id w n htaken => ?_⟩
  · rw [hattempts] at ha
    rcases List.mem_append.mp ha with hold | hadded
    · exact (h.sound a hold w hw).later
    · cases hnew a hadded with
      | @expiry t batch skip draw ht hop hwhere =>
          exact EverAssigned.later
            ⟨_, Run.claimed_of_live hrun ht (expired_holds.mp hwhere).1 hw⟩
      | failure ht hop howner hlive htask hnumber hworker =>
          obtain rfl := Option.some.inj (hworker.symm.trans hw)
          rw [htask]
          exact EverAssigned.later ⟨_, Run.claimed_of_live hrun ht hlive howner⟩
      | fence ht hop hstatus hheld htask hnumber hworker =>
          obtain rfl := Option.some.inj (hworker.symm.trans hw)
          rw [htask]
          exact (h.everAssigned hrun ht hstatus hheld).later
  · rw [List.map_append, List.map_singleton, List.mem_append, List.mem_append,
      List.mem_singleton, List.mem_singleton] at htaken
    have hcases : (Lease.Event.revoke w n ∈ es.map (Event.label id) ∨
        Lease.Event.expire w n ∈ es.map (Event.label id)) ∨
        (e.label id = .revoke w n ∨ e.label id = .expire w n) := by
      rcases htaken with (hold | hnow) | (hold | hnow)
      · exact .inl (.inl hold)
      · exact .inr (.inl hnow.symm)
      · exact .inl (.inr hold)
      · exact .inr (.inr hnow.symm)
    rcases hcases with hold | hnow
    · obtain ⟨a, ha, hfacts⟩ := h.complete id w n hold
      exact ⟨a, by rw [hattempts]; exact List.mem_append_left _ ha, hfacts⟩
    · exact label_recorded hs hnow

theorem Run.attemptsExact (h : (queue cfg schemas).Run es db) : AttemptsExact es db := by
  refine h.invariant (I := AttemptsExact) ?_ ?_
  · rintro db ⟨-, -, hattempts⟩
    exact ⟨by simp [hattempts], by simp⟩
  · intro es db e db' hrun ih hs
    exact ih.step hrun hs

/-- **`_ever_held` is exact.** Of a task that has not ended it is true of
exactly the workers some claim of the run gave the task to. -/
theorem Run.everHeld_iff (h : (queue cfg schemas).Run es db) {t : Task} (ht : t ∈ db.tasks)
    (hstatus : t.status.isTerminal = false) (w : Uuid) :
    everHeld db t.id w t.assignedWorkerId = true ↔ EverAssigned es t.id w := by
  have hexact := Run.attemptsExact h
  constructor
  · exact hexact.everAssigned h ht hstatus
  · rintro ⟨n, hc⟩
    have hgrant := (Run.claimed_iff h).mp hc
    have htoken : (db.lease t.id).token = t.attemptCount := by
      rw [Db.lease_of_mem ht]
      rfl
    simp only [everHeld, Bool.or_eq_true, decide_eq_true_eq, List.any_eq_true]
    rcases Nat.lt_or_eq_of_le (Run.claimed_le h ht hc) with hlt | rfl
    · -- an earlier attempt: it was taken back, and that left a row
      obtain ⟨a, ha, htask, hw, -⟩ := hexact.complete t.id w n
        (Lease.Run.revoked_of_lt (Run.lease h t.id) hgrant (htoken.symm ▸ hlt))
      exact .inr ⟨a, ha, htask, hw⟩
    · -- the current attempt: the row names its holder
      rcases (reachable_shape h.reachable t ht).cases with hq | hlive | hterm
      · exact absurd (Run.claimed_lt_of_queued h ht hq hc) (Nat.lt_irrefl _)
      · obtain ⟨v, hv⟩ := (reachable_shape h.reachable t ht).holder hlive
        rw [Run.holder_of_claimed h ht hlive hv hc]
        exact .inl hv
      · rw [hterm] at hstatus
        cases hstatus

end

end TaskFleet.Model
