import TaskFleet.Model.Reclaimer
import TaskFleet.Theorems.StatusTotals

/-!
# The recovery engine

A drain is what the reclaimer does between two ticks: sweep after sweep, whatever the other
replicas commit in between. A sweep takes the oldest leases first and stops short only when
nothing overdue is left (`swept_done`), so a drain stops only on a clear backlog; and since
every full sweep is paid for by a row that was live when the drain began or was handed out
since, it does stop (`drain_recovers`). What a replica took back it has counted once and told
the loser once, or is about to (`recovery_accounts`).
-/

namespace TaskFleet.Model

open Py Sql Reclaimer

/-- The sweep lowered the count of overdue leases by what it took. It left nothing overdue that
nobody else has locked, unless it was full, and then nothing older than what it took. -/
structure SweepDone (cfg : Config) (now : Seconds) (skip : List Uuid) (rows : List ReclaimedTask)
    (db db' : Db) : Prop where
  gauge : expiredLeaseCount db' now + rows.length = expiredLeaseCount db now
  oldest : ∀ t ∈ db'.tasks, (expired now t).holds = true → t.id ∉ skip →
    (rows.length : Int) = cfg.leaseReclaimBatch ∧
      ∀ r ∈ rows, ∃ lost lease, r.expiredAt = some lost ∧ t.leaseExpiresAt = some lease ∧
        lost ≤ lease

/-- The sweeps that the events made, by the rows each took back. -/
def passesIn (cfg : Config) (schemas : Schemas) (s : Reclaimer) (es : List ReclaimerEvent) :
    List (List ReclaimedTask) :=
  System.observed (Reclaimer.next cfg schemas) (Reclaimer.pass cfg) s es

/-- The transactions that the events committed. -/
def committedIn (cfg : Config) (schemas : Schemas) (s : Reclaimer) (es : List ReclaimerEvent) :
    List Event :=
  System.observed (Reclaimer.next cfg schemas) (Reclaimer.committed cfg schemas) s es

/-- What the loop, where it stands, is about to find of its last sweep. -/
def LastPass (cfg : Config) (es : List ReclaimerEvent) (last : Option (List ReclaimedTask)) :
    ReclaimPc → Prop
  | .sleeping => .raised ∉ es → ∀ rows ∈ last, (rows.length : Int) < cfg.leaseReclaimBatch
  | .sweeping | .yielding => ∀ rows ∈ last, (rows.length : Int) = cfg.leaseReclaimBatch
  | .cancelling _ reclaimed | .ringing reclaimed => ∀ rows ∈ last, rows = reclaimed
  | .cancelled => True

/-- What a drain made so far: every sweep was full, but perhaps the last. -/
structure Drain (cfg : Config) (es : List ReclaimerEvent) (passes : List (List ReclaimedTask))
    (s : Reclaimer) : Prop where
  bounded : ∀ rows ∈ passes, 1 ≤ cfg.leaseReclaimBatch ∧
    (rows.length : Int) ≤ cfg.leaseReclaimBatch
  full : ∀ rows ∈ passes.dropLast, (rows.length : Int) = cfg.leaseReclaimBatch
  last : LastPass cfg es passes.getLast? s.pc

/-- The cancel for a row. -/
def ReclaimedTask.cancels (r : ReclaimedTask) : List PushedCancel :=
  (r.previousWorkerId.map fun w => ⟨w, r.id, r.correlationId⟩).toList

/-- The rows of a pass that are still to be counted. -/
def Reclaimer.uncounted (s : Reclaimer) : List ReclaimedTask :=
  match s.pc with
  | .cancelling rest _ => rest
  | _ => []

/-- Of the rows `taken` a replica has counted `counted`, and told the losers of them. -/
structure Accounts (counted : List ReclaimedTask) (s : Reclaimer) : Prop where
  expired : s.leasesExpired = counted.length
  exhausted : s.tasksExhausted = (counted.filter fun r => r.status = .failed).length
  reassigned : s.tasksReassigned = (counted.filter fun r => r.status ≠ .failed).length
  told : s.cancels = counted.flatMap ReclaimedTask.cancels

section

variable {cfg : Config} {schemas : Schemas} {db db' : Db} {now : Seconds} {batch : Int}
  {skip : List Uuid} {s s' : Reclaimer} {e : ReclaimerEvent} {es : List ReclaimerEvent}

/-! ## One sweep -/

/-- What a batch leaves out was not in time for it. -/
theorem not_mem_expiredRows {t : Task} (ht : t ∈ db.tasks) (hexpired : (expired now t).holds = true)
    (hskip : t.id ∉ skip) (hout : t ∉ expiredRows db now batch skip) :
    (expiredRows db now batch skip).length = batch.toNat ∧
      ∀ u ∈ expiredRows db now batch skip, leaseOrder u t := by
  have htotal : Std.Total leaseOrder := ⟨fun a b => le_total _ _⟩
  have htrans : IsTrans Task leaseOrder := ⟨fun a b c hab hbc => le_trans hab hbc⟩
  have hsorted := List.pairwise_insertionSort leaseOrder
    (db.tasks.rows.filter fun t => (expired now t).holds && !skip.contains t.id)
  have hin : t ∈ (db.tasks.rows.filter fun t =>
      (expired now t).holds && !skip.contains t.id).insertionSort leaseOrder := by
    rw [List.mem_insertionSort, List.mem_filter, Bool.and_eq_true, hexpired]
    exact ⟨ht, rfl, by simpa using hskip⟩
  unfold expiredRows at hout ⊢
  rw [← List.take_append_drop batch.toNat (List.insertionSort _ _)] at hsorted hin
  have hrest := (List.mem_append.mp hin).resolve_left hout
  refine ⟨?_, fun u hu => (List.pairwise_append.mp hsorted).2.2 u hu t hrest⟩
  rw [List.length_take, min_eq_left]
  have hpos := List.length_pos_of_mem hrest
  rw [List.length_drop] at hpos
  omega

/-- A sweep is within its batch. -/
theorem expiredRows_length_le (db : Db) (now : Seconds) (batch : Int) (skip : List Uuid) :
    (expiredRows db now batch skip).length ≤ batch.toNat := by
  rw [expiredRows, List.length_take]
  exact min_le_left _ _

/-- A row that was taken back is not live any more. -/
theorem not_expired_reclaim (t : Task) (policies : TaskPolicies) (draw : Uuid → ℚ) :
    (expired now (t.reclaim cfg policies now draw)).holds = false := by
  rw [Bool.eq_false_iff]
  intro hexpired
  have hlive := (expired_holds.mp hexpired).1
  simp only [Task.reclaim] at hlive
  split at hlive <;> cases hlive

/-- **One sweep** takes the oldest leases first, and short of its batch it takes them all. -/
theorem swept_done {draw : Uuid → ℚ} {rows : List ReclaimedTask}
    (h : reclaimExpiredLeases cfg db now cfg.leaseReclaimBatch skip draw = .ok (db', rows)) :
    SweepDone cfg now skip rows db db' := by
  have hbatch : 1 ≤ cfg.leaseReclaimBatch := by
    by_contra hlt
    rw [reclaimExpiredLeases, if_pos (by omega)] at h
    cases h
  obtain ⟨rfl, rfl⟩ := reclaimExpiredLeases_eq_ok h
  have hin : ∀ t ∈ db.tasks, t.id ∈ (expiredRows db now cfg.leaseReclaimBatch skip).map Task.id ↔
      t ∈ expiredRows db now cfg.leaseReclaimBatch skip :=
    fun t ht => Table.key_mem_map_iff (fun u hu => (mem_expiredRows hu).1) ht
  refine ⟨?_, fun t' ht' hexpired hskip => ?_⟩
  · have hcount := Table.length_filter_updateWhere (t := db.tasks)
      (p := fun t => (expired now t).holds)
      (q := fun t => t.id ∈ (expiredRows db now cfg.leaseReclaimBatch skip).map Task.id)
      (Task.reclaim cfg db.policies now draw) Task.reclaim_id ?_ ?_
    · rw [Table.length_filter_contains (fun t ht => (mem_expiredRows ht).1)
        nodup_selection] at hcount
      rw [List.length_map]
      exact hcount
    · intro t ht hq
      exact (mem_expiredRows ((hin t ht).mp (of_decide_eq_true hq))).2
    · exact fun t _ _ => not_expired_reclaim t db.policies draw
  obtain ⟨t, ht, heq⟩ := (Table.mem_updateWhere Task.reclaim_id).mp ht'
  by_cases htaken : t ∈ expiredRows db now cfg.leaseReclaimBatch skip
  · rw [if_pos (decide_eq_true ((hin t ht).mpr htaken))] at heq
    rw [heq, not_expired_reclaim] at hexpired
    cases hexpired
  · rw [if_neg (by simpa using mt (hin t ht).mp htaken)] at heq
    subst heq
    obtain ⟨hlength, horder⟩ := not_mem_expiredRows ht hexpired hskip htaken
    rw [List.length_map, hlength]
    refine ⟨by omega, fun r hr => ?_⟩
    obtain ⟨u, hu, rfl⟩ := List.mem_map.mp hr
    obtain ⟨-, lost, hlost, -⟩ := expired_holds.mp (mem_expiredRows hu).2
    obtain ⟨-, lease, hlease, -⟩ := expired_holds.mp hexpired
    have hle := horder u hu
    rw [leaseOrder, hlost, hlease] at hle
    exact ⟨lost, lease, hlost, hlease, hle⟩

/-! ## The transactions of a replica -/

@[simp] theorem Reclaimer.count_db (s : Reclaimer) (r : ReclaimedTask) :
    (s.count r).db = s.db := rfl

@[simp] theorem Reclaimer.afterPass_db (s : Reclaimer) (reclaimed : List ReclaimedTask) :
    (s.afterPass cfg reclaimed).db = s.db := rfl

@[simp] theorem Reclaimer.nextRow_db (s : Reclaimer) (reclaimed rows : List ReclaimedTask) :
    (s.nextRow cfg reclaimed rows).db = s.db := by
  induction rows generalizing s with
  | nil =>
      simp only [Reclaimer.nextRow]
      split <;> rfl
  | cons r rest ih =>
      simp only [Reclaimer.nextRow]
      split
      · rw [ih, Reclaimer.count_db]
      · rfl

theorem Reclaimer.nextRow_retryWakes (s : Reclaimer) (reclaimed rows : List ReclaimedTask) :
    (s.nextRow cfg reclaimed rows).retryWakes = s.retryWakes := by
  induction rows generalizing s with
  | nil =>
      simp only [Reclaimer.nextRow]
      split <;> rfl
  | cons r rest ih =>
      simp only [Reclaimer.nextRow]
      split
      · exact ih (s.count r)
      · rfl

@[simp] theorem Reclaimer.scheduleRetryWake_db (s : Reclaimer) (clock : Seconds)
    (reclaimed : List ReclaimedTask) : (s.scheduleRetryWake clock reclaimed).db = s.db := by
  unfold Reclaimer.scheduleRetryWake
  split
  · rfl
  · split <;> rfl

theorem step_next {s s' : Reclaimer} {e : ReclaimerEvent}
    (h : (reclaimer cfg schemas).step s e s') :
    s.next cfg schemas e = some s' := h.2

theorem step_move {s s' : Reclaimer} {e : ReclaimerEvent}
    (h : (reclaimer cfg schemas).step s e s') : ReclaimerMove cfg schemas s e s' :=
  Reclaimer.next_move h.2

/-- A sweep is a transaction of the queue. -/
theorem queue_step_swept {draw : Uuid → ℚ} (hdraw : ∀ id, 0 ≤ draw id ∧ draw id < 1)
    {rows : List ReclaimedTask}
    (h : reclaimExpiredLeases cfg db now batch skip draw = .ok (db', rows)) :
    (queue cfg schemas).step db
      ⟨now, .reclaim batch skip draw, (apply cfg schemas db now (.reclaim batch skip draw)).2⟩
      db' := by
  have hstep := @queue_step cfg schemas db now (.reclaim batch skip draw) hdraw
  have hdb : (apply cfg schemas db now (.reclaim batch skip draw)).1 = db' := by
    simp only [apply, h]
  rwa [hdb] at hstep

/-- A sweep that is refused is one that leaves the queue alone. -/
theorem queue_step_refused {draw : Uuid → ℚ} (hdraw : ∀ id, 0 ≤ draw id ∧ draw id < 1)
    {err : QueueLimitExceeded}
    (h : reclaimExpiredLeases cfg db now batch skip draw = .error err) :
    (queue cfg schemas).step db
      ⟨now, .reclaim batch skip draw, (apply cfg schemas db now (.reclaim batch skip draw)).2⟩
      db := by
  have hstep := @queue_step cfg schemas db now (.reclaim batch skip draw) hdraw
  have hdb : (apply cfg schemas db now (.reclaim batch skip draw)).1 = db := by
    simp only [apply, h]
  rwa [hdb] at hstep

/-- **One step** of a replica is a transaction of the queue, or none. -/
theorem step_committed (h : (reclaimer cfg schemas).step s e s') :
    (queue cfg schemas).Trace s.db (s.committed cfg schemas e).toList s'.db := by
  have hallowed := h.1
  cases step_move h with
  | refused _ hres => exact .single (queue_step_refused hallowed hres)
  | swept _ hres =>
      rw [Reclaimer.nextRow_db]
      exact .single (queue_step_swept hallowed hres)
  | transaction => exact .single (queue_step hallowed)
  | told =>
      rw [Reclaimer.nextRow_db]
      exact .nil
  | rang =>
      rw [Reclaimer.afterPass_db, Reclaimer.scheduleRetryWake_db]
      exact .nil
  | tick | raised | resumed | cancel | wake => exact .nil

/-- So a stretch of a replica is a stretch of the queue. -/
theorem trace_committed (h : (reclaimer cfg schemas).Trace s es s') :
    (queue cfg schemas).Trace s.db (committedIn cfg schemas s es) s'.db := by
  induction h with
  | nil => exact .nil
  | snoc htrace hstep ih =>
      rw [committedIn, htrace.observed_snoc step_next hstep]
      exact ih.append (step_committed hstep)

theorem passesIn_snoc (h : (reclaimer cfg schemas).Trace s es s') {t : Reclaimer}
    (hstep : (reclaimer cfg schemas).step s' e t) :
    passesIn cfg schemas s (es ++ [e]) = passesIn cfg schemas s es ++ (s'.pass cfg e).toList :=
  h.observed_snoc step_next hstep

/-- A replica works on a queue that somebody started. -/
theorem reachable_db (h : (reclaimer cfg schemas).Reachable s) :
    (queue cfg schemas).Reachable s.db := by
  obtain ⟨es, s₀, ⟨db, hdb, rfl⟩, htrace⟩ := h
  obtain ⟨past, hpast⟩ := hdb
  exact (hpast.extend (trace_committed htrace)).reachable

/-- The rows of a sweep are those of its transaction. -/
theorem pass_committed (schemas : Schemas) {rows : List ReclaimedTask}
    (h : s.pass cfg e = some rows) :
    ∃ event, s.committed cfg schemas e = some event ∧ event.reply.reclaims = rows := by
  cases e with
  | swept now skip draw =>
      refine ⟨_, rfl, ?_⟩
      simp only [Reclaimer.pass] at h
      split at h
      · cases h
      · next hres =>
          obtain rfl := Option.some.inj h
          simp only [apply, hres]
          rfl
  | _ => cases h

/-- A sweep is refused, or within its batch. -/
theorem pass_bounded {rows : List ReclaimedTask} (h : s.pass cfg e = some rows) :
    1 ≤ cfg.leaseReclaimBatch ∧ (rows.length : Int) ≤ cfg.leaseReclaimBatch := by
  cases e with
  | swept now skip draw =>
      simp only [Reclaimer.pass] at h
      split at h
      · cases h
      · next reclaimed hres =>
          obtain rfl := Option.some.inj h
          have hbatch : 1 ≤ cfg.leaseReclaimBatch := by
            by_contra hlt
            rw [reclaimExpiredLeases, if_pos (by omega)] at hres
            cases hres
          rw [(reclaimExpiredLeases_eq_ok hres).2, List.length_map]
          have hle := expiredRows_length_le s.db now cfg.leaseReclaimBatch skip
          omega
  | _ => cases h

/-- What a replica took back was taken back. -/
theorem passes_sublist (h : (reclaimer cfg schemas).Trace s es s') :
    (passesIn cfg schemas s es).flatten.Sublist (takenBack (committedIn cfg schemas s es)) := by
  induction h with
  | nil => exact List.Sublist.refl _
  | @snoc es t u e htrace hstep ih =>
      rw [passesIn_snoc htrace hstep, committedIn, htrace.observed_snoc step_next hstep,
        List.flatten_append, takenBack, List.flatMap_append]
      refine ih.append ?_
      cases hpass : t.pass cfg e with
      | none => exact List.nil_sublist _
      | some rows =>
          obtain ⟨event, hevent, hrows⟩ := pass_committed schemas hpass
          rw [hevent, Option.toList_some, Option.toList_some, List.flatten_singleton,
            List.flatMap_singleton, hrows]

/-! ## A drain -/

/-- Where the loop goes on to from a row. -/
theorem nextRow_pc (cfg : Config) (s : Reclaimer) (reclaimed rows : List ReclaimedTask) :
    (∃ rest, (s.nextRow cfg reclaimed rows).pc = .cancelling rest reclaimed) ∨
    (s.nextRow cfg reclaimed rows).pc = .ringing reclaimed ∨
    (s.nextRow cfg reclaimed rows).pc = (s.afterPass cfg reclaimed).pc := by
  induction rows generalizing s with
  | nil =>
      simp only [Reclaimer.nextRow]
      split
      · exact .inr (.inr rfl)
      · exact .inr (.inl rfl)
  | cons r rest ih =>
      simp only [Reclaimer.nextRow]
      split
      · exact ih (s.count r)
      · exact .inl ⟨rest, rfl⟩

theorem lastPass_afterPass {reclaimed : List ReclaimedTask} {last : Option (List ReclaimedTask)}
    (hlast : ∀ rows ∈ last, rows = reclaimed)
    (hbounded : ∀ rows ∈ last, (rows.length : Int) ≤ cfg.leaseReclaimBatch) :
    LastPass cfg es last (s.afterPass cfg reclaimed).pc := by
  unfold Reclaimer.afterPass
  by_cases hfull : cfg.leaseReclaimBatch ≤ reclaimed.length
  · simp only [if_pos hfull]
    intro rows hrows
    obtain rfl := hlast rows hrows
    exact le_antisymm (hbounded _ hrows) hfull
  · simp only [if_neg hfull]
    intro _ rows hrows
    obtain rfl := hlast rows hrows
    exact not_le.mp hfull

theorem lastPass_nextRow {reclaimed rest : List ReclaimedTask} {last : Option (List ReclaimedTask)}
    (hlast : ∀ rows ∈ last, rows = reclaimed)
    (hbounded : ∀ rows ∈ last, (rows.length : Int) ≤ cfg.leaseReclaimBatch) :
    LastPass cfg es last (s.nextRow cfg reclaimed rest).pc := by
  rcases nextRow_pc cfg s reclaimed rest with ⟨left, hpc⟩ | hpc | hpc
  · rw [hpc]
    exact hlast
  · rw [hpc]
    exact hlast
  · rw [hpc]
    exact lastPass_afterPass hlast hbounded

/-- What does not move the loop changes nothing. -/
theorem LastPass.mono {last : Option (List ReclaimedTask)} {pc : ReclaimPc}
    (h : LastPass cfg es last pc) : LastPass cfg (es ++ [e]) last pc := by
  cases pc with
  | sleeping => exact fun hquiet => h fun hmem => hquiet (List.mem_append_left _ hmem)
  | _ => exact h

theorem mem_dropLast_or_getLast? {α : Type} {l : List α} {x : α} (h : x ∈ l) :
    x ∈ l.dropLast ∨ x ∈ l.getLast? := by
  rcases List.eq_nil_or_concat l with rfl | ⟨init, last, rfl⟩
  · exact absurd h List.not_mem_nil
  · rw [List.concat_eq_append, List.dropLast_concat, List.getLast?_concat]
    rw [List.concat_eq_append] at h
    exact (List.mem_append.mp h).imp_right fun hx => by rw [List.mem_singleton.mp hx]; rfl

/-- **One step** of a drain. -/
theorem Drain.step {passes : List (List ReclaimedTask)} (h : Drain cfg es passes s)
    (hstep : (reclaimer cfg schemas).step s e s') (htick : e ≠ .tick) :
    Drain cfg (es ++ [e]) (passes ++ (s.pass cfg e).toList) s' := by
  obtain ⟨hbounded, hfull, hlast⟩ := h
  have hboundedLast : ∀ rows ∈ passes.getLast?, (rows.length : Int) ≤ cfg.leaseReclaimBatch :=
    fun rows hrows => (hbounded rows (List.mem_of_getLast? hrows)).2
  -- an event that is no sweep leaves the list of sweeps alone
  have hquiet : s.pass cfg e = none → LastPass cfg (es ++ [e]) passes.getLast? s'.pc →
      Drain cfg (es ++ [e]) (passes ++ (s.pass cfg e).toList) s' := by
    intro hpass hlast'
    rw [hpass, Option.toList_none, List.append_nil]
    exact ⟨hbounded, hfull, hlast'⟩
  cases step_move hstep with
  | tick => exact absurd rfl htick
  | refused hpc hres =>
      refine hquiet (by simp only [Reclaimer.pass, hres]) fun _ rows hrows => ?_
      -- a batch that is refused was refused before
      obtain ⟨hbatch, -⟩ := hbounded rows (List.mem_of_getLast? hrows)
      rw [reclaimExpiredLeases, if_neg (by omega)] at hres
      cases hres
  | @swept now skip draw db reclaimed hpc hres =>
      have hpass : s.pass cfg (.swept now skip draw) = some reclaimed := by
        simp only [Reclaimer.pass, hres]
      rw [hpc] at hlast
      rw [hpass, Option.toList_some]
      refine ⟨?_, ?_, ?_⟩
      · intro rows hrows
        rcases List.mem_append.mp hrows with hold | hnew
        · exact hbounded rows hold
        · rw [List.mem_singleton.mp hnew]
          exact pass_bounded hpass
      · rw [List.dropLast_concat]
        intro rows hrows
        rcases mem_dropLast_or_getLast? hrows with hold | hnew
        · exact hfull rows hold
        · exact hlast rows hnew
      · rw [List.getLast?_concat]
        refine lastPass_nextRow (fun rows hrows => (Option.mem_some.mp hrows).symm)
          fun rows hrows => ?_
        obtain rfl := Option.mem_some.mp hrows
        exact (pass_bounded hpass).2
  | raised => exact hquiet rfl fun hraised => absurd (by simp) hraised
  | told hpc =>
      rw [hpc] at hlast
      exact hquiet rfl (lastPass_nextRow hlast hboundedLast)
  | rang hpc =>
      rw [hpc] at hlast
      exact hquiet rfl (lastPass_afterPass hlast hboundedLast)
  | resumed hpc =>
      rw [hpc] at hlast
      exact hquiet rfl hlast
  | cancel => exact hquiet rfl trivial
  | wake | transaction => exact hquiet rfl hlast.mono

/-- **A drain**, from wherever the loop stood. -/
theorem trace_drain (h : (reclaimer cfg schemas).Trace s es s') (htick : .tick ∉ es) :
    Drain cfg es (passesIn cfg schemas s es) s' := by
  induction h with
  | nil =>
      refine ⟨fun rows hrows => absurd hrows List.not_mem_nil,
        fun rows hrows => absurd hrows List.not_mem_nil, ?_⟩
      cases hpc : s.pc <;> simp [passesIn, System.observed, LastPass]
  | @snoc es t u e htrace hstep ih =>
      rw [passesIn_snoc htrace hstep]
      refine (ih fun hmem => htick (List.mem_append_left _ hmem)).step hstep ?_
      rintro rfl
      exact htick (by simp)

/-- A row that was taken back was put back, or failed with its last attempt. -/
theorem takenBack_length {db db' : Db} {events : List Event}
    (h : (queue cfg schemas).Trace db events db') : (takenBack events).length =
      (requeuedIn events).length + (endingsBy .exhaustion events).length := by
  induction h with
  | nil => rfl
  | @snoc events mid db' event _ hstep ih =>
      have hone : event.reply.reclaims.length = event.reply.requeued.length +
          (event.ended.filter fun x => x.cause = .exhaustion).length := by
        rcases step_reclaims hstep with hnone | ⟨batch, skip, draw, hop, -⟩
        · rw [Reply.requeued, hnone]
          cases hop : event.op with
          | reclaim => simp [Event.ended, hop, hnone]
          | complete | fail | cancel =>
              simp only [Event.ended, hop]
              split
              · cases Uuid.parse _ <;> simp
              · rfl
          | _ => simp [Event.ended, hop]
        · simp only [Reply.requeued, Event.ended, hop, List.filter_map, List.length_map,
            Function.comp_def, decide_true, List.filter_true]
          generalize event.reply.reclaims = rows
          induction rows with
          | nil => rfl
          | cons r rows ih =>
              by_cases hfailed : r.status = .failed <;> simp [hfailed] at ih ⊢ <;> omega
      simp only [takenBack, requeuedIn, endingsBy, endedIn, List.flatMap_append, List.filter_append,
        List.length_append, List.flatMap_singleton] at ih ⊢
      omega

/-- Nothing is taken back that was not live at the start, or handed out since. -/
theorem takenBack_le {db db' : Db} {events : List Event} (hreach : (queue cfg schemas).Reachable db)
    (h : (queue cfg schemas).Trace db events db') : (takenBack events).length ≤
      statusCount db .assigned + statusCount db .running + (handed events).length := by
  obtain ⟨past, hpast⟩ := hreach
  have hbefore := (Run.balance_sum hpast).2
  have hafter := (Run.balance_sum (hpast.extend h)).2
  have htaken := takenBack_length h
  simp only [handed, requeuedIn, endingsBy, endedIn, List.flatMap_append, List.filter_append,
    List.length_append] at hbefore hafter htaken ⊢
  omega

/-- Full sweeps, added up. -/
theorem length_flatten_of_full {passes : List (List ReclaimedTask)} {n : ℕ}
    (h : ∀ rows ∈ passes.dropLast, rows.length = n) :
    (passes.length - 1) * n ≤ passes.flatten.length := by
  rcases List.eq_nil_or_concat passes with rfl | ⟨init, last, rfl⟩
  · simp
  · rw [List.concat_eq_append] at h ⊢
    rw [List.dropLast_concat] at h
    rw [List.length_append, List.length_singleton, Nat.add_sub_cancel, List.flatten_append,
      List.length_append, List.length_flatten]
    have hsum : (init.map List.length).sum = init.length * n := by
      rw [List.map_congr_left h, List.map_const', List.sum_replicate, Nat.nsmul_eq_mul]
    omega

/-- **Recovery is complete.** Take any stretch of a replica's reclaimer without a tick, with any
transactions of the other replicas in between. Every sweep takes the oldest leases first, and
leaves nothing overdue that nobody has locked unless it is full; every sweep but the last is
full; if the loop is asleep at the end, and no sweep raised, the last was not, so the backlog
is clear; and there are at most as many sweeps, times the batch, as there were live rows at the
start and tasks handed out since, and one more. -/
theorem drain_recovers (hreach : (reclaimer cfg schemas).Reachable s)
    (h : (reclaimer cfg schemas).Trace s es s') (htick : .tick ∉ es) :
    let passes := passesIn cfg schemas s es
    (∀ as bs now skip draw u u' rows, es = as ++ .swept now skip draw :: bs →
      (reclaimer cfg schemas).Trace s as u →
      (reclaimer cfg schemas).step u (.swept now skip draw) u' →
      u.pass cfg (.swept now skip draw) = some rows → SweepDone cfg now skip rows u.db u'.db) ∧
    (∀ rows ∈ passes.dropLast, (rows.length : Int) = cfg.leaseReclaimBatch) ∧
    (s'.pc = .sleeping → .raised ∉ es →
      ∀ rows ∈ passes.getLast?, (rows.length : Int) < cfg.leaseReclaimBatch) ∧
    (passes.length - 1) * cfg.leaseReclaimBatch.toNat ≤ statusCount s.db .assigned +
      statusCount s.db .running + (handed (committedIn cfg schemas s es)).length := by
  have hdrain := trace_drain h htick
  refine ⟨?_, hdrain.full, ?_, ?_⟩
  · intro as bs now skip draw u u' rows _ _ hstep hpass
    cases step_move hstep with
    | refused _ hres =>
        simp only [Reclaimer.pass, hres] at hpass
        cases hpass
    | swept _ hres =>
        simp only [Reclaimer.pass, hres] at hpass
        obtain rfl := Option.some.inj hpass
        rw [Reclaimer.nextRow_db]
        exact swept_done hres
  · intro hpc hraised
    have hlast := hdrain.last
    rw [hpc] at hlast
    exact hlast hraised
  · have hfull : ∀ rows ∈ (passesIn cfg schemas s es).dropLast,
        rows.length = cfg.leaseReclaimBatch.toNat := by
      intro rows hrows
      have hlength := hdrain.full rows hrows
      omega
    calc ((passesIn cfg schemas s es).length - 1) * cfg.leaseReclaimBatch.toNat
        ≤ (passesIn cfg schemas s es).flatten.length := length_flatten_of_full hfull
      _ ≤ (takenBack (committedIn cfg schemas s es)).length := (passes_sublist h).length_le
      _ ≤ _ := takenBack_le (reachable_db hreach) (trace_committed h)

/-! ## What is made of a row -/

/-- A row that is counted is in the accounts. -/
theorem Accounts.count {counted : List ReclaimedTask} (h : Accounts counted s) (r : ReclaimedTask) :
    Accounts (counted ++ [r]) { s.count r with cancels := s.cancels ++ r.cancels } := by
  obtain ⟨hexpired, hexhausted, hreassigned, htold⟩ := h
  constructor
  · simp [Reclaimer.count, hexpired]
  · by_cases hfailed : r.status = .failed <;> simp [Reclaimer.count, hfailed, hexhausted]
  · by_cases hfailed : r.status = .failed <;> simp [Reclaimer.count, hfailed, hreassigned]
  · simp [htold]

/-- What no counter is moved by. -/
theorem Accounts.congr {counted : List ReclaimedTask} (h : Accounts counted s)
    (hexpired : s'.leasesExpired = s.leasesExpired)
    (hexhausted : s'.tasksExhausted = s.tasksExhausted)
    (hreassigned : s'.tasksReassigned = s.tasksReassigned) (htold : s'.cancels = s.cancels) :
    Accounts counted s' :=
  ⟨hexpired.trans h.expired, hexhausted.trans h.exhausted, hreassigned.trans h.reassigned,
    htold.trans h.told⟩

/-- The rows of a pass are counted one after another. -/
theorem Accounts.nextRow {counted : List ReclaimedTask} (h : Accounts counted s) (cfg : Config)
    (reclaimed rows : List ReclaimedTask) : ∃ done, counted ++ rows =
      done ++ (s.nextRow cfg reclaimed rows).uncounted ∧
        Accounts done (s.nextRow cfg reclaimed rows) := by
  induction rows generalizing s counted with
  | nil =>
      refine ⟨counted, ?_, ?_⟩
      · simp only [Reclaimer.nextRow, Reclaimer.afterPass]
        split
        · split <;> rfl
        · rfl
      · simp only [Reclaimer.nextRow]
        split
        · exact h.congr rfl rfl rfl rfl
        · exact h.congr rfl rfl rfl rfl
  | cons r rest ih =>
      have hcount := h.count r
      simp only [Reclaimer.nextRow]
      split
      · next hnone =>
          -- a row that nobody had is counted, and nobody is told
          have hcounted : Accounts (counted ++ [r]) (s.count r) :=
            hcount.congr rfl rfl rfl (by simp [ReclaimedTask.cancels, hnone, Reclaimer.count])
          obtain ⟨done, hsplit, hdone⟩ := ih hcounted
          exact ⟨done, by rw [← hsplit, List.append_assoc, List.singleton_append], hdone⟩
      · next w hw =>
          refine ⟨counted ++ [r], by simp [Reclaimer.uncounted], hcount.congr rfl rfl rfl ?_⟩
          simp [ReclaimedTask.cancels, hw]

/-- The rows taken back are counted, but for those of the pass under way. -/
def Accounted (taken : List ReclaimedTask) (s : Reclaimer) : Prop :=
  ∃ counted, taken = counted ++ s.uncounted ∧ Accounts counted s

/-- Where the loop stands at no row, none is uncounted. -/
theorem uncounted_eq_nil {pc : ReclaimPc} (hpc : s.pc = pc)
    (hother : ∀ rest reclaimed, pc ≠ .cancelling rest reclaimed) : s.uncounted = [] := by
  unfold Reclaimer.uncounted
  split
  · next rest reclaimed hrow => exact absurd (hpc.symm.trans hrow) (hother rest reclaimed)
  · rfl

theorem Reclaimer.uncounted_afterPass (s : Reclaimer) (reclaimed : List ReclaimedTask) :
    (s.afterPass cfg reclaimed).uncounted = [] := by
  unfold Reclaimer.afterPass
  split <;> rfl

/-- What takes no row back and counts none. -/
theorem Accounted.quiet {taken : List ReclaimedTask} (h : Accounted taken s)
    (hpass : s.pass cfg e = none) (huncounted : s'.uncounted = s.uncounted)
    (haccounts : ∀ counted, Accounts counted s → Accounts counted s') :
    Accounted (taken ++ (s.pass cfg e).toList.flatten) s' := by
  obtain ⟨counted, rfl, hcounted⟩ := h
  refine ⟨counted, ?_, haccounts counted hcounted⟩
  rw [hpass, huncounted]
  exact List.append_nil _

/-- What goes from one place that is at no row to another. -/
theorem Accounted.between {taken : List ReclaimedTask} {pc : ReclaimPc} (h : Accounted taken s)
    (hpass : s.pass cfg e = none) (hpc : s.pc = pc)
    (hother : ∀ rest reclaimed, pc ≠ .cancelling rest reclaimed) (hidle : s'.uncounted = [])
    (haccounts : ∀ counted, Accounts counted s → Accounts counted s') :
    Accounted (taken ++ (s.pass cfg e).toList.flatten) s' :=
  h.quiet hpass (hidle.trans (uncounted_eq_nil hpc hother).symm) haccounts

/-- A sweep begins to count the rows it took back. -/
theorem Accounted.swept {taken reclaimed : List ReclaimedTask} {skip : List Uuid}
    {draw : Uuid → ℚ} (h : Accounted taken s) (hpc : s.pc = .sweeping)
    (hres : reclaimExpiredLeases cfg s.db now cfg.leaseReclaimBatch skip draw =
      .ok (db, reclaimed)) :
    Accounted (taken ++ (s.pass cfg (.swept now skip draw)).toList.flatten)
      ({ s with db := db }.nextRow cfg reclaimed reclaimed) := by
  obtain ⟨counted, rfl, hcounted⟩ := h
  have hpass : s.pass cfg (.swept now skip draw) = some reclaimed := by
    simp only [Reclaimer.pass, hres]
  have hcommitted : Accounts counted { s with db := db } := hcounted.congr rfl rfl rfl rfl
  obtain ⟨done, hsplit, hdone⟩ := hcommitted.nextRow cfg reclaimed reclaimed
  refine ⟨done, ?_, hdone⟩
  rw [hpass, uncounted_eq_nil hpc fun _ _ => ReclaimPc.noConfusion, List.append_nil,
    Option.toList_some, List.flatten_singleton]
  exact hsplit

/-- A loser that was told lets the next rows be counted. -/
theorem Accounted.told {taken rest reclaimed : List ReclaimedTask} (h : Accounted taken s)
    (hpc : s.pc = .cancelling rest reclaimed) :
    Accounted taken (s.nextRow cfg reclaimed rest) := by
  obtain ⟨counted, rfl, hcounted⟩ := h
  obtain ⟨done, hsplit, hdone⟩ := hcounted.nextRow cfg reclaimed rest
  refine ⟨done, ?_, hdone⟩
  rw [Reclaimer.uncounted, hpc]
  exact hsplit

/-- The wake for the retries is no part of the accounts. -/
theorem Accounts.scheduleRetryWake {counted : List ReclaimedTask} (h : Accounts counted s)
    (clock : Seconds) (reclaimed : List ReclaimedTask) :
    Accounts counted (s.scheduleRetryWake clock reclaimed) := by
  unfold Reclaimer.scheduleRetryWake
  split
  · exact h
  · split
    · exact h
    · exact h.congr rfl rfl rfl rfl

/-- **One step** of the accounts, of a replica that is not stopped: what a sweep took back is
counted, or is about to be. -/
theorem step_accounted {taken : List ReclaimedTask} (h : Accounted taken s) (he : e ≠ .cancel)
    (hmove : ReclaimerMove cfg schemas s e s') :
    Accounted (taken ++ (s.pass cfg e).toList.flatten) s' := by
  cases hmove with
  | refused hpc hres =>
      exact h.between (by simp only [Reclaimer.pass, hres]) hpc
        (fun _ _ => ReclaimPc.noConfusion) rfl fun _ hcounted => hcounted.congr rfl rfl rfl rfl
  | swept hpc hres => exact h.swept hpc hres
  | told hpc =>
      rw [show s.pass cfg .told = none from rfl]
      exact (List.append_nil taken).symm ▸ h.told hpc
  | rang hpc =>
      exact h.between rfl hpc (fun _ _ => ReclaimPc.noConfusion)
        (Reclaimer.uncounted_afterPass _ _)
        fun _ hcounted => (hcounted.scheduleRetryWake _ _).congr rfl rfl rfl rfl
  | tick hpc | raised hpc | resumed hpc =>
      exact h.between rfl hpc (fun _ _ => ReclaimPc.noConfusion) rfl
        fun _ hcounted => hcounted.congr rfl rfl rfl rfl
  | wake | transaction =>
      exact h.quiet rfl rfl fun _ hcounted => hcounted.congr rfl rfl rfl rfl
  | cancel => exact absurd rfl he

/-- A run of a replica that is not stopped. -/
theorem trace_accounted {s₀ : Reclaimer} (hinit : (reclaimer cfg schemas).init s₀)
    (h : (reclaimer cfg schemas).Trace s₀ es s) (hcancel : .cancel ∉ es) :
    Accounted (passesIn cfg schemas s₀ es).flatten s := by
  induction h with
  | nil =>
      obtain ⟨db, -, rfl⟩ := hinit
      exact ⟨[], rfl, rfl, rfl, rfl, rfl⟩
  | @snoc es u v e htrace hstep ih =>
      rw [List.mem_append, not_or, List.mem_singleton] at hcancel
      rw [passesIn_snoc htrace hstep, List.flatten_append]
      exact step_accounted (ih hcancel.1) (Ne.symm hcancel.2) (step_move hstep)

/-- A replica that was stopped takes nothing back and counts nothing any more. -/
theorem trace_stopped (h : (reclaimer cfg schemas).Trace s es s') (hpc : s.pc = .cancelled) :
    s'.pc = .cancelled ∧ passesIn cfg schemas s es = [] ∧
      ∀ counted, Accounts counted s → Accounts counted s' := by
  induction h with
  | nil => exact ⟨hpc, rfl, fun _ hcounted => hcounted⟩
  | @snoc es u v e htrace hstep ih =>
      obtain ⟨hstopped, hpasses, haccounts⟩ := ih
      rw [passesIn_snoc htrace hstep, hpasses, List.nil_append]
      cases step_move hstep with
      | cancel =>
          exact ⟨rfl, rfl,
            fun counted hcounted => (haccounts counted hcounted).congr rfl rfl rfl rfl⟩
      | wake | transaction =>
          exact ⟨hstopped, rfl,
            fun counted hcounted => (haccounts counted hcounted).congr rfl rfl rfl rfl⟩
      | tick hgoing | refused hgoing | swept hgoing | raised hgoing | told hgoing | rang hgoing
      | resumed hgoing =>
          rw [hstopped] at hgoing
          cases hgoing

theorem mem_scheduleRetryWake (clock : Seconds) (reclaimed : List ReclaimedTask) {moment : Seconds}
    (h : moment ∈ s.retryWakes) : moment ∈ (s.scheduleRetryWake clock reclaimed).retryWakes := by
  unfold Reclaimer.scheduleRetryWake
  split
  · exact h
  · split
    · exact h
    · exact List.mem_cons_of_mem _ h

/-- A scheduled wake stays until it rings. -/
theorem trace_retryWakes (h : (reclaimer cfg schemas).Trace s es s') {moment : Seconds}
    (hmem : moment ∈ s.retryWakes) : moment ∈ s'.retryWakes ∨ .wake moment ∈ es := by
  induction h with
  | nil => exact .inl hmem
  | @snoc es t u e _ hstep ih =>
      rcases ih with hold | hrang
      · cases step_move hstep with
        | @wake rung =>
            by_cases hrung : moment = rung
            · rw [hrung]
              exact .inr (by simp)
            · exact .inl ((List.mem_erase_of_ne hrung).mpr hold)
        | rang => exact .inl (mem_scheduleRetryWake _ _ hold)
        | swept | told =>
            rw [Reclaimer.nextRow_retryWakes]
            exact .inl hold
        | tick | refused | raised | resumed | cancel | transaction => exact .inl hold
      · exact .inr (List.mem_append_left _ hrang)

/-- The earliest of the moments from which a row of the pass may be handed out again is past, or
a wake is scheduled for it. -/
theorem scheduled_wake {clock : Seconds} {reclaimed : List ReclaimedTask} {r : ReclaimedTask}
    (hr : r ∈ reclaimed) {moment : Seconds} (hmoment : r.notBefore = some moment) :
    ∃ earliest ≤ moment, (moments reclaimed).min? = some earliest ∧
      (earliest ≤ clock ∨ earliest ∈ (s.scheduleRetryWake clock reclaimed).retryWakes) := by
  have hmem : moment ∈ moments reclaimed := List.mem_filterMap.mpr ⟨r, hr, hmoment⟩
  unfold Reclaimer.scheduleRetryWake
  cases hmin : (moments reclaimed).min? with
  | none =>
      rw [List.min?_eq_none_iff.mp hmin] at hmem
      exact absurd hmem List.not_mem_nil
  | some earliest =>
      have hle : earliest ≤ moment := List.le_min?_iff hmin |>.mp le_rfl moment hmem
      refine ⟨earliest, hle, rfl, ?_⟩
      by_cases hpast : earliest - clock ≤ 0
      · exact .inl (sub_nonpos.mp hpast)
      · simp only [if_neg hpast]
        exact .inr (List.mem_cons_self ..)

/-- Somebody had every row that a replica took back. -/
theorem taken_held (hreach : (reclaimer cfg schemas).Reachable s)
    (h : (reclaimer cfg schemas).Trace s es s') :
    ∀ r ∈ (passesIn cfg schemas s es).flatten, ∃ w, r.previousWorkerId = some w := by
  intro r hr
  obtain ⟨event, hevent, hmem⟩ := List.mem_flatMap.mp ((passes_sublist h).mem hr)
  obtain ⟨as, bs, hsplit⟩ := List.append_of_mem hevent
  have htrace := trace_committed h
  rw [hsplit] at htrace
  obtain ⟨db, db', hleft, hstep, -⟩ := htrace.at_event
  obtain ⟨past, hpast⟩ := reachable_db hreach
  exact (reclaims_rows (hpast.extend hleft).reachable hstep).2 r hmem

end

/-! ## A task is lost and taken back -/

/-- Events that are allowed whatever the database holds make a stretch if they can be played. -/
theorem trace_of_foldlM {cfg : Config} {schemas : Schemas} {es : List ReclaimerEvent}
    (hallowed : ∀ e ∈ es, ∀ db, e.Allowed db) : ∀ {s s' : Reclaimer},
      es.foldlM (Reclaimer.next cfg schemas) s = some s' →
        (reclaimer cfg schemas).Trace s es s' := by
  induction es with
  | nil =>
      rintro s s' h
      cases h
      exact .nil
  | cons e es ih =>
      intro s s' h
      rw [List.foldlM_cons] at h
      obtain ⟨u, hu, hrest⟩ := Option.bind_eq_some_iff.mp h
      exact .cons ⟨hallowed e List.mem_cons_self s.db, hu⟩
        (ih (fun f hf => hallowed f (List.mem_cons_of_mem _ hf)) hrest)

namespace Demo

/-- A replica starts when the only task of the deployment has been handed out. -/
def recovering : Reclaimer := { db := (play {} schemas .empty claimed).2 }

theorem recovering_init : (reclaimer {} schemas).init recovering :=
  ⟨_, ⟨_, play_run claimed_playable⟩, rfl⟩

/-- The drain that takes the task back, up to the wake for its retry. -/
def recovery : List ReclaimerEvent :=
    [.swept 40 [] fun _ => 1 / 2, .told, .rang 41, .transaction 42 (.purge 30), .wake (85 / 2)]

theorem recovery_allowed : ∀ e ∈ recovery, ∀ db, e.Allowed db := by
  intro e he db
  simp only [recovery, List.mem_cons, List.not_mem_nil, or_false] at he
  obtain rfl | rfl | rfl | rfl | rfl := he
  · exact fun _ => by constructor <;> norm_num
  · trivial
  · trivial
  · trivial
  · trivial

/-- The loop waits for its next tick. -/
def isSleeping : ReclaimPc → Bool
  | .sleeping => true
  | _ => false

theorem eq_of_isSleeping {pc : ReclaimPc} (h : isSleeping pc = true) : pc = .sleeping := by
  cases pc with
  | sleeping => rfl
  | _ => cases h

theorem recovery_ends : ∃ s', recovery.foldlM (Reclaimer.next {} schemas)
    { recovering with pc := .sweeping } = some s' ∧ s'.pc = .sleeping := by
  have hends : (recovery.foldlM (Reclaimer.next {} schemas)
      { recovering with pc := .sweeping }).any (fun s => isSleeping s.pc) = true := by
    decide +kernel
  cases hplayed : recovery.foldlM (Reclaimer.next {} schemas)
      { recovering with pc := .sweeping } with
  | none =>
      rw [hplayed] at hends
      cases hends
  | some s' =>
      rw [hplayed] at hends
      exact ⟨s', rfl, eq_of_isSleeping hends⟩

end Demo

/-- One sweep clears the backlog, and the drain is over. -/
theorem drain_recovers_demo : ∃ s', (reclaimer {} Demo.schemas).Trace
      { Demo.recovering with pc := .sweeping } Demo.recovery s' ∧ s'.pc = .sleeping ∧
    ∀ rows ∈ (passesIn {} Demo.schemas { Demo.recovering with pc := .sweeping }
      Demo.recovery).getLast?, (rows.length : Int) < 100 := by
  obtain ⟨s', hplayed, hpc⟩ := Demo.recovery_ends
  have htrace := trace_of_foldlM Demo.recovery_allowed hplayed
  have hreach : (reclaimer {} Demo.schemas).Reachable { Demo.recovering with pc := .sweeping } :=
    ⟨[.tick], _, Demo.recovering_init, .single ⟨trivial, rfl⟩⟩
  obtain ⟨-, -, hlast, -⟩ := drain_recovers hreach htrace (by simp [Demo.recovery])
  exact ⟨s', htrace, hpc, hlast hpc (by simp [Demo.recovery])⟩

end TaskFleet.Model
