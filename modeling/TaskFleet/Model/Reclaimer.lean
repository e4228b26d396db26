import TaskFleet.Model.QueueRun

/-!
# `assignment.py`: the lease reclaimer of one replica

`lease_reclaim_loop` and the pass it makes, `reclaim_once`: the sweep itself, and what follows
once it has committed, row by row, up to the wake for the earliest retry. An event is what the
loop does between two awaits; in between the other transactions of the deployment run, those of
the other replicas' reclaimers among them.
-/

namespace TaskFleet.Model

open Py

/-- The await `lease_reclaim_loop` stands at. -/
inductive ReclaimPc where
  /-- `asyncio.sleep(interval)` -/
  | sleeping
  /-- `reclaim_expired_leases`, up to its commit. -/
  | sweeping
  /-- `cancel_on_worker`, for a row of the pass; `rest` come after it. -/
  | cancelling (rest reclaimed : List ReclaimedTask)
  /-- `notify_work_available` -/
  | ringing (reclaimed : List ReclaimedTask)
  /-- `asyncio.sleep(0)` -/
  | yielding
  | cancelled

/-- A `task_cancel` given to the push channel of the worker it names. -/
structure PushedCancel where
  workerId : Uuid
  taskId : Uuid
  correlationId : String
  deriving DecidableEq

/-- One replica's reclaimer, over the database it shares. -/
structure Reclaimer where
  db : Db
  pc : ReclaimPc := .sleeping
  /-- `LEASES_EXPIRED` -/
  leasesExpired : Nat := 0
  /-- `TASKS_EXHAUSTED` -/
  tasksExhausted : Nat := 0
  /-- `TASKS_REASSIGNED` -/
  tasksReassigned : Nat := 0
  /-- What `cancel_on_worker` was called with, oldest first. -/
  cancels : List PushedCancel := []
  /-- How often `notify_local` was called. -/
  rung : Nat := 0
  /-- `_retry_wakes`, by the moment each is to ring. -/
  retryWakes : List Seconds := []

/-- What happens on a replica that reclaims. -/
inductive ReclaimerEvent where
  /-- The interval is over. -/
  | tick
  /-- The sweep commits; `skip` are the rows somebody else has locked. -/
  | swept (now : Seconds) (skip : List Uuid) (draw : Uuid → ℚ)
  /-- The sweep raises, and is rolled back. -/
  | raised
  /-- `cancel_on_worker` returns, whether or not the publish went through. -/
  | told
  /-- `notify_work_available` returns, and the replica's clock is read. -/
  | rang (clock : Seconds)
  | resumed
  | cancel
  /-- The sleep of a retry wake is over. -/
  | wake (moment : Seconds)
  /-- Somebody else's transaction. -/
  | transaction (now : Seconds) (op : Op)

namespace Reclaimer

/-- The counters `reclaim_once` moves for a row. -/
def count (s : Reclaimer) (r : ReclaimedTask) : Reclaimer :=
  { s with
    leasesExpired := s.leasesExpired + 1
    tasksExhausted := if r.status = .failed then s.tasksExhausted + 1 else s.tasksExhausted
    tasksReassigned := if r.status = .failed then s.tasksReassigned else s.tasksReassigned + 1 }

/-- `while await reclaim_once() >= lease_reclaim_batch()` -/
def afterPass (cfg : Config) (s : Reclaimer) (reclaimed : List ReclaimedTask) : Reclaimer :=
  { s with pc := if cfg.leaseReclaimBatch ≤ reclaimed.length then .yielding else .sleeping }

/-- The `for row in reclaimed` goes on, and what comes after it if it is over. -/
def nextRow (cfg : Config) (s : Reclaimer) (reclaimed : List ReclaimedTask) :
    List ReclaimedTask → Reclaimer
  | [] =>
      if reclaimed.isEmpty then s.afterPass cfg reclaimed
      else { s with rung := s.rung + 1, pc := .ringing reclaimed }
  | r :: rest =>
      match r.previousWorkerId with
      | none => (s.count r).nextRow cfg reclaimed rest
      | some w =>
          { s.count r with
            cancels := s.cancels ++ [⟨w, r.id, r.correlationId⟩]
            pc := .cancelling rest reclaimed }

/-- The `not_before` of the rows of a pass that have one. -/
def moments (reclaimed : List ReclaimedTask) : List Seconds :=
  reclaimed.filterMap ReclaimedTask.notBefore

/-- `_schedule_retry_wake` -/
def scheduleRetryWake (s : Reclaimer) (clock : Seconds) (reclaimed : List ReclaimedTask) :
    Reclaimer :=
  match (moments reclaimed).min? with
  | none => s
  | some moment =>
      -- already eligible: the doorbell just rung is enough
      if moment - clock ≤ 0 then s else { s with retryWakes := moment :: s.retryWakes }

/-- One event, if it can happen. -/
def next (cfg : Config) (schemas : Schemas) (s : Reclaimer) : ReclaimerEvent → Option Reclaimer
  | .tick =>
      match s.pc with
      | .sleeping => some { s with pc := .sweeping }
      | _ => none
  | .swept now skip draw =>
      match s.pc with
      | .sweeping =>
          match reclaimExpiredLeases cfg s.db now cfg.leaseReclaimBatch skip draw with
          | .error _ => some { s with pc := .sleeping }
          | .ok (db, reclaimed) => some ({ s with db := db }.nextRow cfg reclaimed reclaimed)
      | _ => none
  | .raised =>
      match s.pc with
      | .sweeping => some { s with pc := .sleeping }
      | _ => none
  | .told =>
      match s.pc with
      | .cancelling rest reclaimed => some (s.nextRow cfg reclaimed rest)
      | _ => none
  | .rang clock =>
      match s.pc with
      | .ringing reclaimed => some ((s.scheduleRetryWake clock reclaimed).afterPass cfg reclaimed)
      | _ => none
  | .resumed =>
      match s.pc with
      | .yielding => some { s with pc := .sweeping }
      | _ => none
  | .cancel => some { s with pc := .cancelled }
  | .wake moment =>
      if moment ∈ s.retryWakes then
        some { s with retryWakes := s.retryWakes.erase moment, rung := s.rung + 1 }
      else none
  | .transaction now op => some { s with db := (apply cfg schemas s.db now op).1 }

end Reclaimer

/-- What each event can do. -/
inductive ReclaimerMove (cfg : Config) (schemas : Schemas) (s : Reclaimer) :
    ReclaimerEvent → Reclaimer → Prop
  | tick (hpc : s.pc = .sleeping) : ReclaimerMove cfg schemas s .tick { s with pc := .sweeping }
  /-- The batch is out of bounds. -/
  | refused {now : Seconds} {skip : List Uuid} {draw : Uuid → ℚ} {err : QueueLimitExceeded}
      (hpc : s.pc = .sweeping)
      (hres : reclaimExpiredLeases cfg s.db now cfg.leaseReclaimBatch skip draw = .error err) :
      ReclaimerMove cfg schemas s (.swept now skip draw) { s with pc := .sleeping }
  | swept {now : Seconds} {skip : List Uuid} {draw : Uuid → ℚ} {db : Db}
      {reclaimed : List ReclaimedTask} (hpc : s.pc = .sweeping)
      (hres : reclaimExpiredLeases cfg s.db now cfg.leaseReclaimBatch skip draw =
        .ok (db, reclaimed)) :
      ReclaimerMove cfg schemas s (.swept now skip draw)
        ({ s with db := db }.nextRow cfg reclaimed reclaimed)
  | raised (hpc : s.pc = .sweeping) :
      ReclaimerMove cfg schemas s .raised { s with pc := .sleeping }
  | told {rest reclaimed : List ReclaimedTask} (hpc : s.pc = .cancelling rest reclaimed) :
      ReclaimerMove cfg schemas s .told (s.nextRow cfg reclaimed rest)
  | rang {clock : Seconds} {reclaimed : List ReclaimedTask} (hpc : s.pc = .ringing reclaimed) :
      ReclaimerMove cfg schemas s (.rang clock)
        ((s.scheduleRetryWake clock reclaimed).afterPass cfg reclaimed)
  | resumed (hpc : s.pc = .yielding) :
      ReclaimerMove cfg schemas s .resumed { s with pc := .sweeping }
  | cancel : ReclaimerMove cfg schemas s .cancel { s with pc := .cancelled }
  | wake {moment : Seconds} (hmem : moment ∈ s.retryWakes) :
      ReclaimerMove cfg schemas s (.wake moment)
        { s with retryWakes := s.retryWakes.erase moment, rung := s.rung + 1 }
  | transaction {now : Seconds} {op : Op} :
      ReclaimerMove cfg schemas s (.transaction now op)
        { s with db := (apply cfg schemas s.db now op).1 }

/-- **Every event is a move.** -/
theorem Reclaimer.next_move {cfg : Config} {schemas : Schemas} {s t : Reclaimer}
    {e : ReclaimerEvent} (h : s.next cfg schemas e = some t) : ReclaimerMove cfg schemas s e t := by
  cases e with
  | tick =>
      simp only [Reclaimer.next] at h
      split at h
      · next hpc => cases h; exact .tick hpc
      · cases h
  | swept now skip draw =>
      simp only [Reclaimer.next] at h
      split at h
      · next hpc =>
          split at h
          · next hres => cases h; exact .refused hpc hres
          · next hres => cases h; exact .swept hpc hres
      · cases h
  | raised =>
      simp only [Reclaimer.next] at h
      split at h
      · next hpc => cases h; exact .raised hpc
      · cases h
  | told =>
      simp only [Reclaimer.next] at h
      split at h
      · next hpc => cases h; exact .told hpc
      · cases h
  | rang clock =>
      simp only [Reclaimer.next] at h
      split at h
      · next hpc => cases h; exact .rang hpc
      · cases h
  | resumed =>
      simp only [Reclaimer.next] at h
      split at h
      · next hpc => cases h; exact .resumed hpc
      · cases h
  | cancel =>
      cases h
      exact .cancel
  | wake moment =>
      simp only [Reclaimer.next] at h
      split at h
      · next hmem => cases h; exact .wake hmem
      · cases h
  | transaction now op =>
      cases h
      exact .transaction

/-- What the database and `uuid4` guarantee, as for the queue. -/
def ReclaimerEvent.Allowed (db : Db) : ReclaimerEvent → Prop
  | .swept _ _ draw => ∀ id, 0 ≤ draw id ∧ draw id < 1
  | .transaction _ op => op.Admissible db
  | _ => True

/-- A replica's reclaimer, from its start on, on a queue that is already in use. -/
def reclaimer (cfg : Config) (schemas : Schemas) : System Reclaimer ReclaimerEvent where
  init s := ∃ db, (queue cfg schemas).Reachable db ∧ s = { db := db }
  step s e t := e.Allowed s.db ∧ s.next cfg schemas e = some t

/-! ## What can be seen of it -/

/-- The rows a sweep took back. -/
def Reclaimer.pass (cfg : Config) (s : Reclaimer) : ReclaimerEvent → Option (List ReclaimedTask)
  | .swept now skip draw =>
      match reclaimExpiredLeases cfg s.db now cfg.leaseReclaimBatch skip draw with
      | .error _ => none
      | .ok (_, reclaimed) => some reclaimed
  | _ => none

/-- The transaction that an event of the replica commits. -/
def Reclaimer.committed (cfg : Config) (schemas : Schemas) (s : Reclaimer) :
    ReclaimerEvent → Option Event
  | .swept now skip draw =>
      let op := Op.reclaim cfg.leaseReclaimBatch skip draw
      some ⟨now, op, (apply cfg schemas s.db now op).2⟩
  | .transaction now op => some ⟨now, op, (apply cfg schemas s.db now op).2⟩
  | _ => none

end TaskFleet.Model
