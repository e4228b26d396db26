import TaskFleet.Lib.Trace
import TaskFleet.Model.TaskQueue
import Mathlib.Tactic.NormNum

/-!
# Runs of the queue

The queue as a transition system: a step is one committed transaction, and
its event keeps the clock, the call and the answer. Nothing orders the calls
and nothing bounds their number; any worker, any text and any envelope may
occur, at any time. The clock is not even required to advance, so whatever
holds of every run holds of the runs with a non-decreasing one.

A transaction that is rolled back leaves no trace and is no step, except that
the submission the database refuses is the step that changes nothing
(`Outcome.raised`). What is assumed of a step (`Op.Admissible`) is only what the
database and `uuid4` guarantee: a generated id is fresh, and `random()` is in `[0, 1)`.
-/

namespace TaskFleet.Model

open Py

/-- One call of the queue's interface. -/
inductive Op where
  | enqueue (id : Uuid) (req : EnqueueRequest)
  | dequeue (workerId : Uuid) (limit maxBatch : Int) (taskTypes : Option (List String))
      (skip : List Uuid)
  /-- `mark_status` with `RUNNING`. -/
  | start (taskId : String) (workerId : Uuid)
  /-- `mark_status` with `FAILED` and `record_execution_failure`. -/
  | fail (taskId : String) (workerId : Uuid) (errorType correlationId : String)
  | complete (envelope : Envelope) (workerId resultId : Uuid)
  | renewLease (taskId : String) (workerId : Uuid)
  | renewWorkerLeases (workerId : Uuid)
  | shortenWorkerLeases (workerId : Uuid) (graceSeconds : Int)
  | reclaim (batch : Int) (skip : List Uuid) (draw : Uuid → ℚ)
  | cancel (taskId : String)
  | purge (retentionDays : Int)
  | setPolicy (taskType : String) (values : List (PolicyField × Option Int))
  | clearPolicy (taskType : String)

/-- What the call answered. -/
inductive Reply where
  | enqueued (id : Uuid)
  | invalidTask (error : ParameterError)
  | limitExceeded (error : QueueLimitExceeded)
  | claimed (rows : List ClaimedTask)
  | moved (outcome : Outcome)
  | renewed (written : Bool)
  | renewedAll (ids : List Uuid)
  | shortened (count : Nat)
  | reclaimed (rows : List ReclaimedTask)
  | cancelled (outcome : Outcome) (current : Option TaskState)
  | purged (count : Nat)
  | policySet
  | policyCleared (removed : Bool)
  | invalidPolicy (error : PolicyError)

/-- One committed transaction. -/
structure Event where
  now : Seconds
  op : Op
  reply : Reply

/-- Run one call against the database. -/
def apply (cfg : Config) (schemas : Schemas) (db : Db) (now : Seconds) : Op → Db × Reply
  | .enqueue id req =>
      match enqueue schemas db now id req with
      | .ok db' => (db', .enqueued id)
      | .error e => (db, .invalidTask e)
  | .dequeue workerId limit maxBatch taskTypes skip =>
      match dequeue cfg db now workerId limit maxBatch taskTypes skip with
      | .ok (db', rows) => (db', .claimed rows)
      | .error e => (db, .limitExceeded e)
  | .start taskId workerId =>
      let r := markStatus cfg db now taskId workerId .running
      (r.1, .moved r.2)
  | .fail taskId workerId errorType correlationId =>
      let r := failTask cfg db now taskId workerId errorType correlationId
      (r.1, .moved r.2)
  | .complete envelope workerId resultId =>
      let r := completeTask db now envelope workerId resultId
      (r.1, .moved r.2)
  | .renewLease taskId workerId =>
      let r := renewLease cfg db now taskId workerId
      (r.1, .renewed r.2)
  | .renewWorkerLeases workerId =>
      let r := renewWorkerLeases cfg db now workerId
      (r.1, .renewedAll r.2)
  | .shortenWorkerLeases workerId graceSeconds =>
      let r := shortenWorkerLeases db now workerId graceSeconds
      (r.1, .shortened r.2)
  | .reclaim batch skip draw =>
      match reclaimExpiredLeases cfg db now batch skip draw with
      | .ok (db', rows) => (db', .reclaimed rows)
      | .error e => (db, .limitExceeded e)
  | .cancel taskId =>
      let r := cancelQueuedTask db now taskId
      (r.1, .cancelled r.2.1 r.2.2)
  | .purge retentionDays =>
      let r := purgeExpiredResults db now retentionDays
      (r.1, .purged r.2)
  | .setPolicy taskType values =>
      match setPolicy db now taskType values with
      | .ok db' => (db', .policySet)
      | .error e => (db, .invalidPolicy e)
  | .clearPolicy taskType =>
      match clearPolicy db taskType with
      | .ok (db', removed) => (db', .policyCleared removed)
      | .error e => (db, .invalidPolicy e)

/-- What the database and `uuid4` guarantee about the values a call is made
with. -/
def Op.Admissible (db : Db) : Op → Prop
  | .enqueue id _ => db.tasks.get? id = none
  | .complete _ _ resultId => db.results.get? resultId = none
  | .reclaim _ _ draw => ∀ id, 0 ≤ draw id ∧ draw id < 1
  | _ => True

/-- The queue of one deployment. It starts with no task; policies may already
be set. -/
def queue (cfg : Config) (schemas : Schemas) : System Db Event where
  init db := db.tasks = .empty ∧ db.results = .empty ∧ db.attempts = []
  step db e db' := e.op.Admissible db ∧ apply cfg schemas db e.now e.op = (db', e.reply)

/-- The step a call makes, with its answer filled in. -/
theorem queue_step {cfg : Config} {schemas : Schemas} {db : Db} {now : Seconds} {op : Op}
    (hadm : op.Admissible db) :
    (queue cfg schemas).step db ⟨now, op, (apply cfg schemas db now op).2⟩
      (apply cfg schemas db now op).1 :=
  ⟨hadm, Prod.mk.eta.symm⟩

/-- A submission is such a step. -/
theorem complete_step {cfg : Config} {schemas : Schemas} {db : Db} {resultId : Uuid}
    (hfresh : db.results.get? resultId = none) (now : Seconds) (envelope : Envelope)
    (workerId : Uuid) :
    (queue cfg schemas).step db
      ⟨now, .complete envelope workerId resultId,
        .moved (completeTask db now envelope workerId resultId).2⟩
      (completeTask db now envelope workerId resultId).1 := by
  refine ⟨hfresh, ?_⟩
  simp only [apply]

/-! ## Playing calls -/

/-- One call after another, with the events they make and the database they
leave. -/
def play (cfg : Config) (schemas : Schemas) : Db → List (Seconds × Op) → List Event × Db
  | db, [] => ([], db)
  | db, (now, op) :: calls =>
      let r := apply cfg schemas db now op
      let rest := play cfg schemas r.1 calls
      (⟨now, op, r.2⟩ :: rest.1, rest.2)

/-- Each call is made with values the database and `uuid4` can produce. -/
def Playable (cfg : Config) (schemas : Schemas) : Db → List (Seconds × Op) → Prop
  | _, [] => True
  | db, (now, op) :: calls =>
      op.Admissible db ∧ Playable cfg schemas (apply cfg schemas db now op).1 calls

theorem play_trace {cfg : Config} {schemas : Schemas} {calls : List (Seconds × Op)} :
    ∀ {db : Db}, Playable cfg schemas db calls →
      (queue cfg schemas).Trace db (play cfg schemas db calls).1 (play cfg schemas db calls).2 := by
  induction calls with
  | nil => intro db _; exact .nil
  | cons call calls ih =>
      intro db h
      exact .cons (queue_step h.1) (ih h.2)

/-- What is played from the empty database is a run. -/
theorem play_run {cfg : Config} {schemas : Schemas} {calls : List (Seconds × Op)}
    (h : Playable cfg schemas .empty calls) :
    (queue cfg schemas).Run (play cfg schemas .empty calls).1 (play cfg schemas .empty calls).2 :=
  ⟨.empty, ⟨rfl, rfl, rfl⟩, play_trace h⟩

/-- The events are the calls that were played. -/
theorem play_op_mem {cfg : Config} {schemas : Schemas} {calls : List (Seconds × Op)} :
    ∀ {db : Db} {e : Event}, e ∈ (play cfg schemas db calls).1 → e.op ∈ calls.map Prod.snd := by
  induction calls with
  | nil => intro db e he; cases he
  | cons call calls ih =>
      intro db e he
      rcases List.mem_cons.mp he with rfl | hrest
      · exact .head _
      · exact .tail _ (ih hrest)

/-- Each call is one that can be made, and its event meets a condition on the
state before it. -/
def PlayableUnder (G : Db → Event → Prop) (cfg : Config) (schemas : Schemas) :
    Db → List (Seconds × Op) → Prop
  | _, [] => True
  | db, (now, op) :: calls =>
      op.Admissible db ∧ G db ⟨now, op, (apply cfg schemas db now op).2⟩ ∧
        PlayableUnder G cfg schemas (apply cfg schemas db now op).1 calls

theorem play_guarded {G : Db → Event → Prop} {cfg : Config} {schemas : Schemas}
    {calls : List (Seconds × Op)} : ∀ {db : Db}, PlayableUnder G cfg schemas db calls →
      ((queue cfg schemas).guarded G).Trace db (play cfg schemas db calls).1
        (play cfg schemas db calls).2 := by
  induction calls with
  | nil => intro db _; exact .nil
  | cons call calls ih =>
      intro db h
      exact .cons ⟨queue_step h.1, h.2.1⟩ (ih h.2.2)

/-- Events determine the state they lead to. -/
theorem queue_deterministic (cfg : Config) (schemas : Schemas) :
    (queue cfg schemas).Deterministic := by
  rintro db e db₁ db₂ ⟨-, h₁⟩ ⟨-, h₂⟩
  exact (Prod.mk.inj (h₁.symm.trans h₂)).1

/-! ## A small deployment

One task, two workers and no parameter checks: the setting of every concrete
run in this development. -/

namespace Demo

def task : Uuid := ⟨1, by decide⟩

def worker : Uuid := ⟨2, by decide⟩

def otherWorker : Uuid := ⟨3, by decide⟩

def schemas : Schemas := fun _ parameters => some (.obj parameters)

def request : EnqueueRequest where
  taskType := "sleep"
  correlationId := "demo"

/-- Whole numbers are all the small deployment computes with. -/
def floats : FloatOps where
  ofInt n := some (.finite n)
  round3 x := x
  repr _ := "1.0"

/-- A result of the task, as validated, for the given attempt. -/
def envelope (attemptNumber : Nat) (token : Token) : Envelope where
  taskId := task.str
  taskId_canonical := ⟨task, rfl⟩
  status := ⟨"COMPLETED", completed_accepted⟩
  attemptNumber := attemptNumber
  sessionEpoch := 1
  idempotencyToken := token
  durationSeconds := .finite 1
  result := .null
  truncated := false
  originalSizeBytes := none
  sizeBytes := 180

def token : Token := ⟨"first", by decide⟩

def otherToken : Token := ⟨"second", by decide⟩

def resultId : Uuid := ⟨4, by decide⟩

/-- The task is enqueued at 0 and claimed at 1. -/
def claimed : List (Seconds × Op) :=
    [(0, .enqueue task request), (1, .dequeue worker 1 100 none [])]

/-- Its acknowledgement lease has run out at 40 and it is taken back. -/
def reclaimed : List (Seconds × Op) := claimed ++ [(40, .reclaim 100 [] fun _ => 1 / 2)]

theorem claimed_playable : Playable {} schemas .empty claimed :=
  ⟨rfl, trivial, trivial⟩

theorem reclaimed_playable : Playable {} schemas .empty reclaimed :=
  ⟨rfl, trivial, fun _ => by constructor <;> norm_num, trivial⟩

end Demo

end TaskFleet.Model
