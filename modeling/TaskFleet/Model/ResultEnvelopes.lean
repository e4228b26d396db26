import TaskFleet.Model.LoadedResults
import TaskFleet.Py.Loads

/-!
# A result on its way from `worker.py` to `results.py`

`_build_result_envelope` and `_submit_result` on all of Python's values, the text frame
between the two processes, and what the coordinator makes of it. Both run CPython; they
differ in how much of their stacks is in use. A string is never longer than
`sys.maxsize`, and `json.dumps` of what would be longer is a `MemoryError`.
-/

namespace TaskFleet.Model

open Py

/-- `sys.maxsize` -/
@[irreducible] def maxStringSize : ℕ := 2 ^ 63 - 1

/-- How deeply nested a value the functions of one process walk. -/
structure Process where
  /-- `str` and `repr` -/
  reprDepth : ℕ
  /-- `json.dumps` -/
  dumpsDepth : ℕ
  /-- `json.loads` -/
  loadsDepth : ℕ
  /-- `dataclasses.asdict` -/
  asdictDepth : ℕ
  /-- What `int` takes a character beyond ASCII for. -/
  wide : PyChar → Char

namespace Process

/-- What `validate` uses of it. -/
def interpreter (p : Process) : Interpreter where
  toFloatOps := cpython
  reprDepth := p.reprDepth
  dumpsDepth := p.dumpsDepth
  wide := p.wide

/-- `json.dumps(value, …)`, unless it raises. -/
def dumps (p : Process) (sep : Separators) (v : Wire) : Option (List Char) :=
  if v.Everywhere Wire.Spellable ∧ v.depth ≤ p.dumpsDepth ∧
    (v.text cpython sep).length ≤ maxStringSize then some (v.text cpython sep) else none

end Process

namespace Loaded

/-! ## The worker -/

/-- What a result takes from its `RunningTask`. The correlation id came with a message, so
its surrogates are joined. -/
structure RunningTask where
  taskId : Uuid
  attempt : ℕ
  sessionEpoch : ℕ
  idempotencyToken : PyStr
  correlationId : PyStr
  joined : joinPairs correlationId = correlationId

/-- The dictionary of `_build_result_envelope`, up to `truncated`. -/
def RunningTask.members (task : RunningTask) (duration : PyFloat) (result : Wire)
    (truncated : Bool) : List (PyStr × Wire) :=
  [(pyStr "task_id", .str (pyStr task.taskId.str)),
    (pyStr "status", .str (pyStr "COMPLETED")),
    (pyStr "attempt_number", .int task.attempt),
    (pyStr "session_epoch", .int task.sessionEpoch),
    (pyStr "idempotency_token", .str task.idempotencyToken),
    (pyStr "duration_seconds", .float duration.round3),
    (pyStr "result", result),
    (pyStr "truncated", .bool truncated)]

/-- `len(json.dumps(envelope, separators=(",", ":")).encode("utf-8"))` -/
def encodedSize (fields : List (PyStr × Wire)) : ℕ :=
  (String.ofList ((Wire.obj fields).text cpython .compact)).utf8ByteSize

/-- The default of `MAX_RESULT_BYTES`. -/
def defaultMaxResultBytes : Int := 128 * 1024

/-- `_build_result_envelope`, unless `json.dumps` raises. -/
def buildResultEnvelope (w : Process) (maxResultBytes : Int) (task : RunningTask) (result : Wire)
    (duration : PyFloat) : Option (List (PyStr × Wire)) :=
  (w.dumps .compact (.obj (task.members duration result false))).map fun encoded =>
    let size := (String.ofList encoded).utf8ByteSize
    if maxResultBytes < size then
      task.members duration .null true ++ [(pyStr "original_size_bytes", .int size)]
    else task.members duration result false

/-- What the message has of its own: `identity["worker_id"]` and the time. -/
structure Postmark where
  workerId : PyStr
  timestamp : PyStr
  workerId_joined : joinPairs workerId = workerId
  timestamp_joined : joinPairs timestamp = timestamp

/-- The `Envelope` of `_submit_result`, as `to_dict` returns it. -/
def RunningTask.message (task : RunningTask) (mark : Postmark) (payload : List (PyStr × Wire)) :
    Wire :=
  .obj [(pyStr "message_type", .str (pyStr "task_result")),
    (pyStr "payload", .obj payload),
    (pyStr "protocol_version", .str (pyStr "1.0")),
    (pyStr "correlation_id",
      .str (if task.correlationId.isEmpty then pyStr task.taskId.str else task.correlationId)),
    (pyStr "worker_id", .str mark.workerId),
    (pyStr "session_epoch", .int 0),
    (pyStr "timestamp", .str mark.timestamp)]

/-- `_send`: `json.dumps(envelope.to_dict())`. -/
def send (w : Process) (message : Wire) : Option (List Char) :=
  if message.depth ≤ w.asdictDepth then w.dumps .default message else none

/-! ## The coordinator -/

/-- `json.loads(raw)` and `message.get("payload")`. -/
def receive (c : Process) (frame : List Char) : Option (List (PyStr × Wire)) :=
  match loads c.loadsDepth frame with
  | some (.obj message) =>
      match Wire.get message "payload" with
      | .obj payload => some payload
      | _ => none
  | _ => none

/-- What `validate` raises. -/
inductive Failure where
  | raised (r : Raised)
  /-- `MemoryError` -/
  | memory
  deriving DecidableEq, Repr

/-- The stored dictionary. -/
def Envelope.fields (e : Envelope) : List (PyStr × Wire) :=
  e.members ++ [(pyStr "size_bytes", .int e.sizeBytes)]

end Loaded

/-- `validate` in a process. -/
def Process.validate (p : Process) (payload : List (PyStr × Wire)) (maxBytes : Int) :
    Except Loaded.Failure Loaded.Envelope :=
  match Loaded.readBody p.interpreter payload with
  | .error r => .error (.raised r)
  | .ok body =>
      if maxStringSize < body.size p.interpreter then .error .memory
      else
        match body.seal p.interpreter maxBytes with
        | .error r => .error (.raised r)
        | .ok e => .ok e

namespace Loaded

/-- What the coordinator gets of a finished task: the payload as it was sent, and what
`validate` makes of the one that arrives. `none` is an exception on the way. -/
def delivered (w c : Process) (cap : Int) (task : RunningTask) (mark : Postmark)
    (duration : PyFloat) (result : Wire) :
    Option (List (PyStr × Wire) × Except Failure Envelope) := do
  let sent ← buildResultEnvelope w cap task result duration
  let frame ← send w (task.message mark sent)
  let payload ← receive c frame
  return (sent, c.validate payload cap)

end Loaded

namespace Demo

/-- A process with a stack of the usual size. -/
def process : Process := ⟨900, 900, 900, 900, fun _ => '?'⟩

theorem joinPairs_nil : joinPairs [] = [] := rfl

theorem finishedTask_lt : 1 < 2 ^ 128 := by decide

/-- What a worker has finished. -/
def running (token : PyStr) : Loaded.RunningTask where
  taskId := ⟨1, finishedTask_lt⟩
  attempt := 0
  sessionEpoch := 1
  idempotencyToken := token
  correlationId := []
  joined := joinPairs_nil

end Demo

end TaskFleet.Model
