import TaskFleet.Model.Results
import TaskFleet.Py.Wire

/-!
# `results.py` on everything `json.loads` hands over

`validate` once more, on payloads with all of Python's strings and at any depth. What
the interpreter adds is where it stops: `float(n)` overflows, and `str`, `repr` and
`json.dumps` recurse.
-/

namespace TaskFleet.Model

open Py

/-- What `validate` uses of the interpreter, at the depth of the stack it is called at. -/
structure Interpreter extends FloatOps where
  /-- How deeply nested a value `str` and `repr` spell without a `RecursionError`. -/
  reprDepth : ℕ
  /-- The same of `json.dumps`. -/
  dumpsDepth : ℕ
  /-- What `int` takes a character beyond ASCII for: a digit, a blank, or neither. -/
  wide : PyChar → Char

namespace Loaded

/-- What `validate` can raise here. -/
inductive Raised where
  | malformed (reason : RejectReason)
  /-- `OverflowError` -/
  | overflow
  /-- `RecursionError` -/
  | recursion
  deriving DecidableEq, Repr

/-- `MalformedResult` -/
def Raised.Malformed : Raised → Prop
  | .malformed _ => True
  | _ => False

/-- An idempotency token: non-empty and bounded. -/
abbrev Token := { s : PyStr // s ≠ [] ∧ s.length ≤ maxTokenChars }

/-- The envelope before its size is known. -/
structure Body where
  taskId : Uuid
  status : AcceptedStatus
  attemptNumber : ℕ
  sessionEpoch : ℕ
  idempotencyToken : Token
  durationSeconds : PyFloat
  result : Wire
  truncated : Bool
  /-- The key is there exactly when `truncated` is set. -/
  originalSizeBytes : Option ℕ

/-- The stored envelope. -/
structure Envelope extends Body where
  sizeBytes : ℕ

/-- The members of the dictionary, in their insertion order. -/
def Body.members (b : Body) : List (PyStr × Wire) :=
  [(pyStr "task_id", .str (pyStr b.taskId.str)),
    (pyStr "status", .str (pyStr b.status.val)),
    (pyStr "attempt_number", .int b.attemptNumber),
    (pyStr "session_epoch", .int b.sessionEpoch),
    (pyStr "idempotency_token", .str b.idempotencyToken.val),
    (pyStr "duration_seconds", .float b.durationSeconds),
    (pyStr "result", b.result),
    (pyStr "truncated", .bool b.truncated)] ++
    if b.truncated then
      [(pyStr "original_size_bytes",
        (b.originalSizeBytes.map fun (n : ℕ) => Wire.int n).getD .null)]
    else []

/-- What `complete_task` inserts: `json.dumps(envelope)`. -/
def Envelope.stored (it : Interpreter) (e : Envelope) : List Char :=
  (Wire.obj (e.members ++ [(pyStr "size_bytes", .int e.sizeBytes)])).text it.toFloatOps .default

/-- `str(value)`. The text of a number that is not whole, or of a container, is taken
from its encoding: it is neither a UUID nor a status. -/
def str (it : Interpreter) : Wire → Except Raised PyStr
  | .null => .ok (pyStr "None")
  | .bool true => .ok (pyStr "True")
  | .bool false => .ok (pyStr "False")
  | .str value => .ok value
  | value =>
      if it.reprDepth < value.depth then .error .recursion
      else .ok ((value.text it.toFloatOps .compact).map PyChar.ofChar)

/-- `str(payload.get(key) or "")`. -/
def getStr (it : Interpreter) (payload : List (PyStr × Wire)) (key : String) :
    Except Raised PyStr :=
  if (Wire.get payload key).truthy then str it (Wire.get payload key) else .ok []

/-- `raise MalformedResult(reason, f"… {value!r}")`. -/
def refuse {α : Type} (it : Interpreter) (value : Wire) (reason : RejectReason) : Except Raised α :=
  if it.reprDepth < value.depth then .error .recursion else .error (.malformed reason)

/-- The characters as `int` reads them. -/
def ascii (it : Interpreter) (c : PyChar) : Char :=
    if c.code < 128 then Char.ofNat c.code else it.wide c

/-- `str(uuid.UUID(raw))`, with the UUID it spells. -/
def readTaskId (it : Interpreter) (raw : PyStr) : Except Raised Uuid :=
  match Uuid.parse (String.ofList (raw.map (ascii it))) with
  | some u => .ok u
  | none => .error (.malformed .badTaskId)

def readStatus (raw : PyStr) : Except Raised AcceptedStatus :=
  match h : acceptedStatuses.find? fun s => pyStr s = raw with
  | some s => .ok ⟨s, List.mem_of_find?_eq_some h⟩
  | none => .error (.malformed .badStatus)

def readToken : Wire → Except Raised Token
  | .str s => if h : s ≠ [] ∧ s.length ≤ maxTokenChars then .ok ⟨s, h⟩ else .error
      (.malformed .missingToken)
  | _ => .error (.malformed .missingToken)

/-- A number that is not a boolean and not negative: an integer or a float. -/
def readDuration (it : Interpreter) : Wire → Except Raised (ℕ ⊕ PyFloat)
  | .int n => if n < 0 then refuse it (.int n) .badDuration else .ok (.inl n.toNat)
  | .float x => if x.isNegative then refuse it (.float x) .badDuration else .ok (.inr x)
  | value => refuse it value .badDuration

/-- `_require_int` with `minimum=0`. -/
def requireInt (it : Interpreter) (reason : RejectReason) : Wire → Except Raised ℕ
  | .int n => if n < 0 then refuse it (.int n) reason else .ok n.toNat
  | value => refuse it value reason

/-- `round(float(duration), 3)`. -/
def roundDuration (it : Interpreter) : ℕ ⊕ PyFloat → Except Raised PyFloat
  | .inl n =>
      match it.ofInt n with
      | some x => .ok (it.round3 x)
      | none => .error .overflow
  | .inr x => .ok (it.round3 x)

/-- `_optional_int`. -/
def optionalInt : Wire → Option ℕ
  | .int value => if value < 0 then none else some value.toNat
  | _ => none

/-- The checks of `validate`, in its order, up to the first `json.dumps`. -/
def readBody (it : Interpreter) (payload : List (PyStr × Wire)) : Except Raised Body := do
  let rawTaskId ← getStr it payload "task_id"
  let taskId ← readTaskId it rawTaskId
  let rawStatus ← getStr it payload "status"
  let status ← readStatus rawStatus
  let token ← readToken (Wire.get payload "idempotency_token")
  let duration ← readDuration it (Wire.get payload "duration_seconds")
  let attemptNumber ← requireInt it .badAttempt (Wire.get payload "attempt_number")
  let sessionEpoch ← requireInt it .badEpoch (Wire.get payload "session_epoch")
  let durationSeconds ← roundDuration it duration
  let truncated := (Wire.get payload "truncated").truthy
  return {
    taskId := taskId
    status := status
    attemptNumber := attemptNumber
    sessionEpoch := sessionEpoch
    idempotencyToken := token
    durationSeconds := durationSeconds
    result := Wire.get payload "result"
    truncated := truncated
    originalSizeBytes :=
      if truncated then optionalInt (Wire.get payload "original_size_bytes") else none }

/-- `len(json.dumps(envelope, separators=(",", ":")).encode("utf-8"))`. -/
def Body.size (it : Interpreter) (b : Body) : ℕ :=
  (String.ofList ((Wire.obj b.members).text it.toFloatOps .compact)).utf8ByteSize

/-- The size cap. What `json.loads` made, `json.dumps` spells without a `TypeError` or a
`ValueError`, and the second one walks no deeper than the first. -/
def Body.seal (it : Interpreter) (maxBytes : Int) (b : Body) : Except Raised Envelope :=
  if it.dumpsDepth < (Wire.obj b.members).depth then .error .recursion
  else if maxBytes < b.size it then
    let cut := { b with result := .null, truncated := true, originalSizeBytes := some (b.size it) }
    .ok { cut with sizeBytes := cut.size it }
  else .ok { b with sizeBytes := b.size it }

/-- `validate`. -/
def validate (it : Interpreter) (payload : List (PyStr × Wire)) (maxBytes : Int) :
    Except Raised Envelope := do
  let body ← readBody it payload
  body.seal it maxBytes

end Loaded

namespace Demo

/-- An interpreter that is right about whole numbers. -/
def cpython : Interpreter where
  ofInt n := if n.natAbs < 2 ^ 1024 - 2 ^ 970 then some (.finite n) else none
  round3 x := x
  repr
    | .finite x => if x = 1 then "1.0" else toString x.num
    | .negZero => "-0.0"
    | .inf negative => if negative then "-Infinity" else "Infinity"
    | .nan => "NaN"
  reprDepth := 900
  dumpsDepth := 900
  wide _ := '?'

/-- A result of the first attempt, with what a worker may put into it. -/
def loaded (token : PyStr) (duration result : Wire) : List (PyStr × Wire) :=
  [(pyStr "task_id", .str (pyStr "00000000-0000-0000-0000-000000000001")),
    (pyStr "status", .str (pyStr "COMPLETED")),
    (pyStr "attempt_number", .int 0),
    (pyStr "session_epoch", .int 1),
    (pyStr "idempotency_token", .str token),
    (pyStr "duration_seconds", duration),
    (pyStr "result", result)]

end Demo

end TaskFleet.Model
