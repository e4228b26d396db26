import TaskFleet.Py.Uuid
import TaskFleet.Py.Json

/-!
# `results.py`: what counts as a result

`validate` turns the payload of a `task_result` message into the envelope
that is stored. The envelope's type carries what validation established: a
canonical task id, an accepted status, a bounded token, natural numbers for
the attempt and the epoch. So nothing past this point re-checks them.

The human-readable details of a rejection are left out: they reach only a log
line. The reason codes are kept, because the acknowledgement carries them.
-/

namespace TaskFleet.Model

open Py

/-- `ACCEPTED_STATUSES`. -/
def acceptedStatuses : List String := ["COMPLETED"]

/-- `MAX_TOKEN_CHARS`. -/
def maxTokenChars : Nat := 128

/-- A status `validate` lets through. -/
abbrev AcceptedStatus := { s : String // s ∈ acceptedStatuses }

theorem completed_accepted : "COMPLETED" ∈ acceptedStatuses := List.mem_singleton_self _

/-- An idempotency token: non-empty and bounded. -/
abbrev Token := { s : String // s ≠ "" ∧ s.length ≤ maxTokenChars }

/-- The reason codes of `MalformedResult`. -/
inductive RejectReason where
  | badTaskId
  | badStatus
  | missingToken
  | badDuration
  | badAttempt
  | badEpoch
  | unserialisable
  deriving DecidableEq, Repr

/-- The code as the acknowledgement spells it. -/
def RejectReason.code : RejectReason → String
  | badTaskId => "bad_task_id"
  | badStatus => "bad_status"
  | missingToken => "missing_idempotency_token"
  | badDuration => "bad_duration"
  | badAttempt => "bad_attempt_number"
  | badEpoch => "bad_session_epoch"
  | unserialisable => "unserialisable_result"

/-- What `validate` can raise. `overflow` is the `OverflowError` of
`float(duration)`, which no caller catches. -/
inductive ValidateError where
  | malformed (reason : RejectReason)
  | overflow
  deriving DecidableEq, Repr

/-- The envelope before its size is known. -/
structure Body where
  taskId : String
  taskId_canonical : ∃ u : Uuid, taskId = u.str
  status : AcceptedStatus
  attemptNumber : Nat
  sessionEpoch : Nat
  idempotencyToken : Token
  durationSeconds : PyFloat
  result : Json
  truncated : Bool
  /-- The key is there exactly when `truncated` is set. -/
  originalSizeBytes : Option Nat

/-- The stored envelope. -/
structure Envelope extends Body where
  sizeBytes : Nat

/-- The members of the dictionary, in their insertion order. -/
def Body.members (b : Body) : List (String × Json) :=
  [("task_id", .str b.taskId),
    ("status", .str b.status.val),
    ("attempt_number", .int b.attemptNumber),
    ("session_epoch", .int b.sessionEpoch),
    ("idempotency_token", .str b.idempotencyToken.val),
    ("duration_seconds", .float b.durationSeconds),
    ("result", b.result),
    ("truncated", .bool b.truncated)] ++
    if b.truncated then
      [("original_size_bytes", (b.originalSizeBytes.map fun n => Json.int n).getD .null)]
    else []

/-- The dictionary `validate` serialises. -/
def Body.toJson (b : Body) : Json := .obj b.members

/-- What `complete_task` serialises. -/
def Envelope.toJson (e : Envelope) : Json :=
  .obj (e.members ++ [("size_bytes", .int e.sizeBytes)])

/-- Whether `CAST(:payload AS jsonb)` takes the envelope. `validate` lets a number that is
not finite through, and a NUL, and `json.dumps` writes both. -/
def Envelope.storable (e : Envelope) : Bool := e.toJson.storable

/-- `_optional_int`. -/
def optionalInt : Json → Option Nat
  | .int value => if value < 0 then none else some value.toNat
  | _ => none

/-- `_require_int` with `minimum=0`. -/
def requireInt (payload : List (String × Json)) (key : String) (reason : RejectReason) :
    Except ValidateError Nat :=
  match Json.get payload key with
  | .int value => if value < 0 then .error (.malformed reason) else .ok value.toNat
  | _ => .error (.malformed reason)

/-- `str(uuid.UUID(raw))`, with the UUID it spells. -/
def readTaskId (raw : String) : Except ValidateError Uuid :=
  match Uuid.parse raw with
  | some u => .ok u
  | none => .error (.malformed .badTaskId)

def readStatus (raw : String) : Except ValidateError AcceptedStatus :=
  if h : raw ∈ acceptedStatuses then .ok ⟨raw, h⟩ else .error (.malformed .badStatus)

def readToken : Json → Except ValidateError Token
  | .str s =>
      if h : s ≠ "" ∧ s.length ≤ maxTokenChars then .ok ⟨s, h⟩
      else .error (.malformed .missingToken)
  | _ => .error (.malformed .missingToken)

/-- A number that is not a boolean and not negative: an integer or a float. -/
def readDuration : Json → Except ValidateError (Int ⊕ PyFloat)
  | .int n => if n < 0 then .error (.malformed .badDuration) else .ok (.inl n)
  | .float x => if x.isNegative then .error (.malformed .badDuration) else .ok (.inr x)
  | _ => .error (.malformed .badDuration)

/-- `round(float(duration), 3)`. -/
def roundDuration (fl : FloatOps) : Int ⊕ PyFloat → Except ValidateError PyFloat
  | .inl n =>
      match fl.ofInt n with
      | some x => .ok (fl.round3 x)
      | none => .error .overflow
  | .inr x => .ok (fl.round3 x)

/-- The checks of `validate`, in its order, up to the first `json.dumps`. -/
def readBody (fl : FloatOps) (payload : List (String × Json)) : Except ValidateError Body := do
  let u ← readTaskId (Json.getStr fl payload "task_id")
  let status ← readStatus (Json.getStr fl payload "status")
  let token ← readToken (Json.get payload "idempotency_token")
  let duration ← readDuration (Json.get payload "duration_seconds")
  let attemptNumber ← requireInt payload "attempt_number" .badAttempt
  let sessionEpoch ← requireInt payload "session_epoch" .badEpoch
  let durationSeconds ← roundDuration fl duration
  let truncated := (Json.get payload "truncated").truthy
  return {
    taskId := u.str
    taskId_canonical := ⟨u, rfl⟩
    status := status
    attemptNumber := attemptNumber
    sessionEpoch := sessionEpoch
    idempotencyToken := token
    durationSeconds := durationSeconds
    result := Json.get payload "result"
    truncated := truncated
    originalSizeBytes :=
      if truncated then optionalInt (Json.get payload "original_size_bytes") else none }

/-- The size cap: an oversize body is dropped and its size remembered. -/
def Body.seal (fl : FloatOps) (maxBytes : Int) (b : Body) : Except ValidateError Envelope :=
  if b.toJson.encodable = false then .error (.malformed .unserialisable)
  else
    let size := (Json.dumps fl b.toJson).utf8ByteSize
    if maxBytes < size then
      let cut := { b with result := .null, truncated := true, originalSizeBytes := some size }
      .ok { cut with sizeBytes := (Json.dumps fl cut.toJson).utf8ByteSize }
    else .ok { b with sizeBytes := size }

/-- `validate`. -/
def validate (fl : FloatOps) (payload : List (String × Json)) (maxBytes : Int) :
    Except ValidateError Envelope := do
  let body ← readBody fl payload
  body.seal fl maxBytes

/-! ## What an accepted envelope says about its payload -/

/-- The UUID an envelope names. -/
theorem Body.exists_taskId (b : Body) : ∃ u : Uuid, b.taskId = u.str ∧
    Uuid.parse b.taskId = some u := by
  obtain ⟨u, hu⟩ := b.taskId_canonical
  exact ⟨u, hu, by rw [hu, Uuid.parse_str]⟩

theorem Body.taskId_ne_empty (b : Body) : b.taskId ≠ "" := by
  obtain ⟨u, hu⟩ := b.taskId_canonical
  rw [hu]
  exact Uuid.str_ne_empty u

/-- An envelope's task id is the canonical spelling of what it parses to. -/
theorem Body.taskId_of_parse {b : Body} {u : Uuid} (h : Uuid.parse b.taskId = some u) :
    b.taskId = u.str := by
  obtain ⟨v, hv⟩ := b.taskId_canonical
  rw [hv, Uuid.parse_str, Option.some.injEq] at h
  rw [hv, h]

theorem requireInt_eq_ok {payload : List (String × Json)} {key : String} {reason : RejectReason}
    {n : Nat} (h : requireInt payload key reason = .ok n) : Json.get payload key = .int n := by
  unfold requireInt at h
  split at h
  · next value hv =>
      split at h
      · cases h
      · cases h
        rw [hv]
        congr 1
        omega
  · cases h

theorem readToken_eq_ok {x : Json} {token : Token} (h : readToken x = .ok token) :
    x = .str token.val := by
  unfold readToken at h
  split at h
  · split at h
    · cases h
      rfl
    · cases h
  · cases h

/-- The part of the payload the queue decides on is in the envelope as the
worker sent it. -/
structure Reads (fl : FloatOps) (payload : List (String × Json)) (b : Body) : Prop where
  taskId : ∃ u : Uuid, Uuid.parse (Json.getStr fl payload "task_id") = some u ∧ b.taskId = u.str
  token : Json.get payload "idempotency_token" = .str b.idempotencyToken.val
  attempt : Json.get payload "attempt_number" = .int b.attemptNumber
  epoch : Json.get payload "session_epoch" = .int b.sessionEpoch

/-- A sequence of checks succeeds only by its first one succeeding. -/
theorem bind_eq_ok {ε α β : Type} {x : Except ε α} {f : α → Except ε β} {b : β}
    (h : x >>= f = .ok b) : ∃ a, x = .ok a ∧ f a = .ok b := by
  cases x with
  | error e => cases h
  | ok a => exact ⟨a, rfl, h⟩

theorem readTaskId_eq_ok {raw : String} {u : Uuid} (h : readTaskId raw = .ok u) :
    Uuid.parse raw = some u := by
  unfold readTaskId at h
  split at h
  · next hp => cases h; exact hp
  · cases h

theorem readBody_reads {fl : FloatOps} {payload : List (String × Json)} {b : Body}
    (h : readBody fl payload = .ok b) : Reads fl payload b := by
  obtain ⟨u, hu, h⟩ := bind_eq_ok h
  obtain ⟨status, -, h⟩ := bind_eq_ok h
  obtain ⟨token, htoken, h⟩ := bind_eq_ok h
  obtain ⟨duration, -, h⟩ := bind_eq_ok h
  obtain ⟨attempt, hattempt, h⟩ := bind_eq_ok h
  obtain ⟨epoch, hepoch, h⟩ := bind_eq_ok h
  obtain ⟨seconds, -, h⟩ := bind_eq_ok h
  simp only [pure, Except.pure, Except.ok.injEq] at h
  subst h
  exact ⟨⟨u, readTaskId_eq_ok hu, rfl⟩, readToken_eq_ok htoken, requireInt_eq_ok hattempt,
    requireInt_eq_ok hepoch⟩

/-- Sealing changes the body at most in its result and its truncation marks. -/
theorem Body.seal_reads {fl : FloatOps} {payload : List (String × Json)} {maxBytes : Int}
    {b : Body} {e : Envelope} (hb : Reads fl payload b) (h : b.seal fl maxBytes = .ok e) :
    Reads fl payload e.toBody := by
  simp only [Body.seal] at h
  split at h
  · cases h
  · split at h
    · cases h
      exact ⟨hb.taskId, hb.token, hb.attempt, hb.epoch⟩
    · cases h
      exact hb

/-- An accepted envelope carries the task, the token, the attempt and the
epoch of its payload. -/
theorem validate_reads {fl : FloatOps} {payload : List (String × Json)} {maxBytes : Int}
    {e : Envelope} (h : validate fl payload maxBytes = .ok e) : Reads fl payload e.toBody := by
  obtain ⟨b, hb, h⟩ := bind_eq_ok h
  exact Body.seal_reads (readBody_reads hb) h

end TaskFleet.Model
