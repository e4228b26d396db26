import TaskFleet.Lib.Chunks
import TaskFleet.Py.Base64
import TaskFleet.Py.FloatText

/-!
# `executors.py`: the workloads

What an executor computes from its parameters, with what its thread shares with the
event loop as arguments and results: `cancel i` is what its `i`th look at the cancel
event finds (without an event, never anything), and the reports are the fractions that
`progress[0]` is given, before they are rounded to floats. `fuel` bounds the looks, and
`none` is an executor that is not done after so many. `rounds` are those of the
workload: what has been counted, hashed, slept or decoded.
-/

namespace TaskFleet.Model

open Py StrictJson

/-- What an executor raises, other than `ExecutionCancelled`. -/
inductive ExecutorError where
  | unsupportedTaskType
  | invalidExecutionParameters
  /-- `OverflowError` of `float(value)` -/
  | overflow
  deriving DecidableEq, Repr

/-- An executor's run. -/
abbrev Execution := Except ExecutorError (Option (Chunks.Outcome Wire))

/-- The names `hashlib.new` is given. -/
inductive HashAlgorithm where
  | sha256
  | sha512
  deriving DecidableEq, Repr

/-- The bytes of a digest. -/
def HashAlgorithm.digestSize : HashAlgorithm → ℕ
  | sha256 => 32
  | sha512 => 64

/-- What `time.monotonic()` returns, one reading after the other: it does not go back. -/
structure MonotonicClock where
  read : ℕ → ℚ
  double : ∀ i, IsDouble (read i)
  monotone : Monotone read

namespace Executors

/-- `HASH_CHUNK_ROUNDS` -/
def hashChunkRounds : ℕ := 100000

/-- `COUNT_CHUNK` -/
def countChunk : ℕ := 1000000

/-- `_require_int`. -/
def requireInt (parameters : List (PyStr × Wire)) (key : String) : Except ExecutorError ℕ :=
  match Wire.get parameters key with
  | .int value => if value < 1 then .error .invalidExecutionParameters else .ok value.toNat
  | _ => .error .invalidExecutionParameters

/-- `run_count_to_n`. -/
def runCountToN (countChunk fuel : ℕ) (parameters : List (PyStr × Wire)) (cancel : ℕ → Bool) :
    Execution := do
  let n ← requireInt parameters "n"
  return (Chunks.loop (· + 1) countChunk n cancel fuel 0 0 0).map
    (Chunks.Outcome.map fun (total : ℕ) => .int total)

/-- `parameters.get("algorithm", "sha256")` and the check of it. -/
def readAlgorithm (parameters : List (PyStr × Wire)) : Except ExecutorError HashAlgorithm :=
  match parameters.lookup (pyStr "algorithm") with
  | none => .ok .sha256
  | some (.str name) =>
      if name = pyStr "sha256" then .ok .sha256
      else if name = pyStr "sha512" then .ok .sha512
      else .error .invalidExecutionParameters
  | some _ => .error .invalidExecutionParameters

/-- `digest.hex()` -/
def hex (digest : List UInt8) : PyStr :=
  digest.flatMap fun byte =>
    [.ofChar (hexDigit (byte.toNat / 16)), .ofChar (hexDigit (byte.toNat % 16))]

/-- The fixed seed: 32 zero bytes. -/
def seed : List UInt8 := List.replicate 32 0

/-- `run_hash_rounds`, with `hash` for `hashlib.new(algorithm, digest).digest()`. -/
def runHashRounds (hash : HashAlgorithm → List UInt8 → List UInt8) (hashChunkRounds fuel : ℕ)
    (parameters : List (PyStr × Wire)) (cancel : ℕ → Bool) : Execution := do
  let rounds ← requireInt parameters "rounds"
  let algorithm ← readAlgorithm parameters
  return (Chunks.loop (hash algorithm) hashChunkRounds rounds cancel fuel 0 0 seed).map
    (Chunks.Outcome.map fun digest => .str (hex digest))

/-- `_require_number`. -/
def requireNumber (parameters : List (PyStr × Wire)) (key : String) :
    Except ExecutorError PyFloat :=
  match Wire.get parameters key with
  | .int value =>
      if value ≤ 0 then .error .invalidExecutionParameters
      else
        match PyFloat.ofInt value with
        | some x => .ok x
        | none => .error .overflow
  | .float x => if x.le (.finite 0) then .error .invalidExecutionParameters else .ok x
  | _ => .error .invalidExecutionParameters

/-- `time.monotonic() - started`, for the `i`th reading; the first one is `started`. -/
def elapsed (clock : MonotonicClock) (i : ℕ) : PyFloat :=
  (PyFloat.finite (clock.read i)).sub (.finite (clock.read 0))

/-- `min(1.0, elapsed / seconds)`, where `seconds` is not negative. -/
def sleepFraction : PyFloat → PyFloat → ℚ
  | .finite elapsed, .finite seconds => min 1 (elapsed / seconds)
  | .finite _, .inf _ | .negZero, .finite _ | .negZero, .inf _ => 0
  | _, _ => 1

/-- The loop of `run_sleep` in front of its look `i`. How long `time.sleep` takes is up to
the clock. -/
def sleepLoop (clock : MonotonicClock) (seconds : PyFloat) (cancel : ℕ → Bool) :
    ℕ → ℕ → Option (Chunks.Outcome Wire)
  | 0, _ => none
  | fuel + 1, i =>
      if cancel i then some ⟨.cancelled, [], i⟩
      else if (seconds.sub (elapsed clock (2 * i + 1))).le (.finite 0) then
        some ⟨.returned (.float (elapsed clock (2 * i + 2)).round3), [1], i⟩
      else
        (sleepLoop clock seconds cancel fuel (i + 1)).map fun o =>
          { o with reported := sleepFraction (elapsed clock (2 * i + 2)) seconds :: o.reported }

/-- `run_sleep`. -/
def runSleep (clock : MonotonicClock) (fuel : ℕ) (parameters : List (PyStr × Wire))
    (cancel : ℕ → Bool) : Execution := do
  let seconds ← requireNumber parameters "seconds"
  return sleepLoop clock seconds cancel fuel 0

/-- `MAX_OPAQUE_PAYLOAD_BYTES` -/
def maxOpaquePayloadBytes : ℕ := 64 * 1024

/-- `run_opaque_payload`. -/
def runOpaquePayload (parameters : List (PyStr × Wire)) (cancel : ℕ → Bool) : Execution :=
  match Wire.get parameters "payload_b64" with
  | .str rawB64 =>
      if cancel 0 then .ok (some ⟨.cancelled, [], 0⟩)
      else
        match b64decode rawB64 with
        | none => .error .invalidExecutionParameters
        | some raw =>
            if maxOpaquePayloadBytes < raw.length then .error .invalidExecutionParameters
            else .ok (some ⟨.returned (.str (b64encode raw)), [1], 1⟩)
  | _ => .error .invalidExecutionParameters

/-- `EXECUTORS`. -/
def executors (hash : HashAlgorithm → List UInt8 → List UInt8) (clock : MonotonicClock)
    (fuel : ℕ) : List (String × (List (PyStr × Wire) → (ℕ → Bool) → Execution)) :=
  [("count_to_n", runCountToN countChunk fuel),
    ("hash_rounds", runHashRounds hash hashChunkRounds fuel),
    ("sleep", runSleep clock fuel),
    ("opaque_payload", runOpaquePayload)]

/-- `execute`. -/
def execute (hash : HashAlgorithm → List UInt8 → List UInt8) (clock : MonotonicClock) (fuel : ℕ)
    (taskType : String) (parameters : Option (List (PyStr × Wire))) (cancel : ℕ → Bool) :
    Execution :=
  match (executors hash clock fuel).lookup taskType with
  | some executor => executor (parameters.getD []) cancel
  | none => .error .unsupportedTaskType

/-- A positive integer passes. -/
theorem requireInt_of_get {parameters : List (PyStr × Wire)} {key : String} {n : ℕ} (hn : 1 ≤ n)
    (h : Wire.get parameters key = .int n) : requireInt parameters key = .ok n := by
  have hpos : ¬ ((n : ℤ) < 1) := by omega
  rw [requireInt, h]
  simp only [if_neg hpos, Int.toNat_natCast]

end Executors

end TaskFleet.Model
