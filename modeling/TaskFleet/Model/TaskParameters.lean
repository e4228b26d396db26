import TaskFleet.Model.TaskTypes
import TaskFleet.Py.Base64
import TaskFleet.Py.FloatText

/-!
# `task_types.py`: the parameter models

`validate_parameters` on everything `json.loads` hands over. Pydantic is a third-party
package: what its lax mode makes an `int` or a `float` of is a parameter, with the bounds
that the fields declare.
-/

namespace TaskFleet.Model

open Py

/-- Pydantic's numbers. -/
structure Pydantic where
  /-- `int = Field(ge=…, le=…)` -/
  int : Int → Int → Wire → Option Int
  int_bounds : ∀ {ge le v n}, int ge le v = some n → ge ≤ n ∧ n ≤ le
  /-- `float = Field(gt=…, le=…)` -/
  float : ℚ → ℚ → Wire → Option ℚ
  float_bounds : ∀ {gt le v x}, float gt le v = some x → IsDouble x ∧ gt < x ∧ x ≤ le

namespace TaskType

/-- `MAX_OPAQUE_PAYLOAD_BYTES` -/
def maxOpaquePayloadBytes : ℕ := 64 * 1024

/-- `extra="forbid"`. -/
def forbidExtra (names : List String) (fields : List (PyStr × Wire)) : Option Unit :=
  if (fields.map Prod.fst).all fun k => names.any fun name => pyStr name = k then some () else none

/-- `CountToNParams`. -/
def countToNParams (py : Pydantic) (fields : List (PyStr × Wire)) :
    Option (List (PyStr × Wire)) := do
  forbidExtra ["n"] fields
  let n ← (fields.lookup (pyStr "n")).bind (py.int 1 100000000)
  return [(pyStr "n", .int n)]

/-- `Literal["sha256", "sha512"]`. -/
def readLiteral (names : List String) : Wire → Option PyStr
  | .str value => (names.find? fun name => pyStr name = value).map pyStr
  | _ => none

/-- `algorithm: Literal["sha256", "sha512"] = "sha256"`. -/
def algorithmField : Option Wire → Option PyStr
  | some value => readLiteral ["sha256", "sha512"] value
  | none => some (pyStr "sha256")

/-- `HashRoundsParams`. -/
def hashRoundsParams (py : Pydantic) (fields : List (PyStr × Wire)) :
    Option (List (PyStr × Wire)) := do
  forbidExtra ["rounds", "algorithm"] fields
  let rounds ← (fields.lookup (pyStr "rounds")).bind (py.int 1 10000000)
  let algorithm ← algorithmField (fields.lookup (pyStr "algorithm"))
  return [(pyStr "rounds", .int rounds), (pyStr "algorithm", .str algorithm)]

/-- `SleepParams`. -/
def sleepParams (py : Pydantic) (fields : List (PyStr × Wire)) :
    Option (List (PyStr × Wire)) := do
  forbidExtra ["seconds"] fields
  let seconds ← (fields.lookup (pyStr "seconds")).bind (py.float 0 3600)
  return [(pyStr "seconds", .float (.finite seconds))]

/-- `_must_be_bounded_base64`. -/
def mustBeBoundedBase64 (value : PyStr) : Option PyStr :=
  match b64decode value with
  | some raw => if maxOpaquePayloadBytes < raw.length then none else some value
  | none => none

/-- `payload_b64: str`, with its validator. -/
def payloadField : Option Wire → Option PyStr
  | some (.str value) => mustBeBoundedBase64 value
  | _ => none

/-- `OpaquePayloadParams`. -/
def opaquePayloadParams (fields : List (PyStr × Wire)) : Option (List (PyStr × Wire)) := do
  forbidExtra ["payload_b64"] fields
  let payloadB64 ← payloadField (fields.lookup (pyStr "payload_b64"))
  return [(pyStr "payload_b64", .str payloadB64)]

/-- The model behind each key of `TASK_TYPES`, up to `model_dump`. -/
def params (py : Pydantic) : TaskType → List (PyStr × Wire) → Option (List (PyStr × Wire))
  | countToN => countToNParams py
  | hashRounds => hashRoundsParams py
  | sleep => sleepParams py
  | opaquePayload => opaquePayloadParams

end TaskType

namespace Loaded

/-- `validate_parameters`. -/
def validateParameters (py : Pydantic) (taskType : String)
    (parameters : Option (List (PyStr × Wire))) : Except ParameterError (List (PyStr × Wire)) :=
  match TaskType.ofName taskType with
  | none => .error (.unknownTaskType taskType)
  | some t =>
      match t.params py (parameters.getD []) with
      | none => .error (.invalidTaskParameters t)
      | some normalised => .ok normalised

end Loaded

end TaskFleet.Model
