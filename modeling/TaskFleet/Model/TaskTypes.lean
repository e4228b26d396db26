import TaskFleet.Py.Json

/-!
# `task_types.py`: the task type registry

The registry has four keys. A type arrives as text (from an operator or from
a worker's `hello`) and is looked up once; past that point it is a
`TaskType`. The schema behind each key is a pydantic model, a third-party
validator, so it is the parameter `Schemas` here.
-/

namespace TaskFleet.Model

open Py

/-- The keys of `TASK_TYPES`. -/
inductive TaskType where
  | countToN
  | hashRounds
  | sleep
  | opaquePayload
  deriving DecidableEq, Repr

namespace TaskType

/-- The key as it is stored and sent. -/
def name : TaskType → String
  | countToN => "count_to_n"
  | hashRounds => "hash_rounds"
  | sleep => "sleep"
  | opaquePayload => "opaque_payload"

/-- `tuple(TASK_TYPES)`. -/
def all : List TaskType := [countToN, hashRounds, sleep, opaquePayload]

/-- `TASK_TYPES.get(name)`. -/
def ofName (s : String) : Option TaskType := all.find? fun t => t.name = s

theorem mem_all (t : TaskType) : t ∈ all := by cases t <;> decide

@[simp] theorem ofName_name (t : TaskType) : ofName t.name = some t := by
  cases t <;> decide

theorem name_inj {t u : TaskType} (h : t.name = u.name) : t = u := by
  have := congrArg ofName h
  simpa using this

/-- `DEFAULT_MAX_EXECUTION_SECONDS`. -/
def defaultMaxExecutionSeconds : TaskType → Int
  | countToN => 300
  | hashRounds => 300
  | sleep => 3900
  | opaquePayload => 60

end TaskType

/-- What the pydantic models do with a parameter object: the normalised
object, or a validation error. -/
abbrev Schemas := TaskType → List (String × Json) → Option Json

/-- Why `validate_parameters` raises. -/
inductive ParameterError where
  | unknownTaskType (name : String)
  | invalidTaskParameters (taskType : TaskType)
  deriving DecidableEq, Repr

/-- `validate_parameters`. -/
def validateParameters (schemas : Schemas) (taskType : String)
    (parameters : Option (List (String × Json))) : Except ParameterError (TaskType × Json) :=
  match TaskType.ofName taskType with
  | none => .error (.unknownTaskType taskType)
  | some t =>
      match schemas t (parameters.getD []) with
      | none => .error (.invalidTaskParameters t)
      | some normalised => .ok (t, normalised)

end TaskFleet.Model
