import TaskFleet.Model.Assignment
import TaskFleet.Model.LoadedResults

/-!
# `assignment.py`: the numbers a worker declares

`parseMaxConcurrent` and `parseTasksInFlight` start from what `int()` made of a field.
Here is `int()` itself, on every value `json.loads` can put there, and which of its
exceptions the source catches.
-/

namespace TaskFleet.Model

open Py

/-- What `int(value)` raises. -/
inductive IntError where
  | typeError
  | valueError
  | overflowError
  deriving DecidableEq, Repr

/-- Decimal digits with single underscores between them; `afterDigit` says whether an
underscore or the end may come next. -/
def readDecimal (acc : ℕ) (afterDigit : Bool) : List Char → Option ℕ
  | [] => if afterDigit then some acc else none
  | c :: cs =>
      if c = '_' then (if afterDigit then readDecimal acc false cs else none)
      else if c.isDigit then readDecimal (acc * 10 + (c.toNat - 48)) true cs
      else none

/-- `int(s)` on the characters of a string; `none` is `ValueError`, which more than 4300
digits are as well. -/
def intBase10 (cs : List Char) : Option Int :=
  if 4300 < (cs.filter Char.isDigit).length then none
  else
    match strip isBlank cs with
    | '-' :: cs => (readDecimal 0 false cs).map fun n => -(n : Int)
    | '+' :: cs => (readDecimal 0 false cs).map Int.ofNat
    | cs => (readDecimal 0 false cs).map Int.ofNat

/-- `int(value)`. -/
def pyInt (it : Interpreter) : Wire → Except IntError Int
  | .bool value => .ok (if value then 1 else 0)
  | .int value => .ok value
  | .float (.finite x) => .ok (x.num.tdiv x.den)
  | .float .negZero => .ok 0
  | .float (.inf _) => .error .overflowError
  | .float .nan => .error .valueError
  | .str s =>
      match intBase10 (s.map (Loaded.ascii it)) with
      | some value => .ok value
      | none => .error .valueError
  | .null | .arr _ | .obj _ => .error .typeError

/-- `try: int(value) except (TypeError, ValueError)`, with `none` for what is caught. -/
def caughtInt (it : Interpreter) (value : Wire) : Except IntError (Option Int) :=
  match pyInt it value with
  | .ok n => .ok (some n)
  | .error .typeError | .error .valueError => .ok none
  | .error .overflowError => .error .overflowError

/-- `raw_types`, sanitised. -/
def supportedTypes : Wire → List TaskType
  | .null => TaskType.all
  | .arr items =>
      items.filterMap fun
        | .str name => TaskType.all.find? fun t => pyStr t.name = name
        | _ => none
  | _ => []

/-- `parse_capabilities`. -/
def parseCapabilities (it : Interpreter) (cfg : Config) (payload : List (PyStr × Wire)) :
    Except IntError (ℕ × List TaskType) := do
  let maxConcurrent ← caughtInt it (Wire.get payload "max_concurrent")
  return (parseMaxConcurrent cfg maxConcurrent,
    supportedTypes (Wire.get payload "supported_task_types"))

/-- `parse_tasks_in_flight`. -/
def parseDeclaredTasks (it : Interpreter) (payload : List (PyStr × Wire)) (maxConcurrent : ℕ) :
    Except IntError ℕ := do
  -- `None` is returned as 0 beforehand; `int` would refuse it, which comes to the same
  let value ← caughtInt it (Wire.get payload "tasks_in_flight")
  return parseTasksInFlight value maxConcurrent

/-- The two of them on a `hello`, as `ws_connect` calls them. -/
def parseHello (it : Interpreter) (cfg : Config) (payload : List (PyStr × Wire)) :
    Except IntError (ℕ × List TaskType × ℕ) := do
  let (maxConcurrent, supportedTaskTypes) ← parseCapabilities it cfg payload
  let tasksInFlight ← parseDeclaredTasks it payload maxConcurrent
  return (maxConcurrent, supportedTaskTypes, tasksInFlight)

/-- What `handle_capacity` takes for `freed`. -/
def readFreed (it : Interpreter) (payload : List (PyStr × Wire)) : Except IntError Int := do
  let freed ← caughtInt it ((payload.lookup (pyStr "freed")).getD (.int 1))
  return freed.getD 1

/-- An infinity, which `json.loads` reads from `Infinity` and from `1e999`. -/
def IsInfinite : Wire → Prop
  | .float (.inf _) => True
  | _ => False

/-- **What is caught.** Of all JSON values only an infinity gets past the handler. -/
theorem caughtInt_ok_iff (it : Interpreter) (value : Wire) :
    (∃ n, caughtInt it value = .ok n) ↔ ¬ IsInfinite value := by
  cases value with
  | float x =>
      cases x with
      | finite x => exact iff_of_true ⟨_, rfl⟩ id
      | inf negative =>
          refine iff_of_false ?_ fun h => h trivial
          rintro ⟨n, hn⟩
          cases hn
      | negZero | nan => exact iff_of_true ⟨_, rfl⟩ id
  | str s =>
      refine iff_of_true ?_ id
      simp only [caughtInt, pyInt]
      cases intBase10 (s.map (Loaded.ascii it)) with
      | none => exact ⟨_, rfl⟩
      | some n => exact ⟨_, rfl⟩
  | _ => exact iff_of_true ⟨_, rfl⟩ id

end TaskFleet.Model
