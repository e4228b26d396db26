import Mathlib.Data.List.Basic

/-!
# `task_states.py`: the task state machine

Every write to a task's status is checked against this table. The model keeps
the source's three answers: write, same-state no-op, and refusal.
-/

namespace TaskFleet.Model

/-- The values of `Task.status`. `reassigned` is reserved and unreachable. -/
inductive TaskState where
  | queued
  | assigned
  | running
  | completed
  | failed
  | cancelled
  | reassigned
  deriving DecidableEq, Repr

namespace TaskState

/-- `is_terminal`. -/
def isTerminal : TaskState → Bool
  | completed | failed | cancelled => true
  | _ => false

/-- `_ALLOWED`. -/
def allowed : TaskState → List TaskState
  | queued => [assigned, cancelled]
  | assigned => [running, failed, cancelled, queued]
  | running => [completed, failed, cancelled, queued]
  | completed => []
  | failed => []
  | cancelled => []
  | reassigned => []

/-- `status IN ('ASSIGNED', 'RUNNING')`, the predicate `_LIVE`. -/
def isLive : TaskState → Bool
  | assigned | running => true
  | _ => false

end TaskState

/-- `InvalidTaskTransition`. -/
structure InvalidTaskTransition where
  current : TaskState
  new : TaskState
  deriving DecidableEq, Repr

/-- `check_transition`: whether the caller should write, or why it must not. -/
def checkTransition (current new : TaskState) : Except InvalidTaskTransition Bool :=
  if current = new then .ok false
  else if new ∈ current.allowed then .ok true
  else .error ⟨current, new⟩

/-- A write is asked for exactly on the edges of the table. -/
theorem checkTransition_eq_ok_true {current new : TaskState} :
    checkTransition current new = .ok true ↔ new ∈ current.allowed := by
  cases current <;> cases new <;> decide

/-- No edge leaves a terminal state. -/
theorem allowed_of_isTerminal {s : TaskState} (h : s.isTerminal = true) : s.allowed = [] := by
  cases s <;> first | rfl | exact absurd h (by decide)

/-- `RUNNING` is entered from `ASSIGNED` only. -/
theorem running_mem_allowed {s : TaskState} : TaskState.running ∈ s.allowed ↔ s = .assigned := by
  cases s <;> decide

/-- `FAILED` is entered from the two live states. -/
theorem failed_mem_allowed {s : TaskState} : TaskState.failed ∈ s.allowed ↔ s.isLive = true := by
  cases s <;> decide

theorem TaskState.not_isTerminal_of_isLive {s : TaskState} (h : s.isLive = true) :
    s.isTerminal = false := by
  cases s <;> first | rfl | exact absurd h (by decide)

theorem TaskState.isLive_iff {s : TaskState} : s.isLive = true ↔ s = .assigned ∨ s = .running := by
  cases s <;> decide

/-- The import-time checks of `task_queue`: the claim and the reclaimer's four
moves are edges of the table. -/
example : checkTransition .queued .assigned = .ok true ∧
    checkTransition .assigned .queued = .ok true ∧
    checkTransition .running .failed = .ok true := by decide

end TaskFleet.Model
