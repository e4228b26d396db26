import TaskFleet.Model.Tables
import Mathlib.Data.List.Sort

/-!
# `task_policies.py`: per-type settings

A statement that writes a lease resolves its numbers against the policy table
row by row: the override of the row's own type when there is one, the
default of the caller otherwise.
-/

namespace TaskFleet.Model

/-- `policy_seconds`: `COALESCE((SELECT p.column …), default)`. -/
def policySeconds (policies : TaskPolicies) (column : PolicyField) (default : Int)
    (taskType : TaskType) : Int :=
  ((policies.get? taskType).bind fun p => p.override column).getD default

/-- `max_execution_seconds`. Every registered type has a default of its own,
so the source's `ELSE :max_execution_fallback` arm is never taken. -/
def maxExecutionSeconds (policies : TaskPolicies) (taskType : TaskType) : Int :=
  policySeconds policies .maxExecutionSeconds taskType.defaultMaxExecutionSeconds taskType

/-- `max_attempts`. -/
def maxAttempts (cfg : Config) (policies : TaskPolicies) (taskType : TaskType) : Int :=
  policySeconds policies .maxAttempts cfg.taskMaxAttempts taskType

/-- Why a policy change is refused. -/
inductive PolicyError where
  | unknownTaskType (name : String)
  | outOfBounds (field : PolicyField)
  | noFields
  deriving DecidableEq, Repr

/-- `MIN_MAX_ATTEMPTS … MAX_MAX_ATTEMPTS`, or `MIN_POLICY_SECONDS … MAX_POLICY_SECONDS`. -/
def PolicyField.bounds : PolicyField → Int × Int
  | maxAttempts => (1, 100)
  | _ => (1, 86400)

/-- `validate_policy` on submitted whole numbers. A null value means "leave
this one alone" and is dropped. -/
def validatePolicy : List (PolicyField × Option Int) → Except PolicyError (List (PolicyField × Int))
  | values => do
      let cleaned ← values.filterMapM fun (field, value) =>
        match value with
        | none => .ok none
        | some number =>
            if field.bounds.1 ≤ number ∧ number ≤ field.bounds.2 then .ok (some (field, number))
            else .error (.outOfBounds field)
      if cleaned.isEmpty then .error .noFields else .ok cleaned

/-- The row `ON CONFLICT DO UPDATE` leaves: submitted columns are replaced,
the others stay. -/
def TaskPolicy.overrideWith (now : Seconds) (values : List (PolicyField × Int)) (p : TaskPolicy) :
    TaskPolicy :=
  { p with
    override := fun field => (values.lookup field).or (p.override field)
    updatedAt := now }

/-- `set_policy` behind `validate_policy`, as the operator endpoint calls them. -/
def setPolicy (db : Db) (now : Seconds) (taskType : String)
    (values : List (PolicyField × Option Int)) :
    Except PolicyError Db := do
  let cleaned ← validatePolicy values
  match TaskType.ofName taskType with
  | none => .error (.unknownTaskType taskType)
  | some t =>
      let fresh : TaskPolicy := { taskType := t, override := fun _ => none, updatedAt := now }
      .ok { db with
        policies := match db.policies.get? t with
          | none => db.policies.insert (fresh.overrideWith now cleaned)
          | some _ =>
              db.policies.updateWhere (fun p => p.taskType = t)
                (TaskPolicy.overrideWith now cleaned)
                fun _ => rfl }

/-- `clear_policy`, with whether a row was removed. -/
def clearPolicy (db : Db) (taskType : String) : Except PolicyError (Db × Bool) :=
  match TaskType.ofName taskType with
  | none => .error (.unknownTaskType taskType)
  | some t =>
      .ok ({ db with policies := db.policies.deleteWhere fun p => p.taskType = t },
        (db.policies.get? t).isSome)

/-! ## The report -/

/-- `default_policy`. The source's fallback for a type without a cap of its own
is never read: every registered type has one. -/
def defaultPolicy (cfg : Config) (taskType : TaskType) : PolicyField → Int
  | .ackTimeoutSeconds => cfg.taskAckTimeoutSeconds
  | .leaseTtlSeconds => cfg.taskLeaseTtlSeconds
  | .maxExecutionSeconds => taskType.defaultMaxExecutionSeconds
  | .maxAttempts => cfg.taskMaxAttempts

/-- Where a reported number comes from. -/
inductive PolicySource where
  | default
  | policy
  deriving DecidableEq, Repr

/-- One entry of the report. -/
structure EffectivePolicy where
  taskType : TaskType
  value : PolicyField → Int
  source : PolicyField → PolicySource
  updatedAt : Option Seconds

/-- The entry of one type: each column's override, or the default. -/
def effectivePolicy (cfg : Config) (policies : TaskPolicies) (taskType : TaskType) :
    EffectivePolicy :=
  let row := policies.get? taskType
  { taskType := taskType
    value := fun field =>
      match row.bind fun p => p.override field with
      | none => defaultPolicy cfg taskType field
      | some override => override
    source := fun field => if (row.bind fun p => p.override field).isNone then .default else .policy
    updatedAt := row.map TaskPolicy.updatedAt }

/-- `effective_policies`: the registered types in the order of their names. -/
def effectivePolicies (cfg : Config) (policies : TaskPolicies) : List EffectivePolicy :=
  (TaskType.all.insertionSort fun a b => a.name ≤ b.name).map (effectivePolicy cfg policies)

/-- The report has an entry for every type, and only the one. -/
theorem find?_effectivePolicies (cfg : Config) (policies : TaskPolicies) (taskType : TaskType) :
    (effectivePolicies cfg policies).find? (fun entry => entry.taskType = taskType) =
      some (effectivePolicy cfg policies taskType) := by
  have hsorted : (TaskType.all.insertionSort fun a b => a.name ≤ b.name) =
      [.countToN, .hashRounds, .opaquePayload, .sleep] := by
    decide
  rw [effectivePolicies, hsorted]
  cases taskType <;> rfl

/-- What a statement resolves against a default is what the report says, when
the default is the deployment's. -/
theorem policySeconds_eq_effective (cfg : Config) (policies : TaskPolicies) (column : PolicyField)
    (taskType : TaskType) :
    policySeconds policies column (defaultPolicy cfg taskType column) taskType =
      (effectivePolicy cfg policies taskType).value column := by
  simp only [policySeconds, effectivePolicy]
  split
  · next h => rw [h]; rfl
  · next override h => rw [h]; rfl

/-- Policy changes touch no other table. -/
theorem setPolicy_frame {db db' : Db} {now : Seconds} {taskType : String}
    {values : List (PolicyField × Option Int)} (h : setPolicy db now taskType values = .ok db') :
    db'.tasks = db.tasks ∧ db'.results = db.results ∧ db'.attempts = db.attempts := by
  obtain ⟨cleaned, -, h⟩ := bind_eq_ok h
  split at h
  · cases h
  · cases h
    exact ⟨rfl, rfl, rfl⟩

theorem clearPolicy_frame {db db' : Db} {taskType : String} {removed : Bool}
    (h : clearPolicy db taskType = .ok (db', removed)) :
    db'.tasks = db.tasks ∧ db'.results = db.results ∧ db'.attempts = db.attempts := by
  unfold clearPolicy at h
  split at h
  · cases h
  · cases h
    exact ⟨rfl, rfl, rfl⟩

end TaskFleet.Model
