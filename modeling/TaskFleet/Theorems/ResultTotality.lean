import TaskFleet.Model.LoadedResults

/-!
# What `validate` raises

Its contract is `MalformedResult` and never anything else, because its caller holds a
transaction and catches nothing else. It keeps to it but for the two things the
interpreter may refuse in the middle of a check: to make a float of an integer that is
too large for one, and to walk a value that is nested too deeply
(`validate_total_iff`).
-/

namespace TaskFleet.Model

open Py

namespace Loaded

variable {it : Interpreter} {payload : List (PyStr × Wire)} {maxBytes : Int} {α β : Type}

/-- The computation ends in an exception that is no `MalformedResult`. -/
def Escapes (x : Except Raised α) : Prop := ∃ r, x = .error r ∧ ¬ r.Malformed

/-! ## The conditions -/

/-- `repr` gives up on the value. -/
def TooDeep (it : Interpreter) (v : Wire) : Prop := it.reprDepth < v.depth

/-- `float` gives up on it. -/
def TooLarge (it : Interpreter) : Wire → Prop
  | .int n => it.ofInt n.toNat = none
  | _ => False

/-- A number of at least zero, and no boolean. -/
def IsDuration : Wire → Prop
  | .int n => 0 ≤ n
  | .float x => x.isNegative = false
  | _ => False

/-- An integer of at least zero. -/
def IsCount : Wire → Prop
  | .int n => 0 ≤ n
  | _ => False

/-- A text of at least one character and at most the bound. -/
def IsToken : Wire → Prop
  | .str s => s ≠ [] ∧ s.length ≤ maxTokenChars
  | _ => False

/-- `str(payload.get(key) or "")` is the spelling of a UUID. -/
def IsTaskId (it : Interpreter) (payload : List (PyStr × Wire)) : Prop :=
  ∃ u, (getStr it payload "task_id" >>= readTaskId it) = .ok u

/-- It is an accepted status. -/
def IsStatus (it : Interpreter) (payload : List (PyStr × Wire)) : Prop :=
  ∃ status, (getStr it payload "status" >>= readStatus) = .ok status

/-- **The condition.** Among the fields that are looked at, which is up to the first bad
one, one is too deep to be spelled; or all are good and the duration is too large, or the
result too deep. -/
def Refuses (it : Interpreter) (payload : List (PyStr × Wire)) : Prop :=
  let field := Wire.get payload
  (field "task_id").truthy = true ∧ TooDeep it (field "task_id") ∨ IsTaskId it payload ∧
    ((field "status").truthy = true ∧ TooDeep it (field "status") ∨
      IsStatus it payload ∧ IsToken (field "idempotency_token") ∧
        (TooDeep it (field "duration_seconds") ∨ IsDuration (field "duration_seconds") ∧
          (TooDeep it (field "attempt_number") ∨ IsCount (field "attempt_number") ∧
            (TooDeep it (field "session_epoch") ∨ IsCount (field "session_epoch") ∧
              (TooLarge it (field "duration_seconds") ∨
                it.dumpsDepth < (field "result").depth + 1)))))

/-! ## One check after the other -/

/-- **One check, and what comes after it.** It escapes on `D` and passes on `G`, and what
comes after escapes on `E`. -/
theorem escapes_step {x : Except Raised α} {f : α → Except Raised β} {D G E : Prop}
    (hD : Escapes x ↔ D)
    (hG : (∃ a, x = .ok a) ↔ G) (hE : ∀ a, x = .ok a → (Escapes (f a) ↔ E)) :
    Escapes (x >>= f) ↔ D ∨ G ∧ E := by
  rw [← hD, ← hG]
  cases x with
  | error r =>
      show Escapes (.error r : Except Raised β) ↔ _
      simp [Escapes]
  | ok a =>
      show Escapes (f a) ↔ _
      rw [hE a rfl]
      simp [Escapes]

/-- A check that keeps to the contract. -/
theorem escapes_step_of_not {x : Except Raised α} {f : α → Except Raised β} {G E : Prop}
    (hx : ¬ Escapes x)
    (hG : (∃ a, x = .ok a) ↔ G) (hE : ∀ a, x = .ok a → (Escapes (f a) ↔ E)) :
    Escapes (x >>= f) ↔ G ∧ E := by
  rw [escapes_step (iff_false_intro hx) hG hE, false_or]

theorem not_escapes_ok (a : α) : ¬ Escapes (.ok a) := by
  rintro ⟨r, hr, -⟩
  cases hr

theorem not_escapes_malformed (reason : RejectReason) :
    ¬ Escapes (.error (.malformed reason) : Except Raised α) := by
  rintro ⟨r, hr, h⟩
  cases hr
  exact h trivial

theorem escapes_recursion : Escapes (.error .recursion : Except Raised α) := ⟨_, rfl, id⟩

theorem escapes_refuse {v : Wire} {reason : RejectReason} :
    Escapes (refuse it v reason : Except Raised α) ↔ TooDeep it v := by
  unfold refuse TooDeep
  split
  · next h => exact iff_of_true escapes_recursion h
  · next h => exact iff_of_false (not_escapes_malformed reason) h

theorem escapes_str {v : Wire} : Escapes (str it v) ↔ TooDeep it v := by
  have hflat : ∀ {w : Wire} {s : PyStr}, w.depth = 0 →
      (Escapes (.ok s : Except Raised PyStr) ↔ TooDeep it w) := by
    intro w s hw
    refine iff_of_false (not_escapes_ok s) ?_
    rw [TooDeep, hw]
    exact Nat.not_lt_zero _
  unfold str
  split
  · exact hflat rfl
  · exact hflat rfl
  · exact hflat rfl
  · exact hflat rfl
  · split
    · next h => exact iff_of_true escapes_recursion h
    · next h => exact iff_of_false (not_escapes_ok _) h

theorem escapes_getStr (key : String) : Escapes (getStr it payload key) ↔
    (Wire.get payload key).truthy = true ∧ TooDeep it (Wire.get payload key) := by
  unfold getStr
  split
  · next h => rw [escapes_str, and_iff_right h]
  · next h => exact iff_of_false (not_escapes_ok _) fun hdeep => h hdeep.1

theorem not_escapes_readTaskId (raw : PyStr) : ¬ Escapes (readTaskId it raw) := by
  unfold readTaskId
  split
  · exact not_escapes_ok _
  · exact not_escapes_malformed _

theorem not_escapes_readStatus (raw : PyStr) : ¬ Escapes (readStatus raw) := by
  unfold readStatus
  split
  · exact not_escapes_ok _
  · exact not_escapes_malformed _

/-- Reading the text of a field escapes where its spelling does. -/
theorem escapes_read {read : PyStr → Except Raised α} (hread : ∀ raw, ¬ Escapes (read raw))
    (key : String) :
    Escapes (getStr it payload key >>= read) ↔
      (Wire.get payload key).truthy = true ∧ TooDeep it (Wire.get payload key) := by
  rw [escapes_step (escapes_getStr key) Iff.rfl fun raw _ => iff_false_intro (hread raw),
    and_false, or_false]

theorem readToken_ok_iff (v : Wire) : (∃ token, readToken v = .ok token) ↔ IsToken v := by
  cases v with
  | str s =>
      by_cases h : s ≠ [] ∧ s.length ≤ maxTokenChars
      · exact iff_of_true ⟨_, dif_pos h⟩ h
      · have hread : readToken (.str s) = .error (.malformed .missingToken) := dif_neg h
        exact iff_of_false (by simp [hread]) h
  | _ => exact iff_of_false (by simp [readToken]) id

theorem not_escapes_readToken (v : Wire) : ¬ Escapes (readToken v) := by
  unfold readToken
  split
  · split
    · exact not_escapes_ok _
    · exact not_escapes_malformed _
  · exact not_escapes_malformed _

/-- What a check of one value does that says `got {value!r}` when it refuses. -/
structure Checks (it : Interpreter) (check : Wire → Except Raised α)
    (good : Wire → Prop) : Prop where
  escapes : ∀ v, Escapes (check v) ↔ TooDeep it v
  passes : ∀ v, (∃ a, check v = .ok a) ↔ good v

theorem checks_of {check : Wire → Except Raised α} {good : Wire → Prop} (reason : RejectReason)
    (hflat : ∀ v, good v → v.depth = 0) (hgood : ∀ v, good v → ∃ a, check v = .ok a)
    (hbad : ∀ v, ¬ good v → check v = refuse it v reason) : Checks it check good := by
  constructor
  · intro v
    by_cases h : good v
    · obtain ⟨a, ha⟩ := hgood v h
      rw [ha]
      refine iff_of_false (not_escapes_ok a) ?_
      rw [TooDeep, hflat v h]
      exact Nat.not_lt_zero _
    · rw [hbad v h, escapes_refuse]
  · intro v
    by_cases h : good v
    · exact iff_of_true (hgood v h) h
    · refine iff_of_false ?_ h
      rw [hbad v h]
      rintro ⟨a, ha⟩
      unfold refuse at ha
      split at ha <;> cases ha

theorem readDuration_checks : Checks it (readDuration it) IsDuration := by
  refine checks_of .badDuration (fun v h => ?_) (fun v h => ?_) fun v h => ?_
  · cases v with
    | int n => rfl
    | float x => rfl
    | _ => exact absurd h id
  · cases v with
    | int n => exact ⟨_, if_neg (not_lt.mpr h)⟩
    | float x =>
        have hx : x.isNegative = false := h
        exact ⟨_, if_neg (by simp [hx])⟩
    | _ => exact absurd h id
  · cases v with
    | int n => exact if_pos (not_le.mp h)
    | float x => exact if_pos (Bool.of_not_eq_false h)
    | _ => rfl

theorem requireInt_checks (reason : RejectReason) : Checks it (requireInt it reason) IsCount := by
  refine checks_of reason (fun v h => ?_) (fun v h => ?_) fun v h => ?_
  · cases v with
    | int n => rfl
    | _ => exact absurd h id
  · cases v with
    | int n => exact ⟨_, if_neg (not_lt.mpr h)⟩
    | _ => exact absurd h id
  · cases v with
    | int n => exact if_pos (not_le.mp h)
    | _ => rfl

/-- The one conversion that is outside of every handler. -/
theorem roundDuration_large {v : Wire} {d : ℕ ⊕ PyFloat} (h : readDuration it v = .ok d) :
    (Escapes (roundDuration it d) ↔ TooLarge it v) ∧
    ((∃ x, roundDuration it d = .ok x) ↔ ¬ TooLarge it v) := by
  have hgood : IsDuration v := (readDuration_checks.passes v).mp ⟨d, h⟩
  cases v with
  | int n =>
      rw [readDuration, if_neg (not_lt.mpr hgood)] at h
      cases h
      show (Escapes (roundDuration it (.inl n.toNat)) ↔ it.ofInt n.toNat = none) ∧ _
      have hlarge : TooLarge it (.int n) ↔ it.ofInt n.toNat = none := Iff.rfl
      rw [hlarge, roundDuration]
      cases hn : it.ofInt n.toNat with
      | none =>
          have hover : Escapes (.error .overflow : Except Raised PyFloat) := ⟨_, rfl, id⟩
          exact ⟨iff_of_true hover rfl, iff_of_false (by simp) (by simp)⟩
      | some x => exact ⟨iff_of_false (not_escapes_ok _) (by simp), iff_of_true ⟨_, rfl⟩ (by simp)⟩
  | float x =>
      have hx : x.isNegative = false := hgood
      rw [readDuration, if_neg (by simp [hx])] at h
      cases h
      exact ⟨iff_of_false (not_escapes_ok _) id, iff_of_true ⟨_, rfl⟩ id⟩
  | _ => exact absurd hgood id

/-- The result is the only member that is nested. -/
theorem depth_members (b : Body) : (Wire.obj b.members).depth = b.result.depth + 1 := by
  have hsize : ((b.originalSizeBytes.map fun (n : ℕ) => Wire.int n).getD .null).depth = 0 := by
    cases b.originalSizeBytes <;> rfl
  unfold Body.members
  cases b.truncated
  · simp [Wire.depth, Wire.depthFields]
  · simp [Wire.depth, Wire.depthFields, hsize]

theorem escapes_seal {b : Body} {result : Wire} (hresult : b.result = result) :
    Escapes (b.seal it maxBytes) ↔ it.dumpsDepth < result.depth + 1 := by
  unfold Body.seal
  rw [depth_members, hresult]
  split
  · next h => exact iff_of_true escapes_recursion h
  · next h =>
      refine iff_of_false ?_ h
      split
      · exact not_escapes_ok _
      · exact not_escapes_ok _

/-! ## All of them -/

theorem validate_eq : validate it payload maxBytes =
    (getStr it payload "task_id" >>= readTaskId it) >>= fun taskId =>
    (getStr it payload "status" >>= readStatus) >>= fun status =>
    readToken (Wire.get payload "idempotency_token") >>= fun token =>
    readDuration it (Wire.get payload "duration_seconds") >>= fun duration =>
    requireInt it .badAttempt (Wire.get payload "attempt_number") >>= fun attemptNumber =>
    requireInt it .badEpoch (Wire.get payload "session_epoch") >>= fun sessionEpoch =>
    roundDuration it duration >>= fun durationSeconds =>
    Body.seal it maxBytes
      { taskId := taskId
        status := status
        attemptNumber := attemptNumber
        sessionEpoch := sessionEpoch
        idempotencyToken := token
        durationSeconds := durationSeconds
        result := Wire.get payload "result"
        truncated := (Wire.get payload "truncated").truthy
        originalSizeBytes :=
          if (Wire.get payload "truncated").truthy then
            optionalInt (Wire.get payload "original_size_bytes")
          else none } := by
  simp only [validate, readBody, bind_assoc, pure_bind]

theorem escapes_validate_iff : Escapes (validate it payload maxBytes) ↔ Refuses it payload := by
  rw [validate_eq]
  refine escapes_step (escapes_read not_escapes_readTaskId _) Iff.rfl fun taskId _ => ?_
  refine escapes_step (escapes_read not_escapes_readStatus _) Iff.rfl fun status _ => ?_
  refine escapes_step_of_not (not_escapes_readToken _) (readToken_ok_iff _) fun token _ => ?_
  refine escapes_step (readDuration_checks.escapes _) (readDuration_checks.passes _)
    fun duration hread => ?_
  refine escapes_step ((requireInt_checks _).escapes _) ((requireInt_checks _).passes _)
    fun attemptNumber _ => ?_
  refine escapes_step ((requireInt_checks _).escapes _) ((requireInt_checks _).passes _)
    fun sessionEpoch _ => ?_
  obtain ⟨hlarge, hround⟩ := roundDuration_large hread
  have hlast : ∀ {b : Body}, b.result = Wire.get payload "result" →
      (Escapes (b.seal it maxBytes) ↔ it.dumpsDepth < (Wire.get payload "result").depth + 1) :=
        escapes_seal
  rw [escapes_step hlarge hround fun durationSeconds _ => hlast rfl]
  tauto

/-- **What `validate` raises.** It returns an envelope or raises `MalformedResult`,
exactly if the interpreter refuses it nothing. -/
theorem validate_total_iff :
    ((∃ e, validate it payload maxBytes = .ok e) ∨ ∃ reason, validate it payload maxBytes = .error
      (.malformed reason)) ↔
      ¬ Refuses it payload := by
  rw [← escapes_validate_iff]
  cases hread : validate it payload maxBytes with
  | ok e => exact iff_of_true (.inl ⟨e, rfl⟩) (not_escapes_ok e)
  | error r =>
      cases r with
      | malformed reason => exact iff_of_true (.inr ⟨reason, rfl⟩) (not_escapes_malformed reason)
      | overflow => exact iff_of_false (by simp) fun h => h ⟨_, rfl, id⟩
      | recursion => exact iff_of_false (by simp) fun h => h escapes_recursion

/-- **An integer of 401 digits.** As a duration it passes every check, and `float`
overflows. -/
theorem huge_duration_escapes :
    let payload := Demo.loaded (pyStr "t") (.int (10 ^ 400)) .null
    validate Demo.cpython payload 65536 = .error .overflow ∧
      ¬ ((∃ e, validate Demo.cpython payload 65536 = .ok e) ∨
        ∃ reason, validate Demo.cpython payload 65536 = .error (.malformed reason)) := by
  intro payload
  have hmap : (validate Demo.cpython payload 65536).map (fun _ => ()) =
      .error .overflow := by decide +kernel
  have hover : validate Demo.cpython payload 65536 = .error .overflow := by
    cases hread : validate Demo.cpython payload 65536 with
    | ok e =>
        rw [hread] at hmap
        cases hmap
    | error r =>
        rw [hread] at hmap
        cases hmap
        rfl
  refine ⟨hover, ?_⟩
  rw [hover]
  simp

end Loaded

end TaskFleet.Model
