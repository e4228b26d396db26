import TaskFleet.Model.Declared

/-!
# Declared numbers

Every number a worker declares goes through `int()` under `except (TypeError,
ValueError)` and is then clamped. `int` has a third exception: it raises
`OverflowError` for an infinity. So the readers are total, and stay in their ranges, on
exactly the payloads without one in the field they read (`declared_numbers_iff`).
-/

namespace TaskFleet.Model

open Py

section

variable (it : Interpreter) {cfg : Config} {payload : List (PyStr × Wire)}

/-- The clamp reaches its upper end only if that is above the lower one. -/
theorem parseMaxConcurrent_range (declared : Option Int) :
    1 ≤ parseMaxConcurrent cfg declared ∧
      ((parseMaxConcurrent cfg declared : Int) ≤ cfg.workerMaxConcurrentCeiling ↔
        1 ≤ cfg.workerMaxConcurrentCeiling) := by
  unfold parseMaxConcurrent
  omega

theorem parseTasksInFlight_le (declared : Option Int) (maxConcurrent : ℕ) :
    parseTasksInFlight declared maxConcurrent ≤ maxConcurrent := by
  unfold parseTasksInFlight
  omega

theorem parseCapabilities_iff :
    (∃ m types, parseCapabilities it cfg payload = .ok (m, types) ∧ 1 ≤ m ∧
      (m : Int) ≤ cfg.workerMaxConcurrentCeiling) ↔
    ¬ IsInfinite (Wire.get payload "max_concurrent") ∧ 1 ≤ cfg.workerMaxConcurrentCeiling := by
  rw [← caughtInt_ok_iff it]
  unfold parseCapabilities
  cases caughtInt it (Wire.get payload "max_concurrent") with
  | error e => exact iff_of_false (by simp [bind, Except.bind]) (by simp)
  | ok declared =>
      have hrange := @parseMaxConcurrent_range cfg declared
      constructor
      · rintro ⟨m, types, heq, -, hceiling⟩
        cases heq
        exact ⟨⟨declared, rfl⟩, hrange.2.mp hceiling⟩
      · rintro ⟨-, hceiling⟩
        exact ⟨_, _, rfl, hrange.1, hrange.2.mpr hceiling⟩

theorem parseDeclaredTasks_iff (maxConcurrent : ℕ) :
    (∃ n, parseDeclaredTasks it payload maxConcurrent = .ok n ∧ n ≤ maxConcurrent) ↔
      ¬ IsInfinite (Wire.get payload "tasks_in_flight") := by
  rw [← caughtInt_ok_iff it]
  unfold parseDeclaredTasks
  cases caughtInt it (Wire.get payload "tasks_in_flight") with
  | error e =>
      refine iff_of_false ?_ (by simp)
      rintro ⟨n, heq, -⟩
      cases heq
  | ok declared =>
      exact iff_of_true ⟨_, rfl, parseTasksInFlight_le declared maxConcurrent⟩ ⟨declared, rfl⟩

theorem readFreed_iff : (∃ freed, readFreed it payload = .ok freed) ↔
    ¬ IsInfinite (Wire.get payload "freed") := by
  have hfield : IsInfinite (Wire.get payload "freed") ↔
      IsInfinite ((payload.lookup (pyStr "freed")).getD (.int 1)) := by
    unfold Wire.get
    cases payload.lookup (pyStr "freed") <;> exact Iff.rfl
  rw [hfield, ← caughtInt_ok_iff it]
  unfold readFreed
  cases caughtInt it ((payload.lookup (pyStr "freed")).getD (.int 1)) with
  | error e => exact iff_of_false (by simp [bind, Except.bind]) (by simp)
  | ok declared => exact iff_of_true ⟨_, rfl⟩ ⟨declared, rfl⟩

end

/-- **Declared numbers**, on every payload. Each reader returns, with a value in its
range, exactly if its field is no infinity (and the ceiling is at least 1); and so does
the handshake, which calls two of them. -/
theorem declared_numbers_iff (it : Interpreter) (cfg : Config) (payload : List (PyStr × Wire)) :
    ((∃ m types, parseCapabilities it cfg payload = .ok (m, types) ∧ 1 ≤ m ∧
        (m : Int) ≤ cfg.workerMaxConcurrentCeiling) ↔
      ¬ IsInfinite (Wire.get payload "max_concurrent") ∧ 1 ≤ cfg.workerMaxConcurrentCeiling) ∧
    (∀ maxConcurrent : ℕ,
      (∃ n, parseDeclaredTasks it payload maxConcurrent = .ok n ∧ n ≤ maxConcurrent) ↔
        ¬ IsInfinite (Wire.get payload "tasks_in_flight")) ∧
    ((∃ freed, readFreed it payload = .ok freed) ↔ ¬ IsInfinite (Wire.get payload "freed")) ∧
    ((∃ m types n, parseHello it cfg payload = .ok (m, types, n) ∧ 1 ≤ m ∧
        (m : Int) ≤ cfg.workerMaxConcurrentCeiling ∧ n ≤ m) ↔
      ¬ IsInfinite (Wire.get payload "max_concurrent") ∧
        ¬ IsInfinite (Wire.get payload "tasks_in_flight") ∧
        1 ≤ cfg.workerMaxConcurrentCeiling) := by
  refine ⟨parseCapabilities_iff it, parseDeclaredTasks_iff it, readFreed_iff it, ?_⟩
  constructor
  · rintro ⟨m, types, n, heq, hm, hceiling, hn⟩
    unfold parseHello at heq
    obtain ⟨⟨m', types'⟩, hcapabilities, heq⟩ := bind_eq_ok heq
    obtain ⟨n', htasks, heq⟩ := bind_eq_ok heq
    cases heq
    obtain ⟨hmax, hone⟩ := (parseCapabilities_iff it).mp ⟨_, _, hcapabilities, hm, hceiling⟩
    exact ⟨hmax, (parseDeclaredTasks_iff it _).mp ⟨_, htasks, hn⟩, hone⟩
  · rintro ⟨hmax, htasks, hone⟩
    obtain ⟨m, types, hcapabilities, hm, hceiling⟩ := (parseCapabilities_iff it).mpr ⟨hmax, hone⟩
    obtain ⟨n, hn, hle⟩ := (parseDeclaredTasks_iff it m).mpr htasks
    refine ⟨m, types, n, ?_, hm, hceiling, hle⟩
    simp only [parseHello, hcapabilities, bind, Except.bind, hn, pure, Except.pure]

/-- **An infinity in each field** raises `OverflowError`, in the handshake and in the
read loop. -/
theorem infinite_number_escapes :
    let infinite : Wire := .float (.inf false)
    parseCapabilities Demo.cpython {} [(pyStr "max_concurrent", infinite)] =
        .error .overflowError ∧
      parseHello Demo.cpython {} [(pyStr "tasks_in_flight", infinite)] = .error .overflowError ∧
      readFreed Demo.cpython [(pyStr "freed", infinite)] = .error .overflowError :=
  ⟨rfl, rfl, rfl⟩

end TaskFleet.Model
