import TaskFleet.Logic.WireText
import TaskFleet.Model.LoadedResults

/-!
# Which accepted results the database takes

`validate` passes on what it does not look into: the characters of the token, the kind
of the duration, everything in the result. `json.loads` reads more there than strict
JSON has, and `json.dumps` writes it back. A result is refused by the database exactly
when one of the three carries it and is kept (`stored_accepted_iff`).
-/

namespace TaskFleet.Model

open Py StrictJson

namespace Loaded

variable {it : Interpreter} {payload : List (PyStr × Wire)} {maxBytes : Int}
  {e : Envelope} {b : Body}

/-- The encoded body is too long, and the result is dropped for it. -/
def Cut (it : Interpreter) (payload : List (PyStr × Wire)) (maxBytes : Int) : Prop :=
  ∃ b, readBody it payload = .ok b ∧ maxBytes < b.size it

/-! ## Strings of the program itself -/

/-- Neither a NUL nor half of a pair. -/
theorem clean_of_plain {s : PyStr} (h : ∀ c ∈ s, c.code ≠ 0 ∧ c.code < 0xd800) :
    s.clean = true := by
  have hread : (s.flatMap PyChar.units).foldlM nextUnit false = some false := by
    induction s with
    | nil => rfl
    | cons c s ih =>
        obtain ⟨hzero, hlow⟩ := h c List.mem_cons_self
        rw [List.flatMap_cons, PyChar.units, if_pos (by omega), List.cons_append, List.foldlM_cons,
          nextUnit_plain hzero hlow]
        exact ih fun d hd => h d (List.mem_cons_of_mem _ hd)
  simp [PyStr.clean, hread]

theorem hexDigits_lt (k n : ℕ) : ∀ d ∈ Uuid.hexDigits k n, d < 16 := by
  induction k generalizing n with
  | zero => simp [Uuid.hexDigits]
  | succ k ih =>
      intro d hd
      rw [Uuid.hexDigits, List.mem_append, List.mem_singleton] at hd
      rcases hd with hmem | rfl
      · exact ih (n / 16) d hmem
      · exact Nat.mod_lt n (by omega)

/-- The spelling of a UUID. -/
theorem clean_uuid (u : Uuid) : (pyStr u.str).clean = true := by
  have hdigit : ∀ d < 16, (Uuid.hexChar d).toNat ≠ 0 ∧ (Uuid.hexChar d).toNat < 0xd800 := by decide
  have hhex : ∀ c ∈ u.hex, c.toNat ≠ 0 ∧ c.toNat < 0xd800 := by
    intro c hc
    obtain ⟨d, hd, rfl⟩ := List.mem_map.mp hc
    exact hdigit d (hexDigits_lt 32 u.int d hd)
  have hchars : ∀ c ∈ u.chars, c = '-' ∨ c ∈ u.hex := by
    intro c hc
    simp only [Uuid.chars, List.mem_append, List.mem_cons] at hc
    rcases hc with h | rfl | h | rfl | h | rfl | h | rfl | h
    · exact .inr (List.mem_of_mem_take h)
    · exact .inl rfl
    · exact .inr (List.mem_of_mem_drop (List.mem_of_mem_take h))
    · exact .inl rfl
    · exact .inr (List.mem_of_mem_drop (List.mem_of_mem_take h))
    · exact .inl rfl
    · exact .inr (List.mem_of_mem_drop (List.mem_of_mem_take h))
    · exact .inl rfl
    · exact .inr (List.mem_of_mem_drop h)
  refine clean_of_plain fun c hc => ?_
  rw [pyStr, Uuid.str, String.toList_ofList] at hc
  obtain ⟨d, hd, rfl⟩ := List.mem_map.mp hc
  rcases hchars d hd with rfl | hmem
  · exact ⟨by decide, by decide⟩
  · exact hhex d hmem

theorem clean_status (status : AcceptedStatus) : (pyStr status.val).clean = true := by
  obtain ⟨s, hs⟩ := status
  have hval : s = "COMPLETED" := List.mem_singleton.mp hs
  show (pyStr s).clean = true
  rw [hval]
  decide

/-! ## The envelope -/

theorem storableFields_append (xs ys : List (PyStr × Wire)) :
    Wire.storableFields (xs ++ ys) = (Wire.storableFields xs && Wire.storableFields ys) := by
  induction xs with
  | nil => rfl
  | cons x xs ih =>
      obtain ⟨k, v⟩ := x
      simp only [List.cons_append, Wire.storableFields, ih, Bool.and_assoc]

/-- Of an envelope, three members may be beyond strict JSON. -/
theorem storable_members (b : Body) : Wire.storableFields b.members =
    (b.idempotencyToken.val.clean &&
      ((Wire.float b.durationSeconds).storable && b.result.storable)) := by
  have hkeys : (pyStr "task_id").clean = true ∧ (pyStr "status").clean = true ∧
      (pyStr "attempt_number").clean = true ∧ (pyStr "session_epoch").clean = true ∧
      (pyStr "idempotency_token").clean = true ∧ (pyStr "duration_seconds").clean = true ∧
      (pyStr "result").clean = true ∧ (pyStr "truncated").clean = true ∧
      (pyStr "original_size_bytes").clean = true := by
    decide
  obtain ⟨h1, h2, h3, h4, h5, h6, h7, h8, h9⟩ := hkeys
  have hsize : ∀ size : Option ℕ,
      ((size.map fun (n : ℕ) => Wire.int n).getD .null).storable = true := by
    intro size
    cases size <;> rfl
  have hlast : Wire.storableFields (if b.truncated then
      [(pyStr "original_size_bytes",
        (b.originalSizeBytes.map fun (n : ℕ) => Wire.int n).getD .null)] else []) = true := by
    split
    · simp only [Wire.storableFields, h9, hsize, Bool.and_self]
    · rfl
  rw [Body.members, storableFields_append, hlast]
  simp only [Wire.storableFields, Wire.storable_str, Wire.storable_int, Wire.storable_bool, h1, h2,
    h3, h4, h5, h6, h7, h8, clean_uuid, clean_status,
    Bool.true_and, Bool.and_true]

/-- **The stored text** is strict JSON exactly if the three are. -/
theorem stored_accepts (hfl : FloatSpelling it.toFloatOps) (e : Envelope) : accepts (e.stored it) =
    (e.idempotencyToken.val.clean &&
      ((Wire.float e.durationSeconds).storable && e.result.storable)) := by
  have hsize : Wire.storableFields [(pyStr "size_bytes", .int e.sizeBytes)] = true := by
    have hkey : (pyStr "size_bytes").clean = true := by decide
    simp only [Wire.storableFields, Wire.storable_int, hkey, Bool.and_self]
  rw [Envelope.stored, accepts_text_iff hfl default_legal]
  show Wire.storableFields _ = _
  rw [storableFields_append, hsize, Bool.and_true, storable_members]

/-! ## The payload -/

/-- Where the three come from. -/
structure Reads (it : Interpreter) (payload : List (PyStr × Wire)) (b : Body) : Prop where
  token : Wire.get payload "idempotency_token" = .str b.idempotencyToken.val
  duration : ∃ d, readDuration it (Wire.get payload "duration_seconds") = .ok d ∧
    roundDuration it d = .ok b.durationSeconds
  result : b.result = Wire.get payload "result"

theorem readToken_eq_ok {v : Wire} {token : Token} (h : readToken v = .ok token) :
    v = .str token.val := by
  unfold readToken at h
  split at h
  · split at h
    · cases h
      rfl
    · cases h
  · cases h

theorem readBody_reads (h : readBody it payload = .ok b) : Reads it payload b := by
  obtain ⟨rawTaskId, -, h⟩ := bind_eq_ok h
  obtain ⟨taskId, -, h⟩ := bind_eq_ok h
  obtain ⟨rawStatus, -, h⟩ := bind_eq_ok h
  obtain ⟨status, -, h⟩ := bind_eq_ok h
  obtain ⟨token, htoken, h⟩ := bind_eq_ok h
  obtain ⟨duration, hduration, h⟩ := bind_eq_ok h
  obtain ⟨attemptNumber, -, h⟩ := bind_eq_ok h
  obtain ⟨sessionEpoch, -, h⟩ := bind_eq_ok h
  obtain ⟨durationSeconds, hround, h⟩ := bind_eq_ok h
  cases h
  exact ⟨readToken_eq_ok htoken, ⟨duration, hduration, hround⟩, rfl⟩

theorem refuse_ne_ok {α : Type} {v : Wire} {reason : RejectReason} {a : α} :
    refuse it v reason ≠ .ok a := by
  unfold refuse
  split <;> simp

/-- Rounding keeps the kind of a duration. -/
theorem storable_duration (hfl : FloatSpelling it.toFloatOps) {v : Wire} {d : ℕ ⊕ PyFloat}
    {seconds : PyFloat}
    (hread : readDuration it v = .ok d) (hround : roundDuration it d = .ok seconds) :
    (Wire.float seconds).storable = v.storable := by
  have hrounded : ∀ x, (Wire.float (it.round3 x)).storable = (Wire.float x).storable := by
    intro x
    cases x with
    | finite x => exact hfl.round_finite (.finite x) rfl
    | negZero => exact hfl.round_finite .negZero rfl
    | inf negative => rw [hfl.round_inf]
    | nan => rw [hfl.round_nan]
  unfold readDuration at hread
  split at hread
  · split at hread
    · exact absurd hread refuse_ne_ok
    · cases hread
      unfold roundDuration at hround
      dsimp only at hround
      split at hround
      · next x hx =>
          cases hround
          exact (hrounded x).trans (hfl.ofInt_finite _ x hx)
      · cases hround
  · split at hread
    · exact absurd hread refuse_ne_ok
    · cases hread
      cases hround
      exact hrounded _
  · exact absurd hread refuse_ne_ok

/-- The envelope is the body, with the result or without. -/
theorem seal_eq_ok (h : b.seal it maxBytes = .ok e) : e.idempotencyToken = b.idempotencyToken ∧
    e.durationSeconds = b.durationSeconds ∧
      (maxBytes < b.size it ∧ e.result = .null ∨ ¬ maxBytes < b.size it ∧ e.result = b.result) := by
  unfold Body.seal at h
  split_ifs at h with hdepth hcut
  · cases h
    exact ⟨rfl, rfl, .inl ⟨hcut, rfl⟩⟩
  · cases h
    exact ⟨rfl, rfl, .inr ⟨hcut, rfl⟩⟩

/-- **What the database takes.** An accepted result can be stored exactly if the token
and the duration are strict JSON, and the result is or is dropped for its size. -/
theorem stored_accepted_iff (hfl : FloatSpelling it.toFloatOps)
    (h : validate it payload maxBytes = .ok e) :
    accepts (e.stored it) = true ↔ (Wire.get payload "idempotency_token").storable = true ∧
      (Wire.get payload "duration_seconds").storable = true ∧
        ((Wire.get payload "result").storable = true ∨ Cut it payload maxBytes) := by
  obtain ⟨b, hb, hseal⟩ := bind_eq_ok h
  obtain ⟨htoken, ⟨d, hread, hround⟩, hresult⟩ := readBody_reads hb
  obtain ⟨hsameToken, hsameDuration, hkept⟩ := seal_eq_ok hseal
  have hcut : Cut it payload maxBytes ↔ maxBytes < b.size it := by
    constructor
    · rintro ⟨b', hb', hlt⟩
      rw [hb, Except.ok.injEq] at hb'
      rw [hb']
      exact hlt
    · exact fun hlt => ⟨b, hb, hlt⟩
  have hlast : e.result.storable = true ↔ (Wire.get payload "result").storable = true ∨
      Cut it payload maxBytes := by
    rw [hcut, ← hresult]
    rcases hkept with ⟨hlt, hnull⟩ | ⟨hle, hsame⟩
    · rw [hnull]
      exact iff_of_true rfl (.inr hlt)
    · rw [hsame]
      exact ⟨.inl, fun hor => hor.resolve_right hle⟩
  rw [stored_accepts hfl, Bool.and_eq_true, Bool.and_eq_true, hsameToken, hsameDuration,
    storable_duration hfl hread hround, htoken, hlast, Wire.storable_str]

end Loaded

/-! ## Results that poison a task -/

namespace Demo

theorem cpython_spelling : FloatSpelling cpython.toFloatOps where
  finite x hx := by
    cases x with
    | finite x =>
        show number (if x = 1 then "1.0" else toString x.num).toList = some []
        split
        · decide
        · exact number_toString x.num
    | negZero => rfl
    | inf negative => cases hx
    | nan => cases hx
  inf _ := rfl
  nan := rfl
  round_finite _ hx := hx
  round_inf _ := rfl
  round_nan := rfl
  ofInt_finite n x h := by
    simp only [cpython] at h
    split at h
    · cases h
      rfl
    · cases h

/-- What `json.loads` makes of a `\ud83d` that stands alone. -/
def loneSurrogate : PyChar := ⟨0xd83d, by decide⟩

def nul : PyChar := ⟨0, by decide⟩

end Demo

namespace Loaded

/-- An honest result is taken. -/
theorem stored_accepted_honest : ∃ e,
    validate Demo.cpython (Demo.loaded (pyStr "t") (.int 1) .null) 65536 = .ok e ∧
    accepts (e.stored Demo.cpython) = true := by
  have hvalid : (validate Demo.cpython (Demo.loaded (pyStr "t") (.int 1) .null) 65536).toBool =
      true := by
    decide +kernel
  cases hread : validate Demo.cpython (Demo.loaded (pyStr "t") (.int 1) .null) 65536 with
  | error r =>
      rw [hread] at hvalid
      cases hvalid
  | ok e =>
      have hclean : (pyStr "t").clean = true := by decide
      exact ⟨e, rfl, (stored_accepted_iff Demo.cpython_spelling hread).mpr ⟨hclean, rfl, .inl rfl⟩⟩

/-- **The three gaps**: a duration that is no number, a result with a NUL, a token with
half of a pair. `validate` accepts each, and the database none. -/
theorem poison_results :
    (validate Demo.cpython (Demo.loaded (pyStr "t") (.float .nan) .null) 65536).map
      (fun e => accepts (e.stored Demo.cpython)) = .ok false ∧
    (validate Demo.cpython (Demo.loaded (pyStr "t") (.int 1) (.str [Demo.nul])) 65536).map
      (fun e => accepts (e.stored Demo.cpython)) = .ok false ∧
    (validate Demo.cpython (Demo.loaded [Demo.loneSurrogate] (.int 1) .null) 65536).map
      (fun e => accepts (e.stored Demo.cpython)) = .ok false := by
  decide +kernel

end Loaded

end TaskFleet.Model
