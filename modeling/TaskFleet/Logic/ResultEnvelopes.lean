import TaskFleet.Logic.TextLengths
import TaskFleet.Model.ResultEnvelopes

/-!
# What `validate` makes of an envelope

`readBody` is a list of checks, each of one member (`readBody_iff`). A body that one of
them has normalised passes all of them unchanged (`readBody_members`), which is why a
result means the same before and after a second look; and but for the result it is short,
whatever its members are (`size_cut_le`).
-/

namespace TaskFleet.Model

open Py

namespace Loaded

section

variable {it : Interpreter} {payload : List (PyStr × Wire)} {b : Body} {maxBytes : Int}
  {e : Envelope}

/-! ## The checks -/

/-- What `readBody` reads each field from. -/
structure Checked (it : Interpreter) (payload : List (PyStr × Wire)) (b : Body) : Prop where
  taskId : getStr it payload "task_id" >>= readTaskId it = .ok b.taskId
  status : getStr it payload "status" >>= readStatus = .ok b.status
  token : readToken (Wire.get payload "idempotency_token") = .ok b.idempotencyToken
  duration : readDuration it (Wire.get payload "duration_seconds") >>= roundDuration it =
    .ok b.durationSeconds
  attempt : requireInt it .badAttempt (Wire.get payload "attempt_number") = .ok b.attemptNumber
  epoch : requireInt it .badEpoch (Wire.get payload "session_epoch") = .ok b.sessionEpoch
  result : b.result = Wire.get payload "result"
  truncated : b.truncated = (Wire.get payload "truncated").truthy
  original : b.originalSizeBytes =
    if b.truncated then optionalInt (Wire.get payload "original_size_bytes") else none

theorem bind_of_ok {α β : Type} {x : Except Raised α} {f : α → Except Raised β} {a : α} {r : β}
    (hx : x = .ok a) (hf : f a = .ok r) : x >>= f = .ok r := by
  rw [hx]
  exact hf

theorem refuse_not_ok {α : Type} {v : Wire} {reason : RejectReason} {a : α} :
    refuse it v reason ≠ .ok a := by
  unfold refuse
  split <;> simp

/-- **The checks.** A body is read exactly if each of its fields is. -/
theorem readBody_iff : readBody it payload = .ok b ↔ Checked it payload b := by
  constructor
  · intro h
    obtain ⟨rawTaskId, hrawTaskId, h⟩ := bind_eq_ok h
    obtain ⟨taskId, htaskId, h⟩ := bind_eq_ok h
    obtain ⟨rawStatus, hrawStatus, h⟩ := bind_eq_ok h
    obtain ⟨status, hstatus, h⟩ := bind_eq_ok h
    obtain ⟨token, htoken, h⟩ := bind_eq_ok h
    obtain ⟨duration, hduration, h⟩ := bind_eq_ok h
    obtain ⟨attemptNumber, hattempt, h⟩ := bind_eq_ok h
    obtain ⟨sessionEpoch, hepoch, h⟩ := bind_eq_ok h
    obtain ⟨durationSeconds, hround, h⟩ := bind_eq_ok h
    cases h
    exact ⟨bind_of_ok hrawTaskId htaskId, bind_of_ok hrawStatus hstatus, htoken,
      bind_of_ok hduration hround, hattempt, hepoch, rfl, rfl, rfl⟩
  · intro h
    obtain ⟨rawTaskId, hrawTaskId, htaskId⟩ := bind_eq_ok h.taskId
    obtain ⟨rawStatus, hrawStatus, hstatus⟩ := bind_eq_ok h.status
    obtain ⟨duration, hduration, hround⟩ := bind_eq_ok h.duration
    have htoken := h.token
    have hattempt := h.attempt
    have hepoch := h.epoch
    simp only [readBody, bind, Except.bind, pure, Except.pure, hrawTaskId, htaskId, hrawStatus,
      hstatus, htoken, hduration, hattempt, hepoch, hround, ← h.truncated, ← h.original, ← h.result]

/-! ## A second look -/

/-- The id of a task is read as it is spelled. -/
theorem readTaskId_str (u : Uuid) : readTaskId it (pyStr u.str) = .ok u := by
  have hdigit : ∀ d < 16, (Uuid.hexChar d).toNat < 128 := by decide
  have hascii : ∀ c ∈ u.chars, c.toNat < 128 := by
    intro c hc
    rcases Uuid.mem_chars hc with rfl | hmem
    · decide
    · obtain ⟨d, hd, rfl⟩ := Uuid.mem_hex hmem
      exact hdigit d hd
  have hsame : ∀ c ∈ u.chars, ascii it (PyChar.ofChar c) = c := by
    intro c hc
    have hlt : (PyChar.ofChar c).code < 128 := hascii c hc
    rw [ascii, if_pos hlt]
    exact Char.ofNat_toNat c
  have htext : (pyStr u.str).map (ascii it) = u.chars := by
    rw [pyStr, Uuid.str, String.toList_ofList, List.map_map]
    exact (List.map_congr_left hsame).trans (List.map_id _)
  have hparse : Uuid.parse (String.ofList ((pyStr u.str).map (ascii it))) = some u := by
    rw [htext]
    exact Uuid.parse_str u
  rw [readTaskId, hparse]

theorem pyStr_ne_nil {s : String} (h : s ≠ "") : pyStr s ≠ [] := by
  intro hnil
  refine h (String.toList_inj.mp ?_)
  exact List.map_eq_nil_iff.mp hnil

/-- A text that is there is its own `str`. -/
theorem getStr_str {key : String} {s : PyStr} (hs : s ≠ []) (h : Wire.get payload key = .str s) :
    getStr it payload key = .ok s := by
  have htruthy : (Wire.str s).truthy = true := by
    cases s with
    | nil => exact absurd rfl hs
    | cons c s => rfl
  rw [getStr, h, if_pos htruthy]
  rfl

theorem readStatus_val (status : AcceptedStatus) : readStatus (pyStr status.val) = .ok status := by
  rw [readStatus]
  split
  · next s h =>
      have hs : s = "COMPLETED" := List.mem_singleton.mp (List.mem_of_find?_eq_some h)
      have hval : status.val = "COMPLETED" := List.mem_singleton.mp status.property
      exact congrArg Except.ok (Subtype.ext (hs.trans hval.symm))
  · next h =>
      have hnone := List.find?_eq_none.mp h status.val status.property
      exact absurd (decide_eq_true rfl) hnone

theorem requireInt_natCast (reason : RejectReason) (n : ℕ) :
    requireInt it reason (.int n) = .ok n := by
  rw [requireInt, if_neg (by omega), Int.toNat_natCast]

/-- What the checks leave of a body: its duration is rounded, and the size it had is
given only with the mark. -/
structure Settled (it : Interpreter) (b : Body) : Prop where
  rounded : it.round3 b.durationSeconds = b.durationSeconds
  elapsed : b.durationSeconds.isNegative = false
  marked : b.truncated = false → b.originalSizeBytes = none

/-- **A second look** at a settled body finds the same. -/
theorem readBody_members (h : Settled it b) (more : List (PyStr × Wire)) :
    readBody it (b.members ++ more) = .ok b := by
  refine readBody_iff.mpr ?_
  have hstatus : pyStr b.status.val ≠ [] := by
    have hval : b.status.val = "COMPLETED" := List.mem_singleton.mp b.status.property
    rw [hval]
    exact pyStr_ne_nil (by decide)
  constructor
  · exact bind_of_ok (getStr_str (pyStr_ne_nil (Uuid.str_ne_empty _)) rfl) (readTaskId_str _)
  · exact bind_of_ok (getStr_str hstatus rfl) (readStatus_val _)
  · show readToken (.str b.idempotencyToken.val) = _
    rw [readToken, dif_pos b.idempotencyToken.property]
  · show readDuration it (.float b.durationSeconds) >>= roundDuration it = _
    rw [readDuration, if_neg (by rw [h.elapsed]; exact Bool.false_ne_true)]
    show Except.ok (it.round3 b.durationSeconds) = _
    rw [h.rounded]
  · exact requireInt_natCast _ _
  · exact requireInt_natCast _ _
  · rfl
  · rfl
  · cases htruncated : b.truncated with
    | false => exact h.marked htruncated
    | true =>
        have hget : Wire.get (b.members ++ more) "original_size_bytes" =
            (b.originalSizeBytes.map fun (n : ℕ) => Wire.int n).getD .null := by
          rw [Body.members, htruncated]
          rfl
        rw [if_pos rfl, hget]
        cases b.originalSizeBytes with
        | none => rfl
        | some n =>
            show some n = optionalInt (.int n)
            rw [optionalInt, if_neg (by omega), Int.toNat_natCast]

/-- Rounding keeps what is not negative. -/
theorem isNegative_round3 {x : PyFloat} (h : x.isNegative = false) :
    x.round3.isNegative = false := by
  cases x with
  | finite x =>
      have hx : 0 ≤ x := not_lt.mp (of_decide_eq_false h)
      rw [round3_of_nonneg hx]
      refine decide_eq_false (not_lt.mpr ?_)
      exact BinaryFormat.round_nonneg (nearest_thousandth_nonneg hx)
  | inf negative => exact h
  | negZero | nan => rfl

theorem round3_round3 {x : PyFloat} (h : x.isNegative = false) : x.round3.round3 = x.round3 := by
  cases x with
  | finite x => exact round3_idem (not_lt.mp (of_decide_eq_false h))
  | negZero | inf _ | nan => rfl

theorem native_round3 {x : PyFloat} (hneg : x.isNegative = false) (h : (Wire.float x).Native) :
    (Wire.float x.round3).Native := by
  cases x with
  | finite x =>
      have hx : 0 ≤ x := not_lt.mp (of_decide_eq_false hneg)
      rw [round3_of_nonneg hx]
      exact isDouble_round3 h hx
  | negZero | inf _ | nan => exact trivial

/-- The float that a checked duration is rounded from. -/
theorem roundDuration_eq_ok {p : Process} {v : Wire} {seconds : PyFloat}
    (h : readDuration p.interpreter v >>= roundDuration p.interpreter = .ok seconds) :
    ∃ x : PyFloat, x.isNegative = false ∧ seconds = x.round3 ∧
      (v.Native → (Wire.float x).Native) := by
  obtain ⟨d, hread, hround⟩ := bind_eq_ok h
  cases v with
  | int n =>
      rw [readDuration] at hread
      split at hread
      · exact absurd hread refuse_not_ok
      · cases hread
        rw [roundDuration] at hround
        split at hround
        · next x hx =>
            cases hround
            have hx : PyFloat.ofInt n.toNat = some x := hx
            rw [PyFloat.ofInt] at hx
            split at hx
            · next hfinite =>
                cases hx
                have hnonneg : (0 : ℚ) ≤ ((n.toNat : ℤ) : ℚ) := by
                  exact_mod_cast Int.natCast_nonneg _
                exact ⟨.finite (binary64.round (n.toNat : ℤ)),
                  decide_eq_false (not_lt.mpr (BinaryFormat.round_nonneg hnonneg)), rfl,
                  fun _ => ⟨BinaryFormat.representable_round hnonneg, hfinite⟩⟩
            · cases hx
        · cases hround
  | float x =>
      rw [readDuration] at hread
      split at hread
      · exact absurd hread refuse_not_ok
      · next hneg =>
          cases hread
          cases hround
          exact ⟨x, Bool.eq_false_iff.mpr hneg, rfl, id⟩
  | null | bool _ | str _ | arr _ | obj _ => exact absurd hread refuse_not_ok

/-- **The checks settle a body.** -/
theorem readBody_settled {p : Process} (h : readBody p.interpreter payload = .ok b) :
    Settled p.interpreter b := by
  have hchecked := readBody_iff.mp h
  obtain ⟨x, hx, hseconds, -⟩ := roundDuration_eq_ok hchecked.duration
  refine ⟨?_, ?_, fun hnot => ?_⟩
  · rw [hseconds]
    exact round3_round3 hx
  · rw [hseconds]
    exact isNegative_round3 hx
  · rw [hchecked.original, hnot]
    rfl

/-! ## The size cap -/

theorem size_eq (p : Process) (b : Body) : b.size p.interpreter =
    (String.ofList ((Wire.obj b.members).text cpython .compact)).utf8ByteSize := rfl

/-- A body that is read, printed and within the cap is the envelope. -/
theorem validate_of_size {p : Process} {body : Body}
    (hread : readBody p.interpreter payload = .ok body)
    (hsize : body.size p.interpreter ≤ maxStringSize)
    (hdepth : (Wire.obj body.members).depth ≤ p.dumpsDepth)
    (hcap : (body.size p.interpreter : Int) ≤ maxBytes) :
    p.validate payload maxBytes = .ok ⟨body, body.size p.interpreter⟩ := by
  have hseal : body.seal p.interpreter maxBytes =
      .ok ⟨body, body.size p.interpreter⟩ := by
    rw [Body.seal, if_neg (by exact not_lt.mpr hdepth), if_neg (not_lt.mpr hcap)]
  rw [Process.validate, hread]
  simp only [if_neg (not_lt.mpr hsize), hseal]

/-- Around a result there is one object. -/
theorem depth_envelope (task : RunningTask) (duration : PyFloat) (result : Wire)
    (truncated : Bool) :
    (Wire.obj (task.members duration result truncated)).depth = result.depth + 1 := by
  simp only [RunningTask.members, Wire.depth, Wire.depthFields, Nat.max_zero, Nat.zero_max]

theorem le_maxStringSize : 131072 ≤ maxStringSize := by
  unfold maxStringSize
  norm_num

/-! ## Lengths -/

/-- The members of an object take their keys, their values and two signs each. -/
theorem length_textFields_le (fields : List (PyStr × Wire)) :
    (Wire.textFields cpython .compact fields).length ≤
      (fields.map fun f => f.1.quote.length + (f.2.text cpython .compact).length + 2).sum := by
  induction fields with
  | nil => exact le_rfl
  | cons f fields ih =>
      obtain ⟨k, v⟩ := f
      cases fields with
      | nil =>
          simp only [Wire.textFields, Separators.compact, List.length_append, List.length_cons,
            List.length_nil, List.map_cons, List.map_nil, List.sum_cons, List.sum_nil]
          omega
      | cons g fields =>
          simp only [Wire.textFields, Separators.compact, List.length_append, List.length_cons,
            List.length_nil, List.map_cons, List.sum_cons] at ih ⊢
          omega

/-- The size of a body, in characters. -/
theorem size_eq_length (p : Process) (b : Body) :
    b.size p.interpreter = ((Wire.obj b.members).text cpython .compact).length :=
  utf8ByteSize_text _

/-- Numbers that are spelled with at most `maxStrDigits` digits, and a double. -/
structure Printable (b : Body) : Prop where
  attempt : b.attemptNumber < 10 ^ maxStrDigits
  epoch : b.sessionEpoch < 10 ^ maxStrDigits
  duration : (Wire.float b.durationSeconds).Native

theorem length_pyStr (s : String) : (pyStr s).length = s.toList.length := List.length_map _

theorem length_uuid (u : Uuid) : (pyStr u.str).length = 36 := by
  have hhex := Uuid.length_hex u
  rw [length_pyStr, Uuid.str, String.toList_ofList, Uuid.chars]
  simp only [List.length_append, List.length_cons, List.length_take, List.length_drop, hhex]
  omega

/-- The members that every envelope has. -/
def commonMembers (taskId : Uuid) (attempt epoch : ℕ) (token : PyStr) (duration : PyFloat)
    (result : Wire) (truncated : Bool) : List (PyStr × Wire) :=
  [(pyStr "task_id", .str (pyStr taskId.str)),
    (pyStr "status", .str (pyStr "COMPLETED")),
    (pyStr "attempt_number", .int attempt),
    (pyStr "session_epoch", .int epoch),
    (pyStr "idempotency_token", .str token),
    (pyStr "duration_seconds", .float duration),
    (pyStr "result", result),
    (pyStr "truncated", .bool truncated)]

/-- **But for its result** an envelope is short. -/
theorem length_commonMembers_le (taskId : Uuid) {attempt epoch : ℕ} {token : PyStr}
    {duration : PyFloat} (result : Wire) (truncated : Bool) (more : List (PyStr × Wire))
    (hattempt : attempt < 10 ^ maxStrDigits) (hepoch : epoch < 10 ^ maxStrDigits)
    (htoken : token.length ≤ 128) (hduration : (Wire.float duration).Native) :
    ((Wire.obj (commonMembers taskId attempt epoch token duration result truncated ++ more)).text
        cpython .compact).length ≤
      2 * maxStrDigits + 2270 + (result.text cpython .compact).length +
        (more.map fun f => f.1.quote.length + (f.2.text cpython .compact).length + 2).sum := by
  have htokenLength := length_quote_le token
  have huuid := length_quote_le (pyStr taskId.str)
  have hattemptLength := length_toString_le maxStrDigits_pos hattempt
  have hepochLength := length_toString_le maxStrDigits_pos hepoch
  have hdurationLength : (cpython.repr duration).toList.length ≤ 24 := length_repr_le hduration
  have hstatusLength : (pyStr "COMPLETED").quote.length = 11 := by decide
  have hflag : ((Wire.bool truncated).text cpython .compact).length ≤ 5 := by
    cases truncated <;> decide
  have hkeys : ∀ key ∈ ["task_id", "status", "attempt_number", "session_epoch",
      "idempotency_token", "duration_seconds", "result", "truncated"],
      (pyStr key).quote.length ≤ 19 := by decide
  simp only [List.forall_mem_cons, List.not_mem_nil, false_implies, implies_true, and_true] at hkeys
  obtain ⟨h1, h2, h3, h4, h5, h6, h7, h8⟩ := hkeys
  have hlength := length_textFields_le
    (commonMembers taskId attempt epoch token duration result truncated ++ more)
  rw [length_uuid] at huuid
  rw [Wire.text, List.length_cons, List.length_append, List.length_singleton]
  refine (Nat.add_le_add_right (Nat.add_le_add_right hlength 1) 1).trans ?_
  rw [List.map_append, List.sum_append]
  simp only [commonMembers, List.map_cons, List.map_nil, List.sum_cons, List.sum_nil, text_str,
    text_int, text_float, hstatusLength]
  omega

theorem members_eq (b : Body) : b.members =
    commonMembers b.taskId b.attemptNumber b.sessionEpoch b.idempotencyToken.val b.durationSeconds
      b.result b.truncated ++
        if b.truncated then
          [(pyStr "original_size_bytes",
            (b.originalSizeBytes.map fun (n : ℕ) => Wire.int n).getD .null)]
        else [] := by
  have hstatus : b.status.val = "COMPLETED" := List.mem_singleton.mp b.status.property
  rw [Body.members, hstatus]
  rfl

/-- **Without its result**: of the bound, the size it had takes as many characters as it
has digits. -/
theorem size_cut_le (p : Process) (hb : Printable b) {n k : ℕ} (hk : 0 < k) (hn : n < 10 ^ k) :
    ({ b with result := .null, truncated := true, originalSizeBytes := some n } : Body).size
      p.interpreter ≤ 2 * maxStrDigits + 2300 + k := by
  have hsize := length_toString_le hk hn
  have hkey : (pyStr "original_size_bytes").quote.length = 21 := by decide
  have hnull : (Wire.null.text cpython .compact).length = 4 := by decide
  rw [size_eq_length, members_eq]
  refine (length_commonMembers_le _ _ _ _ hb.attempt hb.epoch b.idempotencyToken.property.2
    hb.duration).trans ?_
  simp only [if_true, List.map_cons, List.map_nil, List.sum_cons, List.sum_nil, Option.map_some,
    Option.getD_some, hkey, hnull, text_int]
  omega

end

end Loaded

end TaskFleet.Model
