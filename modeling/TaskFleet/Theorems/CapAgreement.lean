import TaskFleet.Logic.LoadedText
import TaskFleet.Logic.ResultEnvelopes

/-!
# The result cap on both sides

The worker and the coordinator each measure an envelope they have built themselves. They
agree about every result whose envelope, as it is sent, is within the cap: a whole one is
by the worker's own measure, and one without its body has to be (`cap_agreement`). They
do not where the coordinator refuses what the worker sends, an empty token, where the
text between them says less than the values did, and where the cap leaves no room for the
rest of the envelope (`cap_disagreement`).
-/

namespace TaskFleet.Model

open Py
open StrictJson (isHigh isLow)

namespace Loaded

/-- The size of the envelope with its result. -/
def RunningTask.wholeSize (task : RunningTask) (duration : PyFloat) (result : Wire) : ℕ :=
  encodedSize (task.members duration result false)

/-- What is sent is accepted as it is, and is whole or not as the worker's measure says. -/
def Agree (w c : Process) (cap : Int) (task : RunningTask) (mark : Postmark) (duration : PyFloat)
    (result : Wire) : Prop :=
  ∃ sent e, delivered w c cap task mark duration result = some (sent, .ok e) ∧ e.members = sent ∧
    (e.truncated = true ↔ cap < task.wholeSize duration result) ∧
    (e.truncated = true → e.originalSizeBytes = some (task.wholeSize duration result)) ∧
    (e.truncated = false → e.result = result)

section

variable {w c : Process} {cap : Int} {task : RunningTask} {mark : Postmark} {d : ℚ}
  {duration : PyFloat} {result : Wire} {sent : List (PyStr × Wire)}

/-! ## What the worker builds -/

/-- The body that is sent, whole. -/
def RunningTask.body (task : RunningTask)
    (htoken : task.idempotencyToken ≠ [] ∧ task.idempotencyToken.length ≤ maxTokenChars)
    (duration : PyFloat) (result : Wire) : Body where
  taskId := task.taskId
  status := ⟨"COMPLETED", List.mem_singleton.mpr rfl⟩
  attemptNumber := task.attempt
  sessionEpoch := task.sessionEpoch
  idempotencyToken := ⟨task.idempotencyToken, htoken⟩
  durationSeconds := duration.round3
  result := result
  truncated := false
  originalSizeBytes := none

/-- How a body was built: it is the whole one, if that is within the cap, and else it has
no result. -/
structure SentAs (cap : Int) (task : RunningTask) (duration : PyFloat) (result : Wire) (b : Body) :
    Prop where
  rounded : b.durationSeconds = duration.round3
  token : b.idempotencyToken.val = task.idempotencyToken
  mark : b.truncated = true ↔ cap < task.wholeSize duration result
  cut : b.truncated = true →
    b.originalSizeBytes = some (task.wholeSize duration result) ∧ b.result = .null
  whole : b.truncated = false → b.originalSizeBytes = none ∧ b.result = result ∧
    encodedSize b.members = task.wholeSize duration result
  size : task.wholeSize duration result ≤ maxStringSize

/-- **What is sent** is a body. -/
theorem exists_sentAs
    (htoken : task.idempotencyToken ≠ [] ∧ task.idempotencyToken.length ≤ maxTokenChars)
    (h : buildResultEnvelope w cap task result duration = some sent) :
    ∃ b : Body, b.members = sent ∧ SentAs cap task duration result b := by
  obtain ⟨encoded, hdumps, hsent⟩ := Option.map_eq_some_iff.mp h
  rw [Process.dumps] at hdumps
  split_ifs at hdumps with hconds
  cases hdumps
  have hsize : task.wholeSize duration result ≤ maxStringSize := by
    rw [RunningTask.wholeSize, encodedSize, utf8ByteSize_text]
    exact hconds.2.2
  have hsent : (if cap < task.wholeSize duration result then
      task.members duration .null true ++
        [(pyStr "original_size_bytes", .int (task.wholeSize duration result))]
      else task.members duration result false) = sent := hsent
  split_ifs at hsent with hcut
  · refine ⟨{ task.body htoken duration .null with
      truncated := true
      originalSizeBytes := some (task.wholeSize duration result) }, hsent, ?_⟩
    exact ⟨rfl, rfl, iff_of_true rfl hcut, fun _ => ⟨rfl, rfl⟩,
      fun hnot => absurd hnot.symm Bool.false_ne_true, hsize⟩
  · refine ⟨task.body htoken duration result, hsent, ?_⟩
    exact ⟨rfl, rfl, iff_of_false Bool.false_ne_true hcut,
      fun hnot => absurd hnot Bool.false_ne_true, fun _ => ⟨rfl, rfl, rfl⟩, hsize⟩

namespace SentAs

variable {b : Body}

/-- The result of the task, or none at all. -/
theorem result_eq (h : SentAs cap task duration result b) :
    b.result = .null ∨ b.result = result := by
  cases htruncated : b.truncated with
  | true => exact .inl (h.cut htruncated).2
  | false => exact .inr (h.whole htruncated).2.1

theorem settled (h : SentAs cap task duration result b) (hneg : duration.isNegative = false) :
    Settled c.interpreter b where
  rounded := by
    rw [h.rounded]
    exact round3_round3 hneg
  elapsed := by
    rw [h.rounded]
    exact isNegative_round3 hneg
  marked hwhole := (h.whole hwhole).1

/-- Within the cap it is short enough to be a string: if it is cut, it was one with the
result. -/
theorem size_le (h : SentAs cap task duration result b) (hcap : encodedSize b.members ≤ cap) :
    encodedSize b.members ≤ maxStringSize := by
  cases htruncated : b.truncated with
  | true =>
      have hlt : (encodedSize b.members : Int) < task.wholeSize duration result :=
        hcap.trans_lt (h.mark.mp htruncated)
      exact (Int.ofNat_lt.mp hlt).le.trans h.size
  | false => exact (h.whole htruncated).2.2.trans_le h.size

end SentAs

/-! ## What the text carries -/

/-- What is so of literals and numbers is so of a body if it is of what is put into it. -/
theorem members_everywhere {b : Body} {q : Wire → Prop} (hself : q (.obj b.members))
    (hnull : q .null) (hbool : ∀ value, q (.bool value)) (hint : ∀ n, q (.int n))
    (hliteral : ∀ s, q (.str (pyStr s))) (htoken : q (.str b.idempotencyToken.val))
    (hduration : q (.float b.durationSeconds)) (hresult : b.result.Everywhere q) :
    (Wire.obj b.members).Everywhere q := by
  refine ⟨hself, ?_⟩
  cases htruncated : b.truncated with
  | false =>
      rw [Body.members, htruncated]
      exact ⟨hliteral _, hliteral _, hint _, hint _, htoken, hduration, hresult, hbool _, trivial⟩
  | true =>
      have horiginal : ((b.originalSizeBytes.map fun (n : ℕ) => Wire.int n).getD .null).Everywhere
          q := by
        cases b.originalSizeBytes with
        | none => exact hnull
        | some n => exact hint n
      rw [Body.members, htruncated]
      exact ⟨hliteral _, hliteral _, hint _, hint _, htoken, hduration, hresult, hbool _,
        horiginal, trivial⟩

/-- The keys of an envelope. -/
def Body.keys (b : Body) : List String :=
  ["task_id", "status", "attempt_number", "session_epoch", "idempotency_token",
    "duration_seconds", "result", "truncated"] ++
      if b.truncated then ["original_size_bytes"] else []

theorem members_keys (b : Body) : b.members.map Prod.fst = b.keys.map pyStr := by
  rw [Body.members, Body.keys]
  cases b.truncated <;> rfl

theorem keys_nodup (b : Body) : (b.keys.map pyStr).Nodup := by
  rw [Body.keys]
  cases b.truncated <;> decide

/-- Literals stay as they are in a text. -/
theorem literals_joined (names : List String) : ∀ k ∈ names.map pyStr, joinPairs k = k := by
  intro k hk
  obtain ⟨name, -, rfl⟩ := List.mem_map.mp hk
  exact joinPairs_pyStr name

theorem members_native {b : Body} (hduration : (Wire.float b.durationSeconds).Native)
    (hresult : b.result.Everywhere Wire.Native) : (Wire.obj b.members).Everywhere Wire.Native := by
  have hself : (Wire.obj b.members).Native := by
    show (b.members.map Prod.fst).Nodup
    rw [members_keys]
    exact keys_nodup b
  exact members_everywhere hself trivial (fun _ => trivial) (fun _ => trivial) (fun _ => trivial)
    trivial hduration hresult

theorem members_joined {b : Body}
    (htoken : joinPairs b.idempotencyToken.val = b.idempotencyToken.val)
    (hresult : b.result.Everywhere Wire.Joined) : (Wire.obj b.members).Everywhere Wire.Joined := by
  have hself : (Wire.obj b.members).Joined := by
    show ∀ k ∈ b.members.map Prod.fst, joinPairs k = k
    rw [members_keys]
    exact literals_joined _
  exact members_everywhere hself trivial (fun _ => trivial) (fun _ => trivial) joinPairs_pyStr
    htoken trivial hresult

/-- A message carries its payload. -/
theorem message_carried (hnative : (Wire.obj sent).Everywhere Wire.Native)
    (hjoined : (Wire.obj sent).Everywhere Wire.Joined)
    (hspell : (task.message mark sent).Everywhere Wire.Spellable) :
    (task.message mark sent).Everywhere Carried := by
  let names := ["message_type", "payload", "protocol_version", "correlation_id", "worker_id",
    "session_epoch", "timestamp"]
  have hkeys : (names.map pyStr).Nodup := by decide
  have hliterals : ∀ k ∈ names.map pyStr, joinPairs k = k := literals_joined names
  have hcorrelation : (Wire.str (if task.correlationId.isEmpty then pyStr task.taskId.str
      else task.correlationId)).Joined := by
    show joinPairs _ = _
    split
    · exact joinPairs_pyStr _
    · exact task.joined
  have hallNative : (task.message mark sent).Everywhere Wire.Native :=
    ⟨hkeys, trivial, hnative, trivial, trivial, trivial, trivial, trivial, trivial⟩
  have hallJoined : (task.message mark sent).Everywhere Wire.Joined :=
    ⟨hliterals, joinPairs_pyStr _, hjoined, joinPairs_pyStr _, hcorrelation,
      mark.workerId_joined, trivial, mark.timestamp_joined, trivial⟩
  exact hallNative.and (hspell.and hallJoined)

/-- **The frame.** What the coordinator takes out of it is what the worker put in. -/
theorem receive_send {frame : List Char} (hnative : (Wire.obj sent).Everywhere Wire.Native)
    (hjoined : (Wire.obj sent).Everywhere Wire.Joined)
    (hdepth : (task.message mark sent).depth ≤ c.loadsDepth)
    (h : send w (task.message mark sent) = some frame) : receive c frame = some sent := by
  rw [send] at h
  split_ifs at h with hasdict
  rw [Process.dumps] at h
  split_ifs at h with hconds
  cases h
  have hloads := loads_text default_legal (message_carried hnative hjoined hconds.1) hdepth
  rw [receive, hloads]
  rfl

/-! ## Agreement -/

theorem delivered_of {frame : List Char} {payload : List (PyStr × Wire)}
    (hbuilt : buildResultEnvelope w cap task result duration = some sent)
    (hframe : send w (task.message mark sent) = some frame)
    (hreceived : receive c frame = some payload) :
    delivered w c cap task mark duration result = some (sent, c.validate payload cap) := by
  simp only [delivered, hbuilt, hframe, hreceived, Option.bind_eq_bind, Option.bind_some,
    Option.pure_def]

/-- **Agreement on the cap.** A result that the worker can send, within the cap as it is
sent, is accepted as it is: every member arrives as it was, and the coordinator cuts
nothing that the worker has not cut. -/
theorem cap_agreement
    (htoken : task.idempotencyToken ≠ [] ∧ task.idempotencyToken.length ≤ 128)
    (hjoined : joinPairs task.idempotencyToken = task.idempotencyToken)
    (hnative : result.Everywhere Wire.Native) (hresult : result.Everywhere Wire.Joined)
    (hd : IsDouble d) (hpos : 0 ≤ d)
    (hbuilt : buildResultEnvelope w cap task result (.finite d) = some sent)
    (hsent : (send w (task.message mark sent)).isSome)
    (hloads : (task.message mark sent).depth ≤ c.loadsDepth)
    (hdumps : (Wire.obj sent).depth ≤ c.dumpsDepth) (hcap : encodedSize sent ≤ cap) :
    Agree w c cap task mark (.finite d) result := by
  obtain ⟨b, rfl, hb⟩ := exists_sentAs htoken hbuilt
  have hneg : (PyFloat.finite d).isNegative = false := decide_eq_false (not_lt.mpr hpos)
  have hduration : (Wire.float b.durationSeconds).Native := by
    rw [hb.rounded]
    exact native_round3 hneg hd
  have hbodyNative : b.result.Everywhere Wire.Native := by
    rcases hb.result_eq with hnull | hsame
    · rw [hnull]
      exact trivial
    · rwa [hsame]
  have hbodyJoined : b.result.Everywhere Wire.Joined := by
    rcases hb.result_eq with hnull | hsame
    · rw [hnull]
      exact trivial
    · rwa [hsame]
  have hbodyToken : joinPairs b.idempotencyToken.val = b.idempotencyToken.val := by
    rwa [hb.token]
  obtain ⟨frame, hframe⟩ := Option.isSome_iff_exists.mp hsent
  have hreceived := receive_send (members_native hduration hbodyNative)
    (members_joined hbodyToken hbodyJoined) hloads hframe
  have hread : readBody c.interpreter b.members = .ok b := by
    rw [← List.append_nil b.members]
    exact readBody_members (hb.settled hneg) []
  have hvalid := validate_of_size hread (hb.size_le hcap) hdumps hcap
  refine ⟨b.members, ⟨b, b.size c.interpreter⟩, ?_, rfl, hb.mark, fun h => (hb.cut h).1,
    fun h => (hb.whole h).2.1⟩
  rw [delivered_of hbuilt hframe hreceived, hvalid]

end

end Loaded

namespace Demo

def postmark : Loaded.Postmark := ⟨[], [], joinPairs_nil, joinPairs_nil⟩

/-- A value that is nested `n` levels deep. -/
def nested : ℕ → Wire
  | 0 => .null
  | n + 1 => .arr [nested n]

/-- Two halves that are not joined. -/
def halves : PyStr := [.ofUnit 0xd83d, .ofUnit 0xde00]

end Demo

namespace Loaded

/-- A whole result at the default cap. -/
theorem cap_agreement_honest : Agree Demo.process Demo.process 131072 (Demo.running (pyStr "t"))
    Demo.postmark (.finite 0) (.int 42) := by
  have hrun : (buildResultEnvelope Demo.process 131072 (Demo.running (pyStr "t")) (.int 42)
      (.finite 0)).any (fun sent => decide (
        (send Demo.process ((Demo.running (pyStr "t")).message Demo.postmark sent)).isSome = true ∧
          ((Demo.running (pyStr "t")).message Demo.postmark sent).depth ≤ 900 ∧
          (Wire.obj sent).depth ≤ 900 ∧ encodedSize sent ≤ (131072 : Int))) = true := by
    decide +kernel
  obtain ⟨sent, hbuilt, hrun⟩ := (Option.any_eq_true _ _).mp hrun
  obtain ⟨hsent, hloads, hdumps, hcap⟩ := of_decide_eq_true hrun
  have hzero : IsDouble 0 := isDouble_natCast (n := 0) (by decide)
  exact cap_agreement ⟨by decide, by decide⟩ (joinPairs_pyStr "t") trivial trivial hzero le_rfl
    hbuilt hsent hloads hdumps hcap

/-- Something about the envelope, if one is delivered and accepted. -/
def accepted {α : Type} (about : Envelope → α)
    (outcome : Option (List (PyStr × Wire) × Except Failure Envelope)) : Option α :=
  outcome.bind fun pair => pair.2.toOption.map about

theorem accepted_of_agree {α : Type} {w c : Process} {cap : Int} {task : RunningTask}
    {mark : Postmark} {duration : PyFloat} {result : Wire} (about : Envelope → α)
    (h : Agree w c cap task mark duration result) :
    ∃ e, accepted about (delivered w c cap task mark duration result) = some (about e) ∧
      (e.truncated = true → e.originalSizeBytes = some (task.wholeSize duration result)) ∧
      (e.truncated = false → e.result = result) := by
  obtain ⟨sent, e, hdelivered, -, -, hcut, hwhole⟩ := h
  refine ⟨e, ?_, hcut, hwhole⟩
  rw [hdelivered]
  rfl

/-- What cannot be written is not delivered. -/
theorem not_agree_of_unwritten {w c : Process} {cap : Int} {task : RunningTask} {mark : Postmark}
    {duration : PyFloat} {result : Wire}
    (h : ¬ ((Wire.obj (task.members duration result false)).Everywhere Wire.Spellable ∧
      (Wire.obj (task.members duration result false)).depth ≤ w.dumpsDepth)) :
    ¬ Agree w c cap task mark duration result := by
  have hdumps : w.dumps .compact (.obj (task.members duration result false)) = none := by
    rw [Process.dumps, if_neg fun hconds => h ⟨hconds.1, hconds.2.1⟩]
  have hdelivered : delivered w c cap task mark duration result = none := by
    simp only [delivered, buildResultEnvelope, hdumps, Option.map_none, Option.bind_eq_bind,
      Option.bind_none]
  rintro ⟨sent, e, hsome, -⟩
  rw [hdelivered] at hsome
  cases hsome

theorem depth_nested (n : ℕ) : (Demo.nested n).depth = n := by
  induction n with
  | zero => rfl
  | succ n ih =>
      show max (Demo.nested n).depth 0 + 1 = n + 1
      rw [ih, Nat.max_zero]

/-- The characters of a string. -/
def charCount : Wire → ℕ
  | .str s => s.length
  | _ => 0

/-- **Disagreement**: an empty token is refused; a cap below the size of the rest of the
envelope makes the coordinator cut again, and give the size of the cut envelope as the
original one; two surrogates that stand like a pair arrive as one character; and a number
of too many digits, or a list too deep, is never sent. -/
theorem cap_disagreement :
    ¬ Agree Demo.process Demo.process 131072 (Demo.running []) Demo.postmark (.finite 0) .null ∧
    ¬ Agree Demo.process Demo.process 100 (Demo.running (pyStr "t")) Demo.postmark (.finite 0)
      .null ∧
    ¬ Agree Demo.process Demo.process 131072 (Demo.running (pyStr "t")) Demo.postmark (.finite 0)
      (.str Demo.halves) ∧
    ¬ Agree Demo.process Demo.process 131072 (Demo.running (pyStr "t")) Demo.postmark (.finite 0)
      (.int (10 ^ maxStrDigits)) ∧
    ¬ Agree Demo.process Demo.process 131072 (Demo.running (pyStr "t")) Demo.postmark (.finite 0)
      (Demo.nested 900) := by
  refine ⟨fun h => ?_, fun h => ?_, fun h => ?_, ?_, ?_⟩
  · have hrefused : accepted (fun _ => ()) (delivered Demo.process Demo.process 131072
        (Demo.running []) Demo.postmark (.finite 0) .null) = none := by
      decide +kernel
    obtain ⟨e, he, -⟩ := accepted_of_agree (fun _ => ()) h
    rw [hrefused] at he
    cases he
  · have hagain : accepted (fun e => decide (e.truncated = true ∧ e.originalSizeBytes ≠
        some ((Demo.running (pyStr "t")).wholeSize (.finite 0) .null)))
        (delivered Demo.process Demo.process 100 (Demo.running (pyStr "t")) Demo.postmark
          (.finite 0) .null) = some true := by
      decide +kernel
    obtain ⟨e, he, hcut, -⟩ := accepted_of_agree _ h
    rw [hagain, Option.some_inj] at he
    obtain ⟨htruncated, hother⟩ := of_decide_eq_true he.symm
    exact hother (hcut htruncated)
  · have hjoined : accepted (fun e => decide (e.truncated = false ∧ charCount e.result = 1))
        (delivered Demo.process Demo.process 131072 (Demo.running (pyStr "t")) Demo.postmark
          (.finite 0) (.str Demo.halves)) = some true := by
      decide +kernel
    obtain ⟨e, he, -, hwhole⟩ := accepted_of_agree _ h
    rw [hjoined, Option.some_inj] at he
    obtain ⟨htruncated, hcount⟩ := of_decide_eq_true he.symm
    rw [hwhole htruncated] at hcount
    exact absurd hcount (by decide)
  · refine not_agree_of_unwritten fun hconds => ?_
    have hspell : (Wire.int (10 ^ maxStrDigits)).Spellable := hconds.1.2.2.2.2.2.2.2.1
    have hlt : ((10 : ℤ) ^ maxStrDigits).natAbs < 10 ^ maxStrDigits := hspell
    rw [Int.natAbs_pow] at hlt
    exact lt_irrefl _ hlt
  · refine not_agree_of_unwritten fun hconds => ?_
    have hdepth := hconds.2
    rw [depth_envelope, depth_nested] at hdepth
    exact absurd hdepth (by decide)

end Loaded

end TaskFleet.Model
