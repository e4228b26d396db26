import TaskFleet.Logic.LoadedText
import TaskFleet.Logic.ResultEnvelopes
import TaskFleet.Model.Executors
import TaskFleet.Model.TaskParameters

/-!
# Accepted parameters run

The coordinator and the worker validate the parameters of a task each for itself. What
the coordinator accepts comes through its JSON unchanged, and no executor raises on it;
an executor that is not cancelled returns, once an hour has passed; and what it returns
fits the default cap with its envelope. The longest is the echo of an opaque payload:
65536 bytes are 87384 characters of base64, and none of them is escaped.
-/

namespace TaskFleet.Model

open Py
open StrictJson (isHigh hexDigit)

/-! ## Short results -/

/-- A result of no more text than the longest payload. -/
structure Short (value : Wire) : Prop where
  depth : value.depth = 0
  spellable : value.Everywhere Wire.Spellable
  length : (value.text cpython .compact).length ≤ 87386

theorem lt_ten_pow {n k : ℕ} (hk : k ≤ maxStrDigits) (hn : n < 10 ^ k) : n < 10 ^ maxStrDigits :=
  hn.trans_le (Nat.pow_le_pow_right (by decide) hk)

theorem nine_le : 9 ≤ maxStrDigits := by
  rw [maxStrDigits_eq]
  decide

theorem short_int {n : ℕ} (hn : n < 10 ^ 9) : Short (.int n) where
  depth := rfl
  spellable := lt_ten_pow nine_le hn
  length := by
    rw [text_int]
    exact (length_toString_le (by decide) hn).trans (by decide)

theorem short_str {s : PyStr} (hplain : ∀ c ∈ s, c.Plain) (hs : s.length ≤ 87384) :
    Short (.str s) where
  depth := rfl
  spellable := trivial
  length := by
    rw [text_str, length_quote_of_plain hplain]
    exact Nat.add_le_add_right hs 2

theorem short_float {x : PyFloat} (hx : (Wire.float x).Native) : Short (.float x) where
  depth := rfl
  spellable := trivial
  length := by
    rw [text_float]
    exact (length_repr_le hx).trans (by decide)

/-! ## Base64 and hexadecimal digits -/

theorem plain_alphabet : ∀ value < 64, (PyChar.ofChar (Base64.alphabet.getD value '=')).Plain := by
  decide +kernel

theorem plain_base64Char (value : ℕ) : (PyChar.ofChar (Base64.char value)).Plain :=
  plain_alphabet _ (Nat.mod_lt value (by decide))

theorem plain_pad : (PyChar.ofChar '=').Plain := by decide

theorem plain_b64encode (raw : List UInt8) : ∀ c ∈ b64encode raw, c.Plain := by
  fun_induction b64encode raw with
  | case1 a b c rest ih =>
      simp only [List.map_cons, List.map_nil, List.cons_append, List.nil_append,
        List.forall_mem_cons]
      exact ⟨plain_base64Char _, plain_base64Char _, plain_base64Char _, plain_base64Char _, ih⟩
  | case2 a b =>
      simp only [List.map_cons, List.map_nil, List.forall_mem_cons]
      exact ⟨plain_base64Char _, plain_base64Char _, plain_base64Char _, plain_pad,
        List.forall_mem_nil _⟩
  | case3 a =>
      simp only [List.map_cons, List.map_nil, List.forall_mem_cons]
      exact ⟨plain_base64Char _, plain_base64Char _, plain_pad, plain_pad, List.forall_mem_nil _⟩
  | case4 => exact List.forall_mem_nil _

/-- The echo of a payload. -/
theorem short_b64encode {raw : List UInt8} (h : raw.length ≤ 65536) :
    Short (.str (b64encode raw)) := by
  refine short_str (plain_b64encode raw) ?_
  rw [length_b64encode]
  omega

theorem plain_hexDigit : ∀ d < 16, (PyChar.ofChar (hexDigit d)).Plain := by decide

theorem plain_hex (digest : List UInt8) : ∀ c ∈ Executors.hex digest, c.Plain := by
  intro c hc
  obtain ⟨byte, -, hc⟩ := List.mem_flatMap.mp hc
  have hlt := byte.toNat_lt
  simp only [List.mem_cons, List.not_mem_nil, or_false] at hc
  rcases hc with rfl | rfl
  · exact plain_hexDigit _ (by omega)
  · exact plain_hexDigit _ (by omega)

theorem length_hex_digest (digest : List UInt8) :
    (Executors.hex digest).length = 2 * digest.length := by
  induction digest with
  | nil => rfl
  | cons byte digest ih =>
      rw [Executors.hex, List.flatMap_cons, List.length_append, ← Executors.hex, ih]
      simp only [List.length_cons, List.length_nil]
      omega

/-! ## What an executor does -/

/-- An executor on parameters that it takes. -/
structure Takes (clock : MonotonicClock) (run : ℕ → (ℕ → Bool) → Execution) : Prop where
  /-- It raises nothing but `ExecutionCancelled`. -/
  accepts : ∀ fuel cancel, ∃ outcome, run fuel cancel = .ok outcome
  short : ∀ {fuel cancel value reported rounds},
    run fuel cancel = .ok (some ⟨.returned value, reported, rounds⟩) → Short value
  /-- Never cancelled, it ends, once an hour has passed. -/
  returns : ∀ cancel : ℕ → Bool, (∀ i, cancel i = false) →
    (∃ i, clock.read 0 + 3600 ≤ clock.read i) →
    ∃ enough, ∀ fuel ≥ enough, ∃ value reported rounds,
      run fuel cancel = .ok (some ⟨.returned value, reported, rounds⟩)

/-- Both chunked executors are a loop and a reading of its result. -/
theorem takes_loop {clock : MonotonicClock} {α : Type} {run : ℕ → (ℕ → Bool) → Execution}
    (body : α → α) {chunk rounds : ℕ} (x : α) (read : α → Wire) (hchunk : 1 ≤ chunk)
    (hshort : Short (read (body^[rounds] x)))
    (hrun : ∀ fuel cancel, run fuel cancel =
      .ok ((Chunks.loop body chunk rounds cancel fuel 0 0 x).map (Chunks.Outcome.map read))) :
    Takes clock run := by
  refine ⟨fun fuel cancel => ⟨_, hrun fuel cancel⟩, ?_, ?_⟩
  · intro fuel cancel value reported done h
    rw [hrun, Except.ok.injEq] at h
    obtain ⟨⟨ending, r, d⟩, hloop, ho⟩ := Option.map_eq_some_iff.mp h
    cases ending with
    | cancelled => cases ho
    | returned y =>
        cases ho
        rwa [Chunks.loop_value fuel hloop]
  · intro cancel hdown _
    obtain ⟨n, -, -, hloop⟩ := Chunks.loop_returns body hchunk x fun i _ => hdown i
    refine ⟨n + 1, fun fuel hfuel => ⟨read (body^[rounds] x), Chunks.reports chunk rounds n,
      rounds, ?_⟩⟩
    rw [hrun, hloop fuel hfuel]
    rfl

/-! ## Sleeping -/

section

variable {clock : MonotonicClock} {seconds : PyFloat} {cancel : ℕ → Bool} {x y : ℚ}

/-- What is not negative is rounded to what is not negative, or to an infinity. -/
theorem ofRat_cases (h : 0 ≤ x) :
    (PyFloat.ofRat x = .finite (binary64.round x) ∧ IsDouble (binary64.round x)) ∨
      PyFloat.ofRat x = .inf false := by
  by_cases hfinite : |binary64.round x| ≤ binary64.largest
  · exact .inl ⟨PyFloat.ofRat_of_nonneg h hfinite, BinaryFormat.representable_round h, hfinite⟩
  · right
    rw [PyFloat.ofRat, if_neg hfinite, decide_eq_false (not_lt.mpr h)]

theorem native_ofRat (h : 0 ≤ x) : (Wire.float (PyFloat.ofRat x)).Native := by
  rcases ofRat_cases h with ⟨heq, hdouble⟩ | heq
  · rw [heq]
    exact hdouble
  · rw [heq]
    trivial

theorem isNegative_ofRat (h : 0 ≤ x) : (PyFloat.ofRat x).isNegative = false := by
  rcases ofRat_cases h with ⟨heq, -⟩ | heq
  · rw [heq]
    exact decide_eq_false (not_lt.mpr (BinaryFormat.round_nonneg h))
  · rw [heq]
    rfl

/-- What is rounded to zero is below zero or equal, whatever its sign. -/
theorem ofRounded_le_zero {negative : Bool} (h : y ≤ 0) :
    (PyFloat.ofRounded negative y).le (.finite 0) = true := by
  unfold PyFloat.ofRounded
  split
  · cases negative <;> rfl
  · exact decide_eq_true h

theorem ofRat_le_zero (h : x ≤ 0) : (PyFloat.ofRat x).le (.finite 0) = true := by
  rw [PyFloat.ofRat]
  split
  · have hneg : 0 ≤ binary64.round (-x) := BinaryFormat.round_nonneg (neg_nonneg.mpr h)
    rw [BinaryFormat.round_neg] at hneg
    exact ofRounded_le_zero (neg_nonneg.mp hneg)
  · next hfinite =>
      refine decide_eq_true (h.lt_of_ne ?_)
      rintro rfl
      rw [BinaryFormat.round_zero, abs_zero] at hfinite
      exact hfinite BinaryFormat.largest_pos.le

/-- Nothing remains of a time that has passed, rounded as it may be. -/
theorem remaining_le_zero (hx : IsDouble x) (hpos : 0 ≤ x) (hxy : x ≤ y) :
    ((PyFloat.finite x).sub (.ofRat y)).le (.finite 0) = true := by
  rcases ofRat_cases (hpos.trans hxy) with ⟨heq, -⟩ | heq
  · have hround : x ≤ binary64.round y :=
      hx.representable.symm.trans_le (BinaryFormat.round_mono hpos hxy)
    rw [heq, PyFloat.sub_finite hx]
    exact ofRat_le_zero (by linarith)
  · rw [heq]
    rfl

theorem elapsed_eq (i : ℕ) :
    Executors.elapsed clock i = .ofRat (clock.read i + -clock.read 0) :=
  PyFloat.sub_finite (clock.double i) _

theorem elapsed_nonneg (i : ℕ) : 0 ≤ clock.read i + -clock.read 0 := by
  have := clock.monotone (Nat.zero_le i)
  linarith

/-- What `run_sleep` returns is a rounded difference of two readings. -/
theorem sleepLoop_value (fuel : ℕ) : ∀ {i : ℕ} {value : Wire} {reported : List ℚ} {rounds : ℕ},
    Executors.sleepLoop clock seconds cancel fuel i = some ⟨.returned value, reported, rounds⟩ →
    ∃ j, value = .float (Executors.elapsed clock j).round3 := by
  induction fuel with
  | zero =>
      intro i value reported rounds h
      cases h
  | succ fuel ih =>
      intro i value reported rounds h
      rw [Executors.sleepLoop] at h
      split_ifs at h with hcancel hdone
      · cases h
      · cases h
        exact ⟨2 * i + 2, rfl⟩
      · obtain ⟨⟨ending, r, d⟩, hrest, ho⟩ := Option.map_eq_some_iff.mp h
        cases ho
        exact ih hrest

/-- The loop ends at a look that finds the time over, or before. -/
theorem sleepLoop_returns {j : ℕ} (hdown : ∀ i, cancel i = false)
    (hover : (seconds.sub (Executors.elapsed clock (2 * j + 1))).le (.finite 0) = true)
    (fuel : ℕ) : ∀ {i : ℕ}, i ≤ j → j < i + fuel → ∃ value reported rounds,
      Executors.sleepLoop clock seconds cancel fuel i =
        some ⟨.returned value, reported, rounds⟩ := by
  induction fuel with
  | zero =>
      intro i hi hj
      omega
  | succ fuel ih =>
      intro i hi hj
      rw [Executors.sleepLoop, if_neg (by rw [hdown]; exact Bool.false_ne_true)]
      split_ifs with hdone
      · exact ⟨_, _, _, rfl⟩
      · have hne : i ≠ j := by
          rintro rfl
          exact hdone hover
        obtain ⟨value, reported, rounds, hrest⟩ := ih (by omega : i + 1 ≤ j) (by omega)
        rw [hrest]
        exact ⟨value, _, rounds, rfl⟩

theorem takes_sleep {run : ℕ → (ℕ → Bool) → Execution} (hx : IsDouble x) (hpos : 0 < x)
    (hmax : x ≤ 3600)
    (hrun : ∀ fuel cancel,
      run fuel cancel = .ok (Executors.sleepLoop clock (.finite x) cancel fuel 0)) :
    Takes clock run := by
  refine ⟨fun fuel cancel => ⟨_, hrun fuel cancel⟩, ?_, ?_⟩
  · intro fuel cancel value reported rounds h
    rw [hrun, Except.ok.injEq] at h
    obtain ⟨j, rfl⟩ := sleepLoop_value fuel h
    rw [elapsed_eq]
    exact short_float (Loaded.native_round3 (isNegative_ofRat (elapsed_nonneg j))
      (native_ofRat (elapsed_nonneg j)))
  · intro cancel hdown ⟨i, hi⟩
    have hover : ((PyFloat.finite x).sub (Executors.elapsed clock (2 * i + 1))).le (.finite 0) =
        true := by
      rw [elapsed_eq]
      refine remaining_le_zero hx hpos.le ?_
      have hlater := clock.monotone (by omega : i ≤ 2 * i + 1)
      linarith
    refine ⟨i + 1, fun fuel hfuel => ?_⟩
    obtain ⟨value, reported, rounds, hloop⟩ :=
      sleepLoop_returns hdown hover fuel (Nat.zero_le i) (by omega)
    exact ⟨value, reported, rounds, by rw [hrun, hloop]⟩

end

/-! ## The two validators -/

section

variable {py : Pydantic} {taskType : String} {parameters : Option (List (PyStr × Wire))}
  {fields p : List (PyStr × Wire)} {clock : MonotonicClock}
  {hash : HashAlgorithm → List UInt8 → List UInt8}

/-- The four shapes of a normalised dictionary. -/
inductive Normalised : String → List (PyStr × Wire) → Prop where
  | countToN {n : ℕ} (hlow : 1 ≤ n) (hhigh : n ≤ 100000000) :
      Normalised "count_to_n" [(pyStr "n", .int n)]
  | hashRounds {rounds : ℕ} {algorithm : String} (hlow : 1 ≤ rounds) (hhigh : rounds ≤ 10000000)
      (halgorithm : algorithm ∈ ["sha256", "sha512"]) :
      Normalised "hash_rounds"
        [(pyStr "rounds", .int rounds), (pyStr "algorithm", .str (pyStr algorithm))]
  | sleep {x : ℚ} (hdouble : IsDouble x) (hlow : 0 < x) (hhigh : x ≤ 3600) :
      Normalised "sleep" [(pyStr "seconds", .float (.finite x))]
  | opaquePayload {payloadB64 : PyStr} {raw : List UInt8}
      (hdecode : b64decode payloadB64 = some raw)
      (hsize : raw.length ≤ 65536) :
      Normalised "opaque_payload" [(pyStr "payload_b64", .str payloadB64)]

/-- A number that pydantic has let pass is a natural one. -/
theorem exists_nat_of_bounds {le : Int} {v : Wire} {n : Int} (h : py.int 1 le v = some n) :
    ∃ m : ℕ, n = m ∧ 1 ≤ m ∧ (m : Int) ≤ le := by
  obtain ⟨hlow, hhigh⟩ := py.int_bounds h
  obtain ⟨m, rfl⟩ := Int.eq_ofNat_of_zero_le (by omega : 0 ≤ n)
  exact ⟨m, rfl, by omega, hhigh⟩

theorem name_of_ofName {t : TaskType} (h : TaskType.ofName taskType = some t) :
    t.name = taskType := by
  rw [TaskType.ofName] at h
  simpa using List.find?_some h

theorem algorithmField_eq_some {v : Option Wire} {algorithm : PyStr}
    (h : TaskType.algorithmField v = some algorithm) :
    ∃ name ∈ ["sha256", "sha512"], algorithm = pyStr name := by
  cases v with
  | none =>
      cases h
      exact ⟨"sha256", List.mem_cons_self, rfl⟩
  | some v =>
      cases v with
      | str s =>
          obtain ⟨name, hname, rfl⟩ := Option.map_eq_some_iff.mp h
          exact ⟨name, List.mem_of_find?_eq_some hname, rfl⟩
      | null | bool _ | int _ | float _ | arr _ | obj _ => cases h

theorem payloadField_eq_some {v : Option Wire} {payloadB64 : PyStr}
    (h : TaskType.payloadField v = some payloadB64) :
    ∃ raw, b64decode payloadB64 = some raw ∧ raw.length ≤ 65536 := by
  cases v with
  | none => cases h
  | some v =>
      cases v with
      | str s =>
          have h : TaskType.mustBeBoundedBase64 s = some payloadB64 := h
          rw [TaskType.mustBeBoundedBase64] at h
          split at h
          · next raw hdecode =>
              split_ifs at h with hsize
              cases h
              exact ⟨raw, hdecode, not_lt.mp hsize⟩
          · cases h
      | null | bool _ | int _ | float _ | arr _ | obj _ => cases h

theorem normalised_countToN (h : TaskType.countToNParams py fields = some p) :
    Normalised "count_to_n" p := by
  obtain ⟨-, -, h⟩ := Option.bind_eq_some_iff.mp h
  obtain ⟨n, hn, h⟩ := Option.bind_eq_some_iff.mp h
  obtain ⟨v, -, hint⟩ := Option.bind_eq_some_iff.mp hn
  obtain ⟨m, rfl, hlow, hhigh⟩ := exists_nat_of_bounds hint
  cases h
  exact .countToN hlow (by exact_mod_cast hhigh)

theorem normalised_hashRounds (h : TaskType.hashRoundsParams py fields = some p) :
    Normalised "hash_rounds" p := by
  obtain ⟨-, -, h⟩ := Option.bind_eq_some_iff.mp h
  obtain ⟨n, hn, h⟩ := Option.bind_eq_some_iff.mp h
  obtain ⟨v, -, hint⟩ := Option.bind_eq_some_iff.mp hn
  obtain ⟨m, rfl, hlow, hhigh⟩ := exists_nat_of_bounds hint
  obtain ⟨algorithm, halgorithm, h⟩ := Option.bind_eq_some_iff.mp h
  obtain ⟨name, hname, rfl⟩ := algorithmField_eq_some halgorithm
  cases h
  exact .hashRounds hlow (by exact_mod_cast hhigh) hname

theorem normalised_sleep (h : TaskType.sleepParams py fields = some p) :
    Normalised "sleep" p := by
  obtain ⟨-, -, h⟩ := Option.bind_eq_some_iff.mp h
  obtain ⟨x, hx, h⟩ := Option.bind_eq_some_iff.mp h
  obtain ⟨v, -, hfloat⟩ := Option.bind_eq_some_iff.mp hx
  obtain ⟨hdouble, hlow, hhigh⟩ := py.float_bounds hfloat
  cases h
  exact .sleep hdouble hlow hhigh

theorem normalised_opaquePayload (h : TaskType.opaquePayloadParams fields = some p) :
    Normalised "opaque_payload" p := by
  obtain ⟨-, -, h⟩ := Option.bind_eq_some_iff.mp h
  obtain ⟨payloadB64, hpayload, h⟩ := Option.bind_eq_some_iff.mp h
  obtain ⟨raw, hdecode, hsize⟩ := payloadField_eq_some hpayload
  cases h
  exact .opaquePayload hdecode hsize

/-- What `validate_parameters` returns is one of the four. -/
theorem normalised_of_validate (h : Loaded.validateParameters py taskType parameters = .ok p) :
    Normalised taskType p := by
  rw [Loaded.validateParameters] at h
  split at h
  · cases h
  · next t ht =>
      cases name_of_ofName ht
      split at h
      · cases h
      · next normalised hparams =>
          cases h
          cases t with
          | countToN => exact normalised_countToN hparams
          | hashRounds => exact normalised_hashRounds hparams
          | sleep => exact normalised_sleep hparams
          | opaquePayload => exact normalised_opaquePayload hparams

/-- Nothing but ASCII is base64. -/
theorem joined_of_b64decode {payloadB64 : PyStr} {raw : List UInt8}
    (h : b64decode payloadB64 = some raw) : joinPairs payloadB64 = payloadB64 := by
  obtain ⟨text, hascii, -⟩ := Option.bind_eq_some_iff.mp h
  rw [PyStr.ascii] at hascii
  split_ifs at hascii with hlow
  refine joinPairs_of_forall fun c hc => decide_eq_false fun hhigh => ?_
  have hlt := hlow c hc
  omega

theorem carried_int {n : ℕ} (hn : n ≤ 100000000) : Carried (.int n) :=
  ⟨trivial, lt_ten_pow nine_le (hn.trans_lt (by decide)), trivial⟩

theorem carried_singleton (key : String) {v : Wire} (hv : v.Everywhere Carried) :
    (Wire.obj [(pyStr key, v)]).Everywhere Carried := by
  have hjoined : (Wire.obj [(pyStr key, v)]).Joined := by
    intro k hk
    rw [List.mem_singleton.mp hk]
    exact joinPairs_pyStr key
  exact ⟨⟨List.nodup_singleton _, trivial, hjoined⟩, hv, trivial⟩

/-- The text of accepted parameters carries them. -/
theorem carried_of_normalised (h : Normalised taskType p) : (Wire.obj p).Everywhere Carried := by
  cases h with
  | countToN hlow hhigh => exact carried_singleton "n" (carried_int hhigh)
  | hashRounds hlow hhigh halgorithm =>
      have hkeys : ([pyStr "rounds", pyStr "algorithm"] : List PyStr).Nodup := by decide
      have hjoined : ∀ k ∈ [pyStr "rounds", pyStr "algorithm"], joinPairs k = k := by decide
      exact ⟨⟨hkeys, trivial, hjoined⟩, carried_int (hhigh.trans (by decide)),
        ⟨trivial, trivial, joinPairs_pyStr _⟩, trivial⟩
  | sleep hdouble hlow hhigh => exact carried_singleton "seconds" ⟨hdouble, trivial, trivial⟩
  | opaquePayload hdecode hsize =>
      exact carried_singleton "payload_b64" ⟨trivial, trivial, joined_of_b64decode hdecode⟩

theorem depth_of_normalised (h : Normalised taskType p) : (Wire.obj p).depth = 1 := by
  cases h <;> rfl

/-- A digest of 32 or 64 bytes, in hexadecimal. -/
theorem short_hex (hdigest : ∀ algorithm digest,
    (hash algorithm digest).length = algorithm.digestSize) (algorithm : HashAlgorithm)
    (rounds : ℕ) : Short (.str (Executors.hex ((hash algorithm)^[rounds] Executors.seed))) := by
  have hsize : ((hash algorithm)^[rounds] Executors.seed).length ≤ 64 := by
    cases rounds with
    | zero => exact (by decide : Executors.seed.length ≤ 64)
    | succ rounds =>
        rw [Function.iterate_succ_apply', hdigest]
        cases algorithm <;> decide
  refine short_str (plain_hex _) ?_
  rw [length_hex_digest]
  omega

theorem takes_opaquePayload {run : ℕ → (ℕ → Bool) → Execution} {payloadB64 : PyStr}
    {raw : List UInt8} (hdecode : b64decode payloadB64 = some raw) (hsize : raw.length ≤ 65536)
    (hrun : ∀ fuel cancel, run fuel cancel =
      Executors.runOpaquePayload [(pyStr "payload_b64", .str payloadB64)] cancel) :
    Takes clock run := by
  have hlimit : ¬ Executors.maxOpaquePayloadBytes < raw.length := not_lt.mpr hsize
  have hget : Wire.get [(pyStr "payload_b64", .str payloadB64)] "payload_b64" = .str payloadB64 :=
    rfl
  have hecho : ∀ fuel cancel, run fuel cancel = .ok (some (if cancel 0 then ⟨.cancelled, [], 0⟩
      else ⟨.returned (.str (b64encode raw)), [1], 1⟩)) := by
    intro fuel cancel
    rw [hrun, Executors.runOpaquePayload, hget]
    simp only [hdecode, if_neg hlimit]
    split <;> rfl
  refine ⟨fun fuel cancel => ⟨_, hecho fuel cancel⟩, ?_, ?_⟩
  · intro fuel cancel value reported rounds h
    rw [hecho, Except.ok.injEq, Option.some_inj] at h
    split_ifs at h
    · cases h
    · cases h
      exact short_b64encode hsize
  · intro cancel hdown _
    refine ⟨0, fun fuel _ => ⟨.str (b64encode raw), [1], 1, ?_⟩⟩
    rw [hecho, hdown, if_neg Bool.false_ne_true]

theorem takes_countToN {run : ℕ → (ℕ → Bool) → Execution} {n : ℕ} (hlow : 1 ≤ n)
    (hhigh : n ≤ 100000000)
    (hrun : ∀ fuel, run fuel =
      Executors.runCountToN Executors.countChunk fuel [(pyStr "n", .int n)]) :
    Takes clock run := by
  have hvalue : (· + 1)^[n] 0 = n := by simp
  have hshort : Short (.int ((· + 1)^[n] 0 : ℕ)) := by
    rw [hvalue]
    exact short_int (hhigh.trans_lt (by decide))
  refine takes_loop (· + 1) 0 (fun (total : ℕ) => .int total)
    (by decide : 1 ≤ Executors.countChunk) hshort fun fuel cancel => ?_
  rw [hrun, Executors.runCountToN, Executors.requireInt_of_get hlow rfl]
  rfl

theorem takes_hashRounds {run : ℕ → (ℕ → Bool) → Execution} {rounds : ℕ} {name : String}
    (hdigest : ∀ algorithm digest, (hash algorithm digest).length = algorithm.digestSize)
    (hlow : 1 ≤ rounds) (hname : name ∈ ["sha256", "sha512"])
    (hrun : ∀ fuel, run fuel = Executors.runHashRounds hash Executors.hashChunkRounds fuel
      [(pyStr "rounds", .int rounds), (pyStr "algorithm", .str (pyStr name))]) :
    Takes clock run := by
  obtain ⟨algorithm, halgorithm⟩ : ∃ algorithm, Executors.readAlgorithm
      [(pyStr "rounds", .int rounds), (pyStr "algorithm", .str (pyStr name))] =
        .ok algorithm := by
    rcases List.mem_pair.mp hname with rfl | rfl
    · exact ⟨.sha256, rfl⟩
    · exact ⟨.sha512, rfl⟩
  refine takes_loop (hash algorithm) Executors.seed (fun digest => .str (Executors.hex digest))
    (by decide : 1 ≤ Executors.hashChunkRounds) (short_hex hdigest algorithm rounds)
    fun fuel cancel => ?_
  rw [hrun, Executors.runHashRounds, Executors.requireInt_of_get hlow rfl, halgorithm]
  rfl

theorem requireNumber_seconds {x : ℚ} (hpos : 0 < x) :
    Executors.requireNumber [(pyStr "seconds", .float (.finite x))] "seconds" =
      .ok (.finite x) := by
  have hle : (PyFloat.finite x).le (.finite 0) = false := decide_eq_false (not_le.mpr hpos)
  have hget : Wire.get [(pyStr "seconds", .float (.finite x))] "seconds" = .float (.finite x) := rfl
  rw [Executors.requireNumber, hget]
  simp only [hle]
  rfl

/-- **What is accepted is taken.** -/
theorem takes_of_normalised (clock : MonotonicClock) (hdigest : ∀ algorithm digest,
    (hash algorithm digest).length = algorithm.digestSize) (h : Normalised taskType p) :
    Takes clock fun fuel => Executors.execute hash clock fuel taskType (some p) := by
  cases h with
  | countToN hlow hhigh => exact takes_countToN hlow hhigh fun fuel => rfl
  | hashRounds hlow hhigh hname => exact takes_hashRounds hdigest hlow hname fun fuel => rfl
  | @sleep x hdouble hlow hhigh =>
      refine takes_sleep hdouble hlow hhigh fun fuel cancel => ?_
      show Executors.runSleep clock fuel [(pyStr "seconds", .float (.finite x))] cancel = _
      rw [Executors.runSleep, requireNumber_seconds hlow]
      rfl
  | opaquePayload hdecode hsize =>
      exact takes_opaquePayload hdecode hsize fun fuel cancel => rfl

/-! ## The envelope -/

/-- A short result fits with its envelope. -/
theorem envelope_of_short {task : Loaded.RunningTask} {d : ℚ} {value : Wire}
    (htoken : task.idempotencyToken.length ≤ 128) (hattempt : task.attempt < 10 ^ maxStrDigits)
    (hepoch : task.sessionEpoch < 10 ^ maxStrDigits) (hd : IsDouble d) (hpos : 0 ≤ d)
    (hvalue : Short value) :
    Loaded.encodedSize (task.members (.finite d) value false) ≤ 131072 ∧
      ∀ w : Process, 1 ≤ w.dumpsDepth →
        Loaded.buildResultEnvelope w Loaded.defaultMaxResultBytes task value (.finite d) =
          some (task.members (.finite d) value false) := by
  have hneg : (PyFloat.finite d).isNegative = false := decide_eq_false (not_lt.mpr hpos)
  have hduration : (Wire.float (PyFloat.finite d).round3).Native := Loaded.native_round3 hneg hd
  have hlength : ((Wire.obj (task.members (.finite d) value false)).text cpython
      .compact).length ≤ 131072 := by
    have hle := Loaded.length_commonMembers_le task.taskId value false [] hattempt
      hepoch htoken hduration
    have hshort := hvalue.length
    rw [maxStrDigits_eq, List.map_nil, List.sum_nil, List.append_nil] at hle
    refine hle.trans ?_
    omega
  have hsize : Loaded.encodedSize (task.members (.finite d) value false) ≤ 131072 := by
    rwa [Loaded.encodedSize, utf8ByteSize_text]
  refine ⟨hsize, fun w hdepth => ?_⟩
  have hspell : (Wire.obj (task.members (.finite d) value false)).Everywhere Wire.Spellable :=
    ⟨trivial, trivial, trivial, hattempt, hepoch, trivial, trivial, hvalue.spellable, trivial,
      trivial⟩
  have hfits : (Wire.obj (task.members (.finite d) value false)).depth ≤ w.dumpsDepth := by
    rwa [Loaded.depth_envelope, hvalue.depth]
  have hdumps : w.dumps .compact (.obj (task.members (.finite d) value false)) =
      some ((Wire.obj (task.members (.finite d) value false)).text cpython .compact) := by
    rw [Process.dumps, if_pos ⟨hspell, hfits, hlength.trans Loaded.le_maxStringSize⟩]
  have hwithin : ¬ Loaded.defaultMaxResultBytes <
      Loaded.encodedSize (task.members (.finite d) value false) := by
    rw [Loaded.defaultMaxResultBytes]
    omega
  rw [Loaded.buildResultEnvelope, hdumps]
  exact congrArg some (if_neg hwithin)

/-- **Accepted parameters run.** They come through their JSON unchanged; the executor of
their type raises nothing on them, and returns when it is not cancelled; and what it
returns is within the default cap with its envelope, which is not cut. -/
theorem accepted_parameters_run (hash : HashAlgorithm → List UInt8 → List UInt8)
    (hdigest : ∀ algorithm digest, (hash algorithm digest).length = algorithm.digestSize)
    (clock : MonotonicClock) (h : Loaded.validateParameters py taskType parameters = .ok p) :
    (∀ (sep : Separators) (depth : ℕ), sep.Legal → 1 ≤ depth →
      loads depth ((Wire.obj p).text cpython sep) = some (.obj p)) ∧
    (∀ fuel cancel, ∃ outcome,
      Executors.execute hash clock fuel taskType (some p) cancel = .ok outcome) ∧
    (∀ cancel : ℕ → Bool, (∀ i, cancel i = false) →
      (∃ i, clock.read 0 + 3600 ≤ clock.read i) → ∃ enough, ∀ fuel ≥ enough,
        ∃ value reported rounds, Executors.execute hash clock fuel taskType (some p) cancel =
          .ok (some ⟨.returned value, reported, rounds⟩)) ∧
    ∀ fuel cancel value reported rounds,
      Executors.execute hash clock fuel taskType (some p) cancel =
        .ok (some ⟨.returned value, reported, rounds⟩) →
      ∀ (task : Loaded.RunningTask) (d : ℚ), task.idempotencyToken.length ≤ 128 →
        task.attempt < 10 ^ maxStrDigits → task.sessionEpoch < 10 ^ maxStrDigits →
        IsDouble d → 0 ≤ d →
        Loaded.encodedSize (task.members (.finite d) value false) ≤ 131072 ∧
          ∀ w : Process, 1 ≤ w.dumpsDepth →
            Loaded.buildResultEnvelope w Loaded.defaultMaxResultBytes task value (.finite d) =
              some (task.members (.finite d) value false) := by
  have hnormalised := normalised_of_validate h
  have htakes := takes_of_normalised clock hdigest hnormalised
  refine ⟨fun sep depth hsep hdepth => ?_, htakes.accepts, htakes.returns, ?_⟩
  · refine loads_text hsep (carried_of_normalised hnormalised) ?_
    rwa [depth_of_normalised hnormalised]
  · intro fuel cancel value reported rounds hrun task d htoken hattempt hepoch hd hpos
    exact envelope_of_short htoken hattempt hepoch hd hpos (htakes.short hrun)

end

namespace Demo

theorem checkedInt_bounds {ge le : Int} {v : Wire} {n : Int}
    (h : (match v with
      | .int n => if ge ≤ n ∧ n ≤ le then some n else none
      | _ => none) = some n) : ge ≤ n ∧ n ≤ le := by
  split at h
  · split_ifs at h with hbounds
    cases h
    exact hbounds
  · cases h

/-- Pydantic on numbers that are what they should be. -/
def pydantic : Pydantic where
  int ge le v :=
    match v with
    | .int n => if ge ≤ n ∧ n ≤ le then some n else none
    | _ => none
  int_bounds := checkedInt_bounds
  float _ _ _ := none
  float_bounds h := by cases h

/-- A digest of the right size. -/
def digest (algorithm : HashAlgorithm) (_ : List UInt8) : List UInt8 :=
  List.replicate algorithm.digestSize 0

theorem length_digest (algorithm : HashAlgorithm) (data : List UInt8) :
    (digest algorithm data).length = algorithm.digestSize := List.length_replicate

theorem second_double (i : ℕ) : IsDouble ((min i 4000 : ℕ) : ℚ) :=
  isDouble_natCast ((min_le_right i 4000).trans_lt (by decide))

theorem second_monotone : Monotone fun i : ℕ => ((min i 4000 : ℕ) : ℚ) := by
  intro i j hij
  exact Nat.cast_le.mpr (min_le_min_right 4000 hij)

/-- A second a reading, for somewhat more than an hour. -/
def clock : MonotonicClock := ⟨fun i => (min i 4000 : ℕ), second_double, second_monotone⟩

variable {raw : List UInt8}

theorem not_oversized (hraw : raw.length ≤ 65536) :
    ¬ TaskType.maxOpaquePayloadBytes < raw.length := not_lt.mpr hraw

/-- A payload of at most as many bytes as are allowed is taken. -/
theorem payload_accepted (hraw : raw.length ≤ 65536) :
    Loaded.validateParameters pydantic "opaque_payload"
      (some [(pyStr "payload_b64", .str (b64encode raw))]) =
        .ok [(pyStr "payload_b64", .str (b64encode raw))] := by
  have hbounded : TaskType.mustBeBoundedBase64 (b64encode raw) = some (b64encode raw) := by
    rw [TaskType.mustBeBoundedBase64, b64decode_b64encode]
    exact if_neg (not_oversized hraw)
  have hparams : TaskType.opaquePayload.params pydantic
      [(pyStr "payload_b64", .str (b64encode raw))] =
        (TaskType.mustBeBoundedBase64 (b64encode raw)).bind fun value =>
          some [(pyStr "payload_b64", .str value)] := rfl
  rw [hbounded, Option.bind_some] at hparams
  have hname : TaskType.ofName "opaque_payload" = some .opaquePayload := by decide
  rw [Loaded.validateParameters, hname]
  simp only [Option.getD_some, hparams]

/-- And it comes back as it was sent. -/
theorem payload_echoed (hraw : raw.length ≤ 65536) (fuel : ℕ) :
    Executors.execute digest clock fuel "opaque_payload"
      (some [(pyStr "payload_b64", .str (b64encode raw))]) (fun _ => false) =
        .ok (some ⟨.returned (.str (b64encode raw)), [1], 1⟩) := by
  have hrun : Executors.execute digest clock fuel "opaque_payload"
      (some [(pyStr "payload_b64", .str (b64encode raw))]) (fun _ => false) =
        Executors.runOpaquePayload [(pyStr "payload_b64", .str (b64encode raw))]
          (fun _ => false) := rfl
  have hget : Wire.get [(pyStr "payload_b64", .str (b64encode raw))] "payload_b64" =
      .str (b64encode raw) := rfl
  rw [hrun, Executors.runOpaquePayload, hget]
  simp only [b64decode_b64encode, Bool.false_eq_true, if_false]
  exact if_neg (not_oversized hraw)

/-- A payload of as many bytes as are allowed. -/
def largestPayload : List UInt8 := List.replicate 65536 0

theorem length_largestPayload : largestPayload.length = 65536 := List.length_replicate

end Demo

/-- Counting to three, and the echo of a payload of the largest size. -/
theorem accepted_parameters_run_count_and_echo :
    (∃ enough, ∀ fuel ≥ enough, ∃ value reported rounds,
      Executors.execute Demo.digest Demo.clock fuel "count_to_n" (some [(pyStr "n", .int 3)])
        (fun _ => false) = .ok (some ⟨.returned value, reported, rounds⟩) ∧
      Loaded.encodedSize ((Demo.running (pyStr "t")).members (.finite 0) value false) ≤ 131072) ∧
    (b64encode Demo.largestPayload).length = 87384 ∧
    ∀ fuel,
      Executors.execute Demo.digest Demo.clock fuel "opaque_payload"
        (some [(pyStr "payload_b64", .str (b64encode Demo.largestPayload))]) (fun _ => false) =
          .ok (some ⟨.returned (.str (b64encode Demo.largestPayload)), [1], 1⟩) ∧
      Loaded.encodedSize ((Demo.running (pyStr "t")).members (.finite 0)
        (.str (b64encode Demo.largestPayload)) false) ≤ 131072 := by
  have hdigits : 0 < 10 ^ maxStrDigits := Nat.pow_pos (by decide)
  have hepoch : 1 < 10 ^ maxStrDigits := Nat.one_lt_pow maxStrDigits_pos.ne' (by decide)
  have hzero : IsDouble 0 := isDouble_natCast (n := 0) (by decide)
  refine ⟨?_, ?_, fun fuel => ⟨Demo.payload_echoed Demo.length_largestPayload.le fuel, ?_⟩⟩
  · have hnormalised : Loaded.validateParameters Demo.pydantic "count_to_n"
        (some [(pyStr "n", .int 3)]) = .ok [(pyStr "n", .int 3)] := rfl
    obtain ⟨-, -, hreturns, hfits⟩ :=
      accepted_parameters_run Demo.digest Demo.length_digest Demo.clock hnormalised
    have hhour : ∃ i, Demo.clock.read 0 + 3600 ≤ Demo.clock.read i := by
      refine ⟨3600, ?_⟩
      show ((min 0 4000 : ℕ) : ℚ) + 3600 ≤ ((min 3600 4000 : ℕ) : ℚ)
      norm_num
    obtain ⟨enough, hrun⟩ := hreturns (fun _ => false) (fun _ => rfl) hhour
    refine ⟨enough, fun fuel hfuel => ?_⟩
    obtain ⟨value, reported, rounds, hvalue⟩ := hrun fuel hfuel
    exact ⟨value, reported, rounds, hvalue, (hfits fuel _ value reported rounds hvalue
      (Demo.running (pyStr "t")) 0 (by decide) hdigits hepoch hzero le_rfl).1⟩
  · rw [length_b64encode, Demo.length_largestPayload]
  · obtain ⟨-, -, -, hfits⟩ := accepted_parameters_run Demo.digest Demo.length_digest Demo.clock
      (Demo.payload_accepted Demo.length_largestPayload.le)
    exact (hfits fuel _ _ _ _ (Demo.payload_echoed Demo.length_largestPayload.le fuel)
      (Demo.running (pyStr "t")) 0 (by decide) hdigits hepoch hzero le_rfl).1

end TaskFleet.Model
