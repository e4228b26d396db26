import TaskFleet.Model.Backoff

/-!
# How long the retry loops live

The cap of `_full_jitter` is applied after the power is computed, and the power
of a long enough outage raises `OverflowError`. Neither loop catches it; nothing
else ends one before the stop event is set (`backoff_survives_iff`).
-/

namespace TaskFleet.Model

open Py

/-- The power of so many failures, in exact arithmetic, rounds to a double. -/
def JitterSettings.Fits (s : JitterSettings) (failures : ℕ) : Prop :=
  s.factor ^ nearestDouble failures < binary64.overflowBound

/-- The loop runs until the stop event is set. -/
def RetryState.Alive (s : RetryState) : Prop := s.pc.Ended → s.stopEvent = true

section

variable {α : Type} {s : JitterSettings} {k : ℕ} {draw : PyFloat.Draw}
  {body : Bool → ℕ → α → PyFloat.Draw → ℕ × Option (Except OverflowError PyFloat)}
  {st st' : RetryState} {e : RetryEvent α}

/-! ## The delay -/

theorem JitterSettings.factor_pow_pos (s : JitterSettings) (n : ℕ) : 0 < s.factor ^ n :=
  pow_pos (one_pos.trans s.one_lt_factor) n

theorem fits_zero (s : JitterSettings) : s.Fits 0 := by
  have hzero : nearestDouble 0 = 0 := nearestDouble_of_lt (by norm_num)
  rw [JitterSettings.Fits, hzero, pow_zero]
  calc (1 : ℚ) ≤ (2 ^ 53 - 1) * 2 ^ (0 : ℤ) := by norm_num
    _ ≤ binary64.largest :=
        mul_le_mul_of_nonneg_left (zpow_le_zpow_right₀ (by norm_num) (by decide)) (by norm_num)
    _ < binary64.overflowBound := BinaryFormat.largest_lt_overflowBound

/-- A longer outage never fits where a shorter one does not. -/
theorem JitterSettings.Fits.anti {j : ℕ} (h : s.Fits k) (hle : j ≤ k) : s.Fits j :=
  (pow_le_pow_right₀ s.one_lt_factor.le (nearestDouble_mono hle)).trans_lt h

/-- The smaller of the cap and a product is a double between 0 and the cap. -/
theorem min_mul_finite {power : ℚ} (hpower : 0 ≤ power) :
    ∃ y, (PyFloat.finite s.maximum).min ((PyFloat.finite s.base).mul (.finite power)) = .finite y ∧
      IsDouble y ∧ 0 ≤ y ∧ y ≤ s.maximum := by
  have hnonneg : 0 ≤ s.base * power := mul_nonneg s.base_pos.le hpower
  have hround : 0 ≤ binary64.round (s.base * power) := BinaryFormat.round_nonneg hnonneg
  have hcap : ∃ y, PyFloat.finite s.maximum = .finite y ∧ IsDouble y ∧ 0 ≤ y ∧ y ≤ s.maximum :=
    ⟨s.maximum, rfl, s.maximum_double, s.maximum_pos.le, le_rfl⟩
  rw [PyFloat.mul_of_nonneg s.base_pos.le hpower]
  by_cases hfinite : |binary64.round (s.base * power)| ≤ binary64.largest
  · rw [PyFloat.ofRat_of_nonneg hnonneg hfinite, PyFloat.min_finite]
    split
    · next hlt =>
        exact ⟨_, rfl, ⟨BinaryFormat.representable_round hnonneg, hfinite⟩, hround, hlt.le⟩
    · exact hcap
  · -- an infinite product is not below the cap
    rw [PyFloat.ofRat, if_neg hfinite, decide_eq_false (not_lt.mpr hnonneg)]
    exact hcap

/-- A delay is drawn within the cap when the power fits. -/
theorem fullJitter_of_fits (draw : PyFloat.Draw) (h : s.Fits k) :
    ∃ d, s.fullJitter k draw = .ok (.finite d) ∧ 0 ≤ d ∧ d ≤ s.maximum := by
  have hpower : 0 ≤ binary64.round (s.factor ^ nearestDouble k) :=
    BinaryFormat.round_nonneg (s.factor_pow_pos _).le
  obtain ⟨y, hmin, hdouble, hy, hle⟩ := min_mul_finite (s := s) hpower
  obtain ⟨d, hd, hd₀, hdy⟩ := PyFloat.uniform_zero hdouble hy draw
  refine ⟨d, ?_, hd₀, hdy.trans hle⟩
  rw [JitterSettings.fullJitter, fullJitter, PyFloat.pow_of_lt s.factor_double s.one_lt_factor h]
  show Except.ok (PyFloat.uniform _ (PyFloat.min _ _) _) = _
  rw [hmin, hd]

theorem fullJitter_of_not_fits (draw : PyFloat.Draw) (h : ¬ s.Fits k) : ∃ e,
    s.fullJitter k draw = .error e := by
  obtain ⟨e, he⟩ := PyFloat.pow_of_le (one_pos.trans s.one_lt_factor) (not_lt.mp h)
  refine ⟨e, ?_⟩
  rw [JitterSettings.fullJitter, fullJitter, he]
  rfl

theorem fullJitter_error_iff (draw : PyFloat.Draw) : (∃ e, s.fullJitter k draw = .error e) ↔
    ¬ s.Fits k := by
  refine ⟨?_, fullJitter_of_not_fits draw⟩
  rintro ⟨e, he⟩ hfits
  obtain ⟨d, hd, -⟩ := fullJitter_of_fits draw hfits
  rw [he] at hd
  cases hd

theorem fullJitter_within_iff :
    (∃ d, s.fullJitter k draw = .ok (.finite d) ∧ 0 ≤ d ∧ d ≤ s.maximum) ↔ s.Fits k := by
  refine ⟨?_, fullJitter_of_fits draw⟩
  rintro ⟨d, hd, -⟩
  by_contra hfits
  obtain ⟨e, he⟩ := fullJitter_of_not_fits draw hfits
  rw [he] at hd
  cases hd

/-! ## The loops -/

/-- A step that works, while the stop event is not set, meets what the body asks
of the failures so far and the outcome. -/
def WorkGuard (fits : ℕ → α → Prop) (st : RetryState) (e : RetryEvent α) : Prop :=
  ∀ failures outcome draw, st.pc = .working failures → e = .work outcome draw →
    st.stopEvent = false → fits failures outcome

theorem retryLoop_deterministic : (retryLoop body).Deterministic := by
  intro st e t t' h h'
  exact Option.some.inj (h.symm.trans h')

/-- A body that raises exactly when its outcome does not fit keeps the loop alive
exactly through the steps whose outcome fits. -/
theorem alive_step_iff {fits : ℕ → α → Prop}
    (hbody : ∀ k o r, (∃ e, (body false k o r).2 = some (.error e)) ↔ ¬ fits k o)
    (h : retryStep body st e = some st') :
    st'.Alive ↔ WorkGuard fits st e := by
  have hidle (he : ∀ outcome draw, e ≠ .work outcome draw) : WorkGuard fits st e :=
    fun _ outcome draw _ hwork => absurd hwork (he outcome draw)
  cases e with
  | stop =>
      cases h
      exact iff_of_true (fun _ => rfl) (hidle fun _ _ he => by cases he)
  | test =>
      refine iff_of_true ?_ (hidle fun _ _ he => by cases he)
      simp only [retryStep] at h
      split at h <;> cases h
      intro hended
      cases hstop : st.stopEvent with
      | true => rfl
      | false => simp [hstop, RetryPc.Ended] at hended
  | wake =>
      refine iff_of_true ?_ (hidle fun _ _ he => by cases he)
      simp only [retryStep] at h
      split at h <;> cases h
      exact fun hended => hended.elim
  | cancel =>
      refine iff_of_true ?_ (hidle fun _ _ he => by cases he)
      simp only [retryStep] at h
      split at h <;> cases h
      next hstop => exact fun _ => hstop
  | work outcome draw =>
      simp only [retryStep] at h
      split at h
      · next k hpc =>
          cases hstop : st.stopEvent with
          | true =>
              refine iff_of_true ?_ fun _ _ _ _ _ hclear => (by rw [hstop] at hclear; cases hclear)
              rw [hstop] at h
              split at h <;> (cases h; exact fun _ => rfl)
          | false =>
              have hguard : WorkGuard fits st (.work outcome draw) ↔ fits k outcome := by
                refine ⟨fun hg => hg k outcome draw hpc rfl hstop, fun hfits k' o r hk ho _ => ?_⟩
                cases hpc.symm.trans hk
                cases ho
                exact hfits
              rw [hguard, ← not_iff_not, ← hbody k outcome draw]
              rw [hstop] at h
              split at h
              · next hval => cases h; simp [RetryState.Alive, RetryPc.Ended, hval]
              · next hval => cases h; simp [RetryState.Alive, RetryPc.Ended, hval]
              · next hval => cases h; simp [RetryState.Alive, RetryPc.Ended, hval]
      · cases h

/-- **Every run.** A loop stays alive through a run exactly when every outcome
in it fits. -/
theorem retryLoop_alive_iff {fits : ℕ → α → Prop}
    (hbody : ∀ k o r, (∃ e, (body false k o r).2 = some (.error e)) ↔ ¬ fits k o)
    {es : List (RetryEvent α)} (h : (retryLoop body).Trace {} es st) :
    ((retryLoop body).guarded (WorkGuard fits)).Trace {} es st ↔
      ∀ as bs u, es = as ++ bs → (retryLoop body).Trace {} as u → u.Alive := by
  refine h.guarded_iff retryLoop_deterministic ?_ ?_ rfl
  · rintro _ rfl hended
    exact hended.elim
  · intro st e st' _ hstep _
    exact alive_step_iff hbody hstep

/-- A connection that was not established adds a failure. -/
def connectionFits (s : JitterSettings) (consecutiveFailures : ℕ) (established : Bool) : Prop :=
  established = false → s.Fits (consecutiveFailures + 1)

/-- A pass that found results and neither delivered one nor waits adds a
failure. -/
def passFits (s : JitterSettings) (failures : ℕ) (pending : List Submission) : Prop :=
  pending ≠ [] → submitPending pending = (0, 0) → s.Fits (failures + 1)

theorem runWsForever_raises (k : ℕ) (established : Bool) (draw : PyFloat.Draw) :
    (∃ e, (runWsForever s false k established draw).2 = some (.error e)) ↔
      ¬ connectionFits s k established := by
  have hraises : (∃ e, (runWsForever s false k established draw).2 = some (.error e)) ↔
      ¬ s.Fits (if established then 0 else k + 1) := by
    rw [← fullJitter_error_iff draw]
    simp [runWsForever]
  rw [hraises, not_iff_not]
  cases established with
  | true => simp [connectionFits, fits_zero]
  | false => simp [connectionFits]

theorem submitPending_eq_zero_iff (pending : List Submission) :
    submitPending pending = (0, 0) ↔
      ¬ (0 < (submitPending pending).1 ∨ 0 < (submitPending pending).2) := by
  rw [Prod.ext_iff]
  simp only
  omega

theorem resultSubmissionLoop_raises (grace : PyFloat) (k : ℕ) (pending : List Submission)
    (draw : PyFloat.Draw) :
    (∃ e, (resultSubmissionLoop s grace false k pending draw).2 = some (.error e)) ↔
      ¬ passFits s k pending := by
  cases pending with
  | nil => simp [resultSubmissionLoop, passFits]
  | cons first rest =>
      generalize hpass : first :: rest = pending
      have hne : pending ≠ [] := hpass ▸ List.cons_ne_nil first rest
      have hraises : (∃ e,
          (resultSubmissionLoop s grace false k pending draw).2 = some (.error e)) ↔
          ¬ s.Fits (if 0 < (submitPending pending).1 ∨ 0 < (submitPending pending).2 then 0
            else k + 1) := by
        rw [← fullJitter_error_iff draw, resultSubmissionLoop,
          if_neg (by simpa using hne)]
        obtain ⟨delivered, waiting⟩ := submitPending pending
        -- the wait for an acknowledgement only changes a delay there is
        cases hd : s.fullJitter (if 0 < delivered ∨ 0 < waiting then 0 else k + 1) draw with
        | ok d => simp [hd, bind, Except.bind, pure, Except.pure]
        | error e => simp [hd, bind, Except.bind]
      rw [hraises, not_iff_not, passFits, submitPending_eq_zero_iff]
      by_cases hmoved : 0 < (submitPending pending).1 ∨ 0 < (submitPending pending).2
      · rw [if_pos hmoved]
        exact iff_of_true (fits_zero s) fun _ hnone => absurd hmoved hnone
      · rw [if_neg hmoved]
        exact ⟨fun hfits _ _ => hfits, fun h => h hne hmoved⟩

/-- **The loops live as long as their powers fit.** With any settings of the two
backoffs:

* a delay between 0 and the cap is returned exactly for the failure counts whose
  power, in exact arithmetic, is below half a unit past the largest double;
* a run of the connection loop never ends before the stop event is set exactly
  when each of its failed attempts brings the count to one that fits;
* so does a run of the submission loop, for the passes that neither delivered
  anything nor wait for anything. -/
theorem backoff_survives_iff (ws results : JitterSettings) (grace : PyFloat) :
    (∀ (s : JitterSettings) k draw,
      (∃ d, s.fullJitter k draw = .ok (.finite d) ∧ 0 ≤ d ∧ d ≤ s.maximum) ↔
        s.factor ^ nearestDouble k < binary64.overflowBound) ∧
    (∀ es st, (retryLoop (runWsForever ws)).Trace {} es st →
      (((retryLoop (runWsForever ws)).guarded (WorkGuard (connectionFits ws))).Trace {} es st ↔
        ∀ as bs u, es = as ++ bs → (retryLoop (runWsForever ws)).Trace {} as u → u.Alive)) ∧
    ∀ es st, (retryLoop (resultSubmissionLoop results grace)).Trace {} es st →
      (((retryLoop (resultSubmissionLoop results grace)).guarded
          (WorkGuard (passFits results))).Trace {} es st ↔
        ∀ as bs u, es = as ++ bs →
          (retryLoop (resultSubmissionLoop results grace)).Trace {} as u → u.Alive) :=
  ⟨fun _ _ _ => fullJitter_within_iff,
    fun _ _ h => retryLoop_alive_iff runWsForever_raises h,
    fun _ _ h => retryLoop_alive_iff (resultSubmissionLoop_raises grace) h⟩

/-! ## The shipped settings -/

/-- `WS_BACKOFF_*` as shipped. -/
def wsBackoff : JitterSettings where
  base := (1 : ℕ)
  factor := (2 : ℕ)
  maximum := (30 : ℕ)
  base_double := isDouble_natCast (by norm_num)
  factor_double := isDouble_natCast (by norm_num)
  maximum_double := isDouble_natCast (by norm_num)
  base_pos := by norm_num
  one_lt_factor := by norm_num
  maximum_pos := by norm_num

/-- With a factor of two the first count that does not fit is 1024. -/
theorem wsBackoff_fits_iff : wsBackoff.Fits k ↔ k < 1024 := by
  constructor
  · intro h
    by_contra hge
    have hfits : wsBackoff.Fits 1024 := h.anti (not_lt.mp hge)
    rw [JitterSettings.Fits, nearestDouble_of_lt (by norm_num)] at hfits
    exact absurd overflowBound_le_two_pow (not_le.mpr hfits)
  · intro hlt
    have hlast : (2 : ℚ) ^ (1023 : ℕ) ≤ binary64.largest := by
      have hsplit : (2 : ℚ) ^ (1023 : ℕ) = 2 ^ 52 * 2 ^ (971 : ℤ) := by
        rw [← zpow_natCast, ← zpow_natCast, ← zpow_add₀ (by norm_num)]
        rfl
      rw [hsplit]
      exact mul_le_mul_of_nonneg_right (by norm_num [binary64]) (two_zpow_pos _).le
    have hnearest : nearestDouble 1023 = 1023 := nearestDouble_of_lt (by norm_num)
    have hfits : wsBackoff.Fits 1023 := by
      rw [JitterSettings.Fits, hnearest]
      exact hlast.trans_lt BinaryFormat.largest_lt_overflowBound
    exact hfits.anti (Nat.le_of_lt_succ hlt)

/-- An outage leads the connection loop to any count that fits. -/
theorem wsBackoff_outage (draw : PyFloat.Draw) (hk : k < 1024) :
    ∃ es, (retryLoop (runWsForever wsBackoff)).Trace {} es ⟨false, .testing k⟩ := by
  induction k with
  | zero => exact ⟨[], .nil⟩
  | succ k ih =>
      obtain ⟨es, htrace⟩ := ih (Nat.lt_of_succ_lt hk)
      obtain ⟨d, hd, -⟩ := fullJitter_of_fits draw (wsBackoff_fits_iff.mpr hk)
      have hwork : retryStep (runWsForever wsBackoff) ⟨false, .working k⟩ (.work false draw) =
          some ⟨false, .parked (k + 1) (.finite d)⟩ := by
        simp [retryStep, runWsForever, hd]
      have htest : retryStep (runWsForever wsBackoff) ⟨false, .testing k⟩ .test =
          some ⟨false, .working k⟩ := rfl
      have hwake : retryStep (runWsForever wsBackoff) ⟨false, .parked (k + 1) (.finite d)⟩ .wake =
          some ⟨false, .testing (k + 1)⟩ := rfl
      exact ⟨_, ((htrace.snoc htest).snoc hwork).snoc hwake⟩

end

/-- The first failure of a connection loop leaves it alive. -/
theorem backoff_survives_first_failure (draw : PyFloat.Draw) :
    ∀ as bs u, [.test, .work false draw] = as ++ bs →
      (retryLoop (runWsForever wsBackoff)).Trace {} as u → u.Alive := by
  obtain ⟨d, hd, -⟩ := fullJitter_of_fits draw (wsBackoff_fits_iff.mpr (by decide : 1 < 1024))
  have htest : (retryLoop (runWsForever wsBackoff)).step {} .test ⟨false, .working 0⟩ := rfl
  have hwork : (retryLoop (runWsForever wsBackoff)).step ⟨false, .working 0⟩ (.work false draw)
      ⟨false, .parked 1 (.finite d)⟩ := by
    simp [retryLoop, retryStep, runWsForever, hd]
  have htrace := (System.Trace.single htest).snoc hwork
  have hfirst : WorkGuard (connectionFits wsBackoff) {} .test := fun _ _ _ _ h => (by cases h)
  have hsecond : WorkGuard (connectionFits wsBackoff) ⟨false, .working 0⟩ (.work false draw) := by
    intro k established r hk _ _ _
    cases hk
    exact wsBackoff_fits_iff.mpr (by decide)
  have hguarded := (System.Trace.single (S := (retryLoop (runWsForever wsBackoff)).guarded _)
    ⟨htest, hfirst⟩).snoc ⟨hwork, hsecond⟩
  exact ((backoff_survives_iff wsBackoff wsBackoff (.finite 10)).2.1 _ _ htrace).mp hguarded

/-- **The outage that kills the loop.** The shipped backoff raises at the
1024th failure, which an outage reaches, and the connection loop is over while
the stop event is clear. -/
theorem long_outage_kills_loop :
    (∀ draw, ¬ ∃ d, wsBackoff.fullJitter 1024 draw = .ok d) ∧
      ∃ es st, (retryLoop (runWsForever wsBackoff)).Run es st ∧ st.pc.Ended ∧
        st.stopEvent = false := by
  have hfits : ¬ wsBackoff.Fits 1024 := fun h => absurd (wsBackoff_fits_iff.mp h) (by decide)
  refine ⟨fun draw ⟨d, hd⟩ => ?_, ?_⟩
  · obtain ⟨e, he⟩ := fullJitter_of_not_fits draw hfits
    rw [he] at hd
    cases hd
  · obtain ⟨es, htrace⟩ := wsBackoff_outage ⟨0, le_rfl, one_pos⟩ (k := 1023) (by decide)
    obtain ⟨e, he⟩ := fullJitter_of_not_fits ⟨0, le_rfl, one_pos⟩ hfits
    have hwork : retryStep (runWsForever wsBackoff) ⟨false, .working 1023⟩
        (.work false ⟨0, le_rfl, one_pos⟩) = some ⟨false, .raised e⟩ := by
      simp [retryStep, runWsForever, he]
    have htest : retryStep (runWsForever wsBackoff) ⟨false, .testing 1023⟩ .test =
        some ⟨false, .working 1023⟩ := rfl
    exact ⟨_, _, ⟨{}, rfl, (htrace.snoc htest).snoc hwork⟩, trivial, rfl⟩

end TaskFleet.Model
