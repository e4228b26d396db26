import TaskFleet.Model.QueueRun
import TaskFleet.Model.Submission

/-!
# Pending results wake the submission loop

The event is set by those who leave something to submit and cleared by the loop before
it looks, and by the acknowledgement after which nothing is left. So a clear event means
that nothing has come since the loop began to look (`pending_results_wake`).
-/

namespace TaskFleet.Model

open Py

/-- The loop is past the start of a pass and has not gone back to the `while`. -/
def SubmissionPc.InPass : SubmissionPc → Prop
  | .passing _ _ _ | .sending _ _ _ _ | .parked _ _ _ => True
  | _ => False

/-- **The wake-ups that are owed.** After the events `es`, in the state they led to. -/
structure WakesUp (cfg : SubmissionConfig) (es : List SubmissionEvent) (s : Submitter) : Prop where
  /-- With the event clear, nothing is new since the last pass began. -/
  seen : ∀ failures delay woken, s.pc = .parked failures delay woken → s.resultsPending = false →
    ∃ as bs, es = as ++ .test :: bs ∧ .test ∉ bs ∧ ∀ taskId ∈ s.runner.pendingResults.keys,
      (∃ envelope, .record taskId envelope ∈ as) ∧ (∀ envelope, .record taskId envelope ∉ bs) ∧
        ∀ sessionEpoch, .attach sessionEpoch ∉ bs
  /-- With the event set, the wait returns. -/
  wakes : ∀ failures delay woken, s.pc = .parked failures delay woken → s.resultsPending = true →
    ∃ t, s.next cfg .wake = some t ∧ t.pc = .testing failures
  /-- What is recorded in a pass, or pending when a session opens in it, ends the wait
  after it. -/
  another : ∀ as bs taskId failures delay woken, es = as ++ .test :: bs → .test ∉ bs →
    s.pc = .parked failures delay woken → taskId ∈ s.runner.pendingResults.keys →
      ((∃ envelope, .record taskId envelope ∈ bs) ∨ ∃ sessionEpoch, .attach sessionEpoch ∈ bs) →
        ∃ t, s.next cfg .wake = some t ∧ t.pc = .testing failures
  /-- An event that is set stays set until the next pass begins or nothing is owed. -/
  kept : ∀ e t, s.next cfg e = some t → s.resultsPending = true →
    t.resultsPending = true ∨ e = .test ∨ t.runner.pendingResults.keys = []

section

variable {cfg : SubmissionConfig} {s t : Submitter} {e : SubmissionEvent}
  {es : List SubmissionEvent}

theorem keys_eq_nil_of_size {κ ν : Type} {d : Dict κ ν} (h : d.size = 0) : d.keys = [] :=
  List.eq_nil_of_length_eq_zero (d.size_eq_length ▸ h)

/-! ## The three handlers -/

/-- Recording sets the event, or leaves nothing pending and the loop alone. -/
theorem recordResult_pending (cap : ℕ) (s : Submitter) (taskId : String) (envelope : WorkerResult) :
    let t := s.recordResult cap taskId envelope
    t.resultsPending = true ∧ t.pc = s.pc.notify ∨
      t.resultsPending = s.resultsPending ∧ t.pc = s.pc ∧ t.runner.pendingResults.keys = [] := by
  intro t
  by_cases hcap : cap = 0
  · right
    have ht : t = { s with
        runner := { s.runner with pendingResults := s.runner.makeRoom cap }
        resultSentAt := t.resultSentAt } := by
      simp only [t, Submitter.recordResult, if_pos hcap]
    rw [ht]
    refine ⟨rfl, rfl, ?_⟩
    show (s.runner.pendingResults.dropFirst (s.runner.pendingResults.size + 1 - cap)).keys = []
    rw [Dict.keys_dropFirst, List.drop_eq_nil_iff, ← Dict.size_eq_length]
    omega
  · left
    simp only [t, Submitter.recordResult, if_neg hcap]
    exact ⟨rfl, rfl⟩

/-- It adds no other result. -/
theorem keys_recordResult {cap : ℕ} {taskId k : String} {envelope : WorkerResult}
    (h : k ∈ (s.recordResult cap taskId envelope).runner.pendingResults.keys) :
    k = taskId ∨ k ∈ s.runner.pendingResults.keys := by
  have hroom : ∀ k, k ∈ (s.runner.makeRoom cap).keys → k ∈ s.runner.pendingResults.keys := by
    intro k hk
    rw [TaskRunner.makeRoom, Dict.keys_dropFirst] at hk
    exact List.mem_of_mem_drop hk
  unfold Submitter.recordResult at h
  split at h
  · exact .inr (hroom k h)
  · exact (Dict.mem_keys_set.mp h).imp_right (hroom k)

/-- An acknowledgement touches the event only when nothing is left. -/
theorem resultAcknowledged_pending (s : Submitter) (taskId : String) :
    let t := s.resultAcknowledged taskId
    t.resultsPending = s.resultsPending ∨ t.resultsPending = false ∧
      t.runner.pendingResults.keys = [] := by
  intro t
  by_cases hsize : t.runner.pendingResults.size = 0
  · exact .inr ⟨if_pos hsize, keys_eq_nil_of_size hsize⟩
  · exact .inl (if_neg hsize)

/-- Attaching sets the event if anything is pending. -/
theorem attach_pending (s : Submitter) (sessionEpoch : ℕ) :
    let t := s.attach sessionEpoch
    t.runner.pendingResults = s.runner.pendingResults ∧
      (t.resultsPending = true ∧ t.pc = s.pc.notify ∨
        t.resultsPending = s.resultsPending ∧ t.pc = s.pc ∧ s.runner.pendingResults.keys = []) := by
  dsimp only
  unfold Submitter.attach
  dsimp only
  split
  · next hsize => exact ⟨rfl, .inr ⟨rfl, rfl, keys_eq_nil_of_size hsize⟩⟩
  · exact ⟨rfl, .inl ⟨rfl, rfl⟩⟩

/-! ## One step -/

/-- What a step does, as far as the event and what is pending go. -/
inductive WakeMove (s t : Submitter) : SubmissionEvent → Prop
  | record (taskId : String) (envelope : WorkerResult)
      (hset : t.resultsPending = true ∧ t.pc = s.pc.notify ∨
        t.resultsPending = s.resultsPending ∧ t.pc = s.pc ∧ t.runner.pendingResults.keys = [])
      (hkeys : ∀ k ∈ t.runner.pendingResults.keys, k = taskId ∨ k ∈ s.runner.pendingResults.keys) :
      WakeMove s t (.record taskId envelope)
  | acknowledge (taskId : String)
      (hset : t.resultsPending = s.resultsPending ∨
        t.resultsPending = false ∧ t.runner.pendingResults.keys = [])
      (hkeys : ∀ k ∈ t.runner.pendingResults.keys, k ∈ s.runner.pendingResults.keys)
        (hpc : t.pc = s.pc) :
      WakeMove s t (.acknowledge taskId)
  | attach (sessionEpoch : ℕ) (hkeys : t.runner.pendingResults = s.runner.pendingResults)
      (hset : t.resultsPending = true ∧ t.pc = s.pc.notify ∨
        t.resultsPending = s.resultsPending ∧ t.pc = s.pc ∧ s.runner.pendingResults.keys = []) :
      WakeMove s t (.attach sessionEpoch)
  | test (hkeys : t.runner.pendingResults = s.runner.pendingResults)
      (hparked : ∀ failures delay woken, t.pc ≠ .parked failures delay woken) : WakeMove s t .test
  /-- The loop goes on by itself, or something happens that is none of its business. -/
  | other {e : SubmissionEvent} (hset : t.resultsPending = s.resultsPending)
      (hkeys : t.runner.pendingResults = s.runner.pendingResults)
        (hpass : t.pc.InPass → s.pc.InPass)
      (hparked : ∀ failures delay woken, t.pc = .parked failures delay woken →
        t.pc = s.pc ∨ woken = s.resultsPending)
      (hrecord : ∀ taskId envelope, e ≠ .record taskId envelope)
        (hattach : ∀ sessionEpoch, e ≠ .attach sessionEpoch) :
      WakeMove s t e

theorem notify_parked {pc : SubmissionPc} {failures : ℕ} {delay : PyFloat} {woken : Bool}
    (h : pc.notify = .parked failures delay woken) : woken = true := by
  cases pc with
  | parked f d w => cases h; rfl
  | _ => cases h

theorem inPass_of_notify {pc : SubmissionPc} (h : pc.notify.InPass) : pc.InPass := by
  cases pc with
  | parked f d w => trivial
  | _ => exact h

theorem submission_move (hstep : s.next cfg e = some t) : WakeMove s t e := by
  cases e with
  | record taskId envelope =>
      cases hstep
      exact .record taskId envelope (recordResult_pending ..) fun k hk => keys_recordResult hk
  | acknowledge taskId =>
      cases hstep
      exact .acknowledge taskId (resultAcknowledged_pending ..)
        (fun k hk => (Dict.mem_keys_erase.mp hk).2) rfl
  | attach sessionEpoch =>
      cases hstep
      exact .attach sessionEpoch (attach_pending ..).1 (attach_pending ..).2
  | detach =>
      cases hstep
      exact .other rfl rfl id (fun _ _ _ _ => .inl rfl) (by simp) (by simp)
  | test =>
      simp only [Submitter.next] at hstep
      split at hstep
      · split_ifs at hstep
        · cases hstep; exact .test rfl (by simp)
        · cases hstep; exact .test rfl (by simp)
      · cases hstep
  | look draw =>
      simp only [Submitter.next] at hstep
      split at hstep
      · next hpc =>
          split at hstep
          · cases hstep
            exact .other rfl rfl False.elim (by simp) (by simp) (by simp)
          · cases hstep
            refine .other rfl rfl (fun _ => by rw [hpc]; trivial) (fun f d w h => .inr ?_)
              (by simp) (by simp)
            cases h
            rfl
          · cases hstep
            exact .other rfl rfl False.elim (by simp) (by simp) (by simp)
      · next hpc =>
          have hpass : s.pc.InPass := by rw [hpc]; trivial
          split_ifs at hstep
          · cases hstep; exact .other rfl rfl (fun _ => hpass) (by simp) (by simp) (by simp)
          · cases hstep; exact .other rfl rfl (fun _ => hpass) (by simp) (by simp) (by simp)
          · cases hstep; exact .other rfl rfl (fun _ => hpass) (by simp) (by simp) (by simp)
      · cases hstep
  | sent delivered =>
      simp only [Submitter.next] at hstep
      split at hstep
      · next hpc =>
          have hpass : s.pc.InPass := by rw [hpc]; trivial
          split_ifs at hstep
          · cases hstep; exact .other rfl rfl (fun _ => hpass) (by simp) (by simp) (by simp)
          · cases hstep; exact .other rfl rfl (fun _ => hpass) (by simp) (by simp) (by simp)
      · cases hstep
  | wake =>
      simp only [Submitter.next] at hstep
      split at hstep
      · cases hstep; exact .other rfl rfl False.elim (by simp) (by simp) (by simp)
      · cases hstep
  | timeout =>
      simp only [Submitter.next] at hstep
      split at hstep
      · cases hstep; exact .other rfl rfl False.elim (by simp) (by simp) (by simp)
      · cases hstep
  | elapse now =>
      simp only [Submitter.next] at hstep
      split_ifs at hstep
      cases hstep
      exact .other rfl rfl id (fun _ _ _ _ => .inl rfl) (by simp) (by simp)
  | stop =>
      cases hstep
      exact .other rfl rfl id (fun _ _ _ _ => .inl rfl) (by simp) (by simp)
  | cancel =>
      simp only [Submitter.next] at hstep
      split_ifs at hstep
      cases hstep
      have hover : ∀ pc : SubmissionPc, ¬ pc.cancel.InPass ∧
          ∀ failures delay woken, pc.cancel ≠ .parked failures delay woken := by
        intro pc
        cases pc <;> simp [SubmissionPc.cancel, SubmissionPc.InPass]
      exact .other rfl rfl (fun h => absurd h (hover s.pc).1)
        (fun f d w h => absurd h ((hover s.pc).2 f d w)) (by simp) (by simp)

/-! ## Every run -/

/-- Who waits while the event is set has been woken. -/
theorem woken_reachable (h : (submission cfg).Reachable s) :
    ∀ failures delay woken, s.pc = .parked failures delay woken → s.resultsPending = true →
      woken = true := by
  refine h.invariant (P := fun s => ∀ failures delay woken, s.pc = .parked failures delay woken →
    s.resultsPending = true → woken = true) ?_ ?_
  · intro s hs failures delay woken hpc
    obtain rfl : s = _ := hs
    cases hpc
  · intro s e t _ ih hstep failures delay woken hpc hset
    cases submission_move hstep with
    | record taskId envelope hmove _ =>
        rcases hmove with ⟨-, hnotify⟩ | ⟨hsame, hpc', -⟩
        · exact notify_parked (hnotify.symm.trans hpc)
        · exact ih failures delay woken (hpc'.symm.trans hpc) (hsame.symm.trans hset)
    | acknowledge taskId hmove _ hpc' =>
        rcases hmove with hsame | ⟨hclear, -⟩
        · exact ih failures delay woken (hpc'.symm.trans hpc) (hsame.symm.trans hset)
        · rw [hclear] at hset
          cases hset
    | attach sessionEpoch _ hmove =>
        rcases hmove with ⟨-, hnotify⟩ | ⟨hsame, hpc', -⟩
        · exact notify_parked (hnotify.symm.trans hpc)
        · exact ih failures delay woken (hpc'.symm.trans hpc) (hsame.symm.trans hset)
    | test _ hparked => exact absurd hpc (hparked failures delay woken)
    | other hsame _ _ hparked _ _ =>
        have hold := hsame.symm.trans hset
        rcases hparked failures delay woken hpc with hpc' | hwoken
        · exact ih failures delay woken (hpc'.symm.trans hpc) hold
        · exact hwoken.trans hold

/-- What is pending was recorded. -/
theorem submission_recorded (h : (submission cfg).Run es s) :
    ∀ taskId ∈ s.runner.pendingResults.keys, ∃ envelope, .record taskId envelope ∈ es := by
  refine h.invariant (I := fun es s => ∀ taskId ∈ s.runner.pendingResults.keys,
    ∃ envelope, .record taskId envelope ∈ es) ?_ ?_
  · intro s hs taskId hid
    obtain rfl : s = _ := hs
    cases hid
  · intro es s e t _ ih hstep taskId hid
    have hold : taskId ∈ s.runner.pendingResults.keys → ∃ envelope,
        .record taskId envelope ∈ es ++ [e] := by
      intro hmem
      obtain ⟨envelope, henv⟩ := ih taskId hmem
      exact ⟨envelope, List.mem_append_left _ henv⟩
    cases submission_move hstep with
    | record k envelope _ hkeys =>
        rcases hkeys taskId hid with rfl | hmem
        · exact ⟨envelope, by simp⟩
        · exact hold hmem
    | acknowledge k _ hkeys _ => exact hold (hkeys taskId hid)
    | attach sessionEpoch hkeys _ => exact hold (hkeys ▸ hid)
    | test hkeys _ => exact hold (hkeys ▸ hid)
    | other _ hkeys _ _ _ _ => exact hold (hkeys ▸ hid)

/-- The events since a pass began, against the event as it is. -/
def NothingNew (bs : List SubmissionEvent) (s : Submitter) : Prop :=
  s.resultsPending = false → ∀ taskId ∈ s.runner.pendingResults.keys,
    (∀ envelope, .record taskId envelope ∉ bs) ∧ ∀ sessionEpoch, .attach sessionEpoch ∉ bs

/-- One event that stays in the pass. -/
theorem NothingNew.snoc {bs : List SubmissionEvent} (h : NothingNew bs s) (hmove : WakeMove s t e)
    (htest : e ≠ .test) : NothingNew (bs ++ [e]) t := by
  intro hclear taskId hid
  -- with the same event, and the result pending before, it is enough that the last is neither
  have hold : s.resultsPending = false → taskId ∈ s.runner.pendingResults.keys →
      (∀ envelope, e ≠ .record taskId envelope) → (∀ sessionEpoch, e ≠ .attach sessionEpoch) →
        (∀ envelope, .record taskId envelope ∉ bs ++ [e]) ∧ ∀ sessionEpoch,
          .attach sessionEpoch ∉ bs ++ [e] := by
    intro hs hmem hrecord hattach
    obtain ⟨hr, ha⟩ := h hs taskId hmem
    simp only [List.mem_append, List.mem_singleton, not_or]
    exact ⟨fun envelope => ⟨hr envelope, (hrecord envelope).symm⟩,
      fun sessionEpoch => ⟨ha sessionEpoch, (hattach sessionEpoch).symm⟩⟩
  have hnone : ∀ {d : Dict String WorkerResult}, d.keys = [] → taskId ∉ d.keys := by
    intro d hd
    rw [hd]
    exact List.not_mem_nil
  cases hmove with
  | record k envelope hmove _ =>
      rcases hmove with ⟨hset, -⟩ | ⟨-, -, hempty⟩
      · rw [hset] at hclear
        cases hclear
      · exact absurd hid (hnone hempty)
  | acknowledge k hmove hkeys _ =>
      rcases hmove with hsame | ⟨-, hempty⟩
      · exact hold (hsame.symm.trans hclear) (hkeys taskId hid) (by simp) (by simp)
      · exact absurd hid (hnone hempty)
  | attach sessionEpoch hkeys hmove =>
      rcases hmove with ⟨hset, -⟩ | ⟨-, -, hempty⟩
      · rw [hset] at hclear
        cases hclear
      · exact absurd (hkeys ▸ hid) (hnone hempty)
  | test => exact absurd rfl htest
  | other hsame hkeys _ _ hrecord hattach =>
      exact hold (hsame.symm.trans hclear) (hkeys ▸ hid) (hrecord taskId) hattach

/-- Only a `test` begins a pass. -/
theorem inPass_of_move (hmove : WakeMove s t e) (htest : e ≠ .test) (h : t.pc.InPass) :
    s.pc.InPass := by
  have hnotified : t.pc = s.pc.notify ∨ t.pc = s.pc → s.pc.InPass := by
    rintro (hpc | hpc)
    · exact inPass_of_notify (hpc ▸ h)
    · exact hpc ▸ h
  cases hmove with
  | record _ _ hmove _ => exact hnotified (hmove.imp And.right fun hrest => hrest.2.1)
  | acknowledge _ _ _ hpc => exact hnotified (.inr hpc)
  | attach _ _ hmove => exact hnotified (hmove.imp And.right fun hrest => hrest.2.1)
  | test => exact absurd rfl htest
  | other _ _ hpass _ _ _ => exact hpass h

/-- Since the last pass began, nothing has come that the event does not show. -/
theorem seen_since (h : (submission cfg).Run es s) (hpass : s.pc.InPass) :
    ∃ as bs, es = as ++ .test :: bs ∧ .test ∉ bs ∧ NothingNew bs s := by
  have hsince : s.pc.InPass →
      ∃ as e bs, es = as ++ e :: bs ∧ e = .test ∧ (∀ f ∈ bs, ¬ f = .test) ∧ NothingNew bs s := by
    refine @System.Run.since _ _ _ (fun e => e = .test) (fun s => s.pc.InPass) NothingNew
      (fun s hs hphase => ?_) (fun s e t _ _ _ => ?_) (fun bs s e t hstep htest hphase => ?_) es s h
    · obtain rfl : s = _ := hs
      exact hphase
    · exact fun _ taskId _ => ⟨fun _ => List.not_mem_nil, fun _ => List.not_mem_nil⟩
    · have hmove := submission_move hstep
      exact ⟨inPass_of_move hmove htest hphase, fun hnew => hnew.snoc hmove htest⟩
  obtain ⟨as, e, bs, hsplit, rfl, hbs, hnew⟩ := hsince hpass
  exact ⟨as, bs, hsplit, fun hmem => hbs _ hmem rfl, hnew⟩

/-- The last pass is one. -/
theorem lastPass_unique {as as' bs bs' : List SubmissionEvent}
    (h : as ++ .test :: bs = as' ++ .test :: bs') (hbs : .test ∉ bs)
    (hbs' : .test ∉ bs') : bs = bs' := by
  rcases List.append_eq_append_iff.mp h with ⟨cs, hsplit, hcs⟩ | ⟨cs, hsplit, hcs⟩
  · cases cs with
    | nil => simpa using hcs
    | cons c cs =>
        obtain ⟨-, rfl⟩ := List.cons.inj hcs
        exact absurd (List.mem_append_right cs List.mem_cons_self) hbs
  · cases cs with
    | nil => simpa using hcs.symm
    | cons c cs =>
        obtain ⟨-, rfl⟩ := List.cons.inj hcs
        exact absurd (List.mem_append_right cs List.mem_cons_self) hbs'

/-- A wait that was woken returns. -/
theorem next_wake {failures : ℕ} {delay : PyFloat} (hpc : s.pc = .parked failures delay true) :
    ∃ t, s.next cfg .wake = some t ∧ t.pc = .testing failures :=
  ⟨{ s with pc := .testing failures }, by simp only [Submitter.next, hpc], rfl⟩

/-- **Pending results wake the loop**, in whatever order results are recorded and
acknowledged and sessions come and go. -/
theorem pending_results_wake (h : (submission cfg).Run es s) : WakesUp cfg es s := by
  have hseen : ∀ failures delay woken, s.pc = .parked failures delay woken →
      ∃ as bs, es = as ++ .test :: bs ∧ .test ∉ bs ∧ NothingNew bs s := by
    intro failures delay woken hpc
    exact seen_since h (by rw [hpc]; trivial)
  have hwakes : ∀ failures delay woken, s.pc = .parked failures delay woken →
      s.resultsPending = true →
      ∃ t, s.next cfg .wake = some t ∧ t.pc = .testing failures := by
    intro failures delay woken hpc hset
    have hwoken := woken_reachable h.reachable failures delay woken hpc hset
    exact next_wake (hwoken ▸ hpc)
  refine ⟨fun failures delay woken hpc hclear => ?_, hwakes,
    fun as bs taskId failures delay woken hsplit hbs hpc hid hnew => ?_, fun e t hstep hset => ?_⟩
  · obtain ⟨as, bs, rfl, hbs, hnew⟩ := hseen failures delay woken hpc
    refine ⟨as, bs, rfl, hbs, fun taskId hid => ?_⟩
    obtain ⟨hrecord, hattach⟩ := hnew hclear taskId hid
    obtain ⟨envelope, henv⟩ := submission_recorded h taskId hid
    have hbefore : .record taskId envelope ∈ as := by
      simpa [hrecord envelope] using henv
    exact ⟨⟨envelope, hbefore⟩, hrecord, hattach⟩
  · refine hwakes failures delay woken hpc (Bool.of_not_eq_false fun hclear => ?_)
    obtain ⟨as', bs', hsplit', hbs', hseen⟩ := hseen failures delay woken hpc
    obtain rfl : bs = bs' := lastPass_unique (hsplit.symm.trans hsplit') hbs hbs'
    obtain ⟨hrecord, hattach⟩ := hseen hclear taskId hid
    rcases hnew with ⟨envelope, henv⟩ | ⟨sessionEpoch, hepoch⟩
    · exact hrecord envelope henv
    · exact hattach sessionEpoch hepoch
  · cases submission_move hstep with
    | record _ _ hmove _ =>
        exact hmove.elim (fun hset => .inl hset.1) fun hempty => .inr (.inr hempty.2.2)
    | acknowledge _ hmove _ _ =>
        exact hmove.elim (fun hsame => .inl (hsame.trans hset)) fun hempty => .inr (.inr hempty.2)
    | attach _ _ hmove =>
        exact hmove.elim (fun hset => .inl hset.1) fun hsame => .inl (hsame.1.trans hset)
    | test => exact .inr (.inl rfl)
    | other hsame _ _ _ _ _ => exact .inl (hsame.trans hset)

/-! ## The loop of the retries -/

/-- Where `retryLoop` has the loop. -/
def SubmissionPc.retry : SubmissionPc → RetryPc
  | .testing failures => .testing failures
  | .passing failures _ _ | .sending failures _ _ _ => .working failures
  | .parked failures delay _ => .parked failures delay
  | .returned => .returned
  | .cancelled => .cancelled
  | .raised e => .raised e

/-- And the process with it. -/
def Submitter.retry (s : Submitter) : RetryState := ⟨s.stopEvent, s.pc.retry⟩

theorem retry_notify (pc : SubmissionPc) : pc.notify.retry = pc.retry := by
  cases pc <;> rfl

theorem retry_cancel (pc : SubmissionPc) : pc.cancel.retry = pc.retry.cancel := by
  cases pc <;> rfl

/-- **Refinement.** A step of the loop is one of `retryLoop`, or does not show there. -/
theorem submission_retry (hstep : s.next cfg e = some t) :
    t.retry = s.retry ∨ ∃ e',
      (retryLoop (resultSubmissionLoop cfg.backoff cfg.resultAckGraceSeconds)).step
      s.retry e' t.retry := by
  have hstill : ∀ {stopEvent : Bool} {pc pc' : SubmissionPc}, pc' = pc.notify ∨ pc' = pc →
      (⟨stopEvent, pc'.retry⟩ : RetryState) = ⟨stopEvent, pc.retry⟩ := by
    rintro stopEvent pc pc' (rfl | rfl)
    · rw [retry_notify]
    · rfl
  cases e with
  | record taskId envelope =>
      cases hstep
      left
      unfold Submitter.retry Submitter.recordResult
      dsimp only
      split
      · rfl
      · exact hstill (.inl rfl)
  | acknowledge taskId => cases hstep; exact .inl rfl
  | attach sessionEpoch =>
      cases hstep
      left
      unfold Submitter.retry Submitter.attach
      dsimp only
      split
      · rfl
      · exact hstill (.inl rfl)
  | detach => cases hstep; exact .inl rfl
  | test =>
      right
      refine ⟨.test, ?_⟩
      simp only [Submitter.next] at hstep
      split at hstep
      · next hpc =>
          split_ifs at hstep with hstop
          · cases hstep
            simp [retryLoop, retryStep, Submitter.retry, SubmissionPc.retry, hpc, hstop]
          · cases hstep
            simp [retryLoop, retryStep, Submitter.retry, SubmissionPc.retry, hpc, hstop]
      · cases hstep
  | look draw =>
      simp only [Submitter.next] at hstep
      split at hstep
      · next failures done hpc =>
          -- the end of the pass is the work
          right
          refine ⟨.work done draw, ?_⟩
          split at hstep
          · next hloop =>
              cases hstep
              simp [retryLoop, retryStep, Submitter.retry, SubmissionPc.retry, hpc, hloop]
          · next hloop =>
              cases hstep
              simp [retryLoop, retryStep, Submitter.retry, SubmissionPc.retry, hpc, hloop]
          · next hloop =>
              cases hstep
              simp [retryLoop, retryStep, Submitter.retry, SubmissionPc.retry, hpc, hloop]
      · next hpc =>
          left
          split_ifs at hstep
          · cases hstep; simp [Submitter.retry, SubmissionPc.retry, hpc]
          · cases hstep; simp [Submitter.retry, SubmissionPc.retry, hpc]
          · cases hstep; simp [Submitter.retry, SubmissionPc.retry, hpc]
      · cases hstep
  | sent delivered =>
      left
      simp only [Submitter.next] at hstep
      split at hstep
      · next hpc =>
          split_ifs at hstep
          · cases hstep; simp [Submitter.retry, SubmissionPc.retry, hpc]
          · cases hstep; simp [Submitter.retry, SubmissionPc.retry, hpc]
      · cases hstep
  | wake =>
      right
      refine ⟨.wake, ?_⟩
      simp only [Submitter.next] at hstep
      split at hstep
      · next hpc =>
          cases hstep
          simp [retryLoop, retryStep, Submitter.retry, SubmissionPc.retry, hpc]
      · cases hstep
  | timeout =>
      right
      refine ⟨.wake, ?_⟩
      simp only [Submitter.next] at hstep
      split at hstep
      · next hpc =>
          cases hstep
          simp [retryLoop, retryStep, Submitter.retry, SubmissionPc.retry, hpc]
      · cases hstep
  | elapse now =>
      simp only [Submitter.next] at hstep
      split_ifs at hstep
      cases hstep
      exact .inl rfl
  | stop =>
      cases hstep
      exact .inr ⟨.stop, rfl⟩
  | cancel =>
      right
      refine ⟨.cancel, ?_⟩
      simp only [Submitter.next] at hstep
      split_ifs at hstep with hstop
      cases hstep
      simp [retryLoop, retryStep, Submitter.retry, retry_cancel, hstop]

end

/-! ## A result recorded in a pass -/

namespace Demo

theorem resultRetryFactor_double : IsDouble (2 : ℕ) := isDouble_natCast (by decide)

/-- The shipped settings. -/
def submissionConfig : SubmissionConfig where
  backoff :=
    { base := (5 : ℕ)
      factor := (2 : ℕ)
      maximum := (60 : ℕ)
      base_double := isDouble_natCast (by decide)
      factor_double := resultRetryFactor_double
      maximum_double := isDouble_natCast (by decide)
      base_pos := by decide
      one_lt_factor := by decide
      maximum_pos := by decide }
  resultAckGraceSeconds := .finite (10 : ℕ)

def firstDraw : PyFloat.Draw := ⟨0, le_refl 0, by norm_num⟩

def workerResult : WorkerResult := ⟨(envelope 0 token).toBody, rfl, by decide +kernel⟩

/-- The loop begins a pass with nothing pending, and a result comes before it waits. -/
def recordedInPass : List SubmissionEvent := [.test, .record task.str workerResult, .look firstDraw]

end Demo

theorem pending_results_wake_recorded : ∃ s,
    (submission Demo.submissionConfig).Run Demo.recordedInPass s ∧
    ∃ t, s.next Demo.submissionConfig .wake = some t ∧ t.pc = .testing 0 := by
  have hrun : ∃ s, (submission Demo.submissionConfig).Run Demo.recordedInPass s ∧
      s.pc = .parked 0 (.finite (60 : ℕ)) true ∧ Demo.task.str ∈ s.runner.pendingResults.keys :=
    ⟨_, ⟨_, rfl, .cons rfl <| .cons rfl <| .cons rfl .nil⟩, rfl, .head _⟩
  obtain ⟨s, hs, hpc, hid⟩ := hrun
  refine ⟨s, hs, (pending_results_wake hs).another [] [.record Demo.task.str Demo.workerResult,
    .look Demo.firstDraw]
    Demo.task.str _ _ _ rfl (by simp) hpc hid (.inl ⟨Demo.workerResult, by simp⟩)⟩

end TaskFleet.Model
