import TaskFleet.Model.SentLedger

/-!
# The ledger of sends and the buffer

`record_result` takes an evicted entry out of both dictionaries and an acknowledgement
does the same, so that the ledger never outgrows the buffer. `_submit_result` writes the
ledger after its send, and by then the entry may be gone. Exactly the sends that return
while their result is still pending keep the ledger inside (`sent_ledger_inside_iff`).
-/

namespace TaskFleet.Model

open Py

/-- Every entry of the ledger is of a result in the buffer. -/
def Submitter.Within (s : Submitter) : Prop :=
  ∀ taskId ∈ s.resultSentAt.keys, taskId ∈ s.runner.pendingResults.keys

/-- The ledger is inside the buffer, and so no larger than the buffer may be. -/
structure Submitter.LedgerInside (cfg : WorkerConfig) (s : Submitter) : Prop where
  within : s.Within
  size : s.resultSentAt.size ≤ cfg.maxPendingResults

/-- A send that returns finds its result still pending. -/
def SentLedger.StillPending (l : SentLedger) (e : LedgerEvent) : Prop :=
  ∀ taskId, e = .sent taskId true → taskId ∈ l.submitter.runner.pendingResults.keys

section

variable {cfg : WorkerConfig} {s : Submitter} {l m : SentLedger} {e : LedgerEvent}

/-! ## The four writers -/

theorem mem_keys_foldl_erase {κ ν : Type} [DecidableEq κ] {dropped : List κ}
    {d : Dict κ ν} {k : κ} :
    k ∈ (dropped.foldl Dict.erase d).keys ↔ k ∉ dropped ∧ k ∈ d.keys := by
  induction dropped generalizing d with
  | nil => simp
  | cons x dropped ih =>
      rw [List.foldl_cons, ih, Dict.mem_keys_erase, List.mem_cons, not_or]
      tauto

/-- What is left in the ledger is of a result that is left in the buffer. -/
theorem Submitter.Within.recordResult (h : s.Within) (cap : ℕ) (taskId : String)
    (envelope : WorkerResult) : (s.recordResult cap taskId envelope).Within := by
  have hleft : ∀ k ∈ ((s.runner.pendingResults.keys.take
      (s.runner.pendingResults.size + 1 - cap)).foldl Dict.erase s.resultSentAt).keys,
      k ∈ (s.runner.makeRoom cap).keys := by
    intro k hk
    obtain ⟨hdropped, hsent⟩ := mem_keys_foldl_erase.mp hk
    have hpending : k ∈ s.runner.pendingResults.keys := h k hsent
    rw [← List.take_append_drop (s.runner.pendingResults.size + 1 - cap)
      s.runner.pendingResults.keys, List.mem_append] at hpending
    rw [TaskRunner.makeRoom, Dict.keys_dropFirst]
    exact hpending.resolve_left hdropped
  intro k hk
  rw [Submitter.recordResult_resultSentAt] at hk
  rw [Submitter.recordResult_pendingResults]
  split
  · exact hleft k hk
  · exact Dict.mem_keys_set.mpr (.inr (hleft k hk))

theorem Submitter.Within.resultAcknowledged (h : s.Within) (taskId : String) :
    (s.resultAcknowledged taskId).Within := by
  intro k hk
  obtain ⟨hne, hsent⟩ := Dict.mem_keys_erase.mp hk
  exact Dict.mem_keys_erase.mpr ⟨hne, h k hsent⟩

/-- A new session starts with an empty ledger. -/
theorem Submitter.within_attach (s : Submitter) (sessionEpoch : ℕ) :
    (s.attach sessionEpoch).Within := by
  have hempty : (s.attach sessionEpoch).resultSentAt = .empty := by
    unfold Submitter.attach
    dsimp only
    split <;> rfl
  intro k hk
  rw [hempty] at hk
  cases hk

/-- **After the send.** The entry that is written is inside if its result is. -/
theorem Submitter.within_markSent_iff (h : s.Within) (taskId : String) :
    (s.markSent taskId).Within ↔ taskId ∈ s.runner.pendingResults.keys := by
  constructor
  · exact fun hin => hin taskId (Dict.mem_keys_set.mpr (.inl rfl))
  · intro hpending k hk
    rcases Dict.mem_keys_set.mp hk with rfl | hk
    · exact hpending
    · exact h k hk

/-! ## The buffer has a bound -/

theorem size_recordResult (cap : ℕ) (s : Submitter) (taskId : String) (envelope : WorkerResult) :
    (s.recordResult cap taskId envelope).runner.pendingResults.size ≤ cap := by
  have hroom : (s.runner.makeRoom cap).size =
      s.runner.pendingResults.size - (s.runner.pendingResults.size + 1 - cap) := by
    rw [Dict.size_eq_length, TaskRunner.makeRoom, Dict.keys_dropFirst, List.length_drop,
      ← Dict.size_eq_length]
  rw [Submitter.recordResult_pendingResults]
  split
  · omega
  · next hcap =>
      by_cases hin : taskId ∈ (s.runner.makeRoom cap).keys
      · rw [Dict.size_set_of_mem hin]
        omega
      · rw [Dict.size_set_of_not_mem hin]
        omega

theorem attach_pendingResults (s : Submitter) (sessionEpoch : ℕ) :
    (s.attach sessionEpoch).runner.pendingResults = s.runner.pendingResults := by
  unfold Submitter.attach
  dsimp only
  split <;> rfl

theorem pending_size_le (h : (sentLedger cfg).Reachable l) :
    l.submitter.runner.pendingResults.size ≤ cfg.maxPendingResults := by
  refine h.invariant
    (P := fun l => l.submitter.runner.pendingResults.size ≤ cfg.maxPendingResults)
    (fun l hl => ?_) fun l e m _ ih hstep => ?_
  · rw [hl]
    exact Nat.zero_le _
  · have hstep : l.next cfg e = some m := hstep
    cases e with
    | record taskId envelope =>
        cases hstep
        exact size_recordResult _ _ _ _
    | submit taskId =>
        simp only [SentLedger.next] at hstep
        split at hstep <;> cases hstep <;> exact ih
    | sent taskId delivered =>
        simp only [SentLedger.next] at hstep
        split at hstep
        · cases hstep
          cases delivered <;> exact ih
        · cases hstep
    | acknowledge taskId =>
        cases hstep
        exact (Dict.size_erase_le _ _).trans ih
    | attach sessionEpoch =>
        cases hstep
        exact (congrArg Dict.size (attach_pendingResults _ _)).trans_le ih
    | detach =>
        cases hstep
        exact ih
    | elapse now =>
        simp only [SentLedger.next] at hstep
        split at hstep
        · cases hstep
          exact ih
        · cases hstep

/-! ## Every run -/

/-- **One step.** Only a send that returns too late leaves the buffer. -/
theorem within_step (h : l.submitter.Within) (hstep : l.next cfg e = some m) :
    m.submitter.Within ↔ l.StillPending e := by
  have hother : (∀ taskId, e ≠ .sent taskId true) → m.submitter.Within →
      (m.submitter.Within ↔ l.StillPending e) := fun hne hm =>
    iff_of_true hm fun taskId heq => absurd heq (hne taskId)
  cases e with
  | record taskId envelope =>
      cases hstep
      exact hother (fun _ => LedgerEvent.noConfusion) (h.recordResult _ _ _)
  | submit taskId =>
      refine hother (fun _ => LedgerEvent.noConfusion) ?_
      simp only [SentLedger.next] at hstep
      split at hstep <;> cases hstep <;> exact h
  | sent taskId delivered =>
      simp only [SentLedger.next] at hstep
      split at hstep
      · cases hstep
        cases delivered with
        | false => exact hother (by simp) h
        | true =>
            have hguard : l.StillPending (.sent taskId true) ↔
                taskId ∈ l.submitter.runner.pendingResults.keys := by
              simp [SentLedger.StillPending]
            rw [hguard]
            exact Submitter.within_markSent_iff h taskId
      · cases hstep
  | acknowledge taskId =>
      cases hstep
      exact hother (fun _ => LedgerEvent.noConfusion) (h.resultAcknowledged _)
  | attach sessionEpoch =>
      cases hstep
      exact hother (fun _ => LedgerEvent.noConfusion) (Submitter.within_attach _ _)
  | detach =>
      cases hstep
      exact hother (fun _ => LedgerEvent.noConfusion) h
  | elapse now =>
      refine hother (fun _ => LedgerEvent.noConfusion) ?_
      simp only [SentLedger.next] at hstep
      split at hstep
      · cases hstep
        exact h
      · cases hstep

/-- Inside the buffer the ledger has the buffer's bound. -/
theorem ledgerInside_iff (h : (sentLedger cfg).Reachable l) :
    l.submitter.LedgerInside cfg ↔ l.submitter.Within :=
  ⟨fun hinside => hinside.within, fun hwithin =>
    ⟨hwithin, (Dict.size_le_of_keys_subset hwithin).trans (pending_size_le h)⟩⟩

/-- **The ledger stays inside the buffer**, in every state a run passes through, exactly
if every send of the run that returns finds its result still pending. -/
theorem sent_ledger_inside_iff {es : List LedgerEvent} (hinit : (sentLedger cfg).init l)
    (h : (sentLedger cfg).Trace l es m) :
    ((sentLedger cfg).guarded SentLedger.StillPending).Trace l es m ↔
      ∀ before after n, es = before ++ after → (sentLedger cfg).Trace l before n →
        n.submitter.LedgerInside cfg := by
  refine h.guarded_iff (P := fun l => l.submitter.LedgerInside cfg)
    (sentLedger_deterministic cfg) (fun l hl => ?_) (fun l e m hreach hstep hP => ?_) hinit
  · rw [hl]
    exact ⟨fun k hk => absurd hk List.not_mem_nil, Nat.zero_le _⟩
  · rw [ledgerInside_iff (hreach.step hstep)]
    exact within_step hP.within hstep

end

/-! ## A send that returns too late -/

namespace Demo

/-- A worker that keeps one result. -/
def oneResult : WorkerConfig where
  maxPendingResults := 1

theorem ledgerResult_elapsed : (envelope 0 token).durationSeconds.isNegative = false := rfl

theorem ledgerResult_encodable : (envelope 0 token).toBody.toJson.encodable = true := by
  decide +kernel

def ledgerResult : WorkerResult :=
  ⟨(envelope 0 token).toBody, ledgerResult_elapsed, ledgerResult_encodable⟩

/-- A result is sent, answered for once the send is over, and replaced by the next. -/
def promptSends : List LedgerEvent :=
  [.attach 1, .record "first" ledgerResult, .submit "first", .sent "first" true,
    .acknowledge "first", .record "second" ledgerResult, .submit "second", .sent "second" true]

/-- Each of two results is answered for while its send is still out. -/
def lateSends : List LedgerEvent :=
  [.attach 1, .record "first" ledgerResult, .submit "first", .acknowledge "first",
    .sent "first" true, .record "second" ledgerResult, .submit "second", .acknowledge "second",
    .sent "second" true]

end Demo

/-- Answers that come after their sends keep the ledger inside. -/
theorem sent_ledger_inside_prompt : ∃ l m, (sentLedger Demo.oneResult).init l ∧
    (sentLedger Demo.oneResult).Trace l Demo.promptSends m ∧
    ∀ before after n, Demo.promptSends = before ++ after →
      (sentLedger Demo.oneResult).Trace l before n → n.submitter.LedgerInside Demo.oneResult := by
  have htrace : ∃ m, ((sentLedger Demo.oneResult).guarded SentLedger.StillPending).Trace
      { submitter := { runner := { slots := 4 } } } Demo.promptSends m := by
    have hpending : ∀ {l : SentLedger} {taskId : String},
        taskId ∈ l.submitter.runner.pendingResults.keys → l.StillPending (.sent taskId true) := by
      intro l taskId h other heq
      cases heq
      exact h
    have hother : ∀ {l : SentLedger} {e : LedgerEvent}, (∀ taskId, e ≠ .sent taskId true) →
        l.StillPending e := fun h taskId heq => absurd heq (h taskId)
    refine ⟨_, .cons ⟨rfl, hother (by simp)⟩ <| .cons ⟨rfl, hother (by simp)⟩ <|
      .cons ⟨rfl, hother (by simp)⟩ <| .cons ⟨rfl, hpending (.head _)⟩ <|
      .cons ⟨rfl, hother (by simp)⟩ <| .cons ⟨rfl, hother (by simp)⟩ <|
      .cons ⟨rfl, hother (by simp)⟩ <| .cons ⟨rfl, hpending (.head _)⟩ .nil⟩
  obtain ⟨m, hguarded⟩ := htrace
  exact ⟨_, m, rfl, hguarded.of_guarded,
    (sent_ledger_inside_iff rfl hguarded.of_guarded).mp hguarded⟩

/-- **An answer overtakes the end of its send**, twice. Nothing is pending, and the
ledger has two entries where the buffer may have one. -/
theorem late_sends_leak : ∃ l, (sentLedger Demo.oneResult).Run Demo.lateSends l ∧
    l.submitter.runner.pendingResults.keys = [] ∧
    l.submitter.resultSentAt.keys = ["first", "second"] ∧
    ¬ l.submitter.LedgerInside Demo.oneResult := by
  have hrun : ∃ l, (sentLedger Demo.oneResult).Run Demo.lateSends l ∧
      l.submitter.runner.pendingResults.keys = [] ∧
      l.submitter.resultSentAt.keys = ["first", "second"] :=
    ⟨_, ⟨_, rfl, .cons rfl <| .cons rfl <| .cons rfl <| .cons rfl <| .cons rfl <| .cons rfl <|
      .cons rfl <| .cons rfl <| .cons rfl .nil⟩, rfl, rfl⟩
  obtain ⟨l, hl, hpending, hsent⟩ := hrun
  refine ⟨l, hl, hpending, hsent, fun hinside => ?_⟩
  have hfirst : "first" ∈ l.submitter.runner.pendingResults.keys :=
    hinside.within "first" (by simp [hsent])
  rw [hpending] at hfirst
  cases hfirst

end TaskFleet.Model
