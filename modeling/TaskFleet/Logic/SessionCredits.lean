import TaskFleet.Lib.Credits
import TaskFleet.Model.Assignment

/-!
# What each handler does to the credits of a session

The books of a session are its keyed and its counted credits; `in_flight` is
their total. A delivery adds a key. Every other handler either leaves the
credits alone (`SameCredits`) or gives one back under the name of its task
(`Gives`), and the lemmas say which and when.
-/

namespace TaskFleet.Model

open Py

namespace LocalSession

/-- The credits of a session, against what is out. -/
def books (s : LocalSession) (demand : Finset String) (awaited : Finset Token) :
    Books String Token where
  keyed := s.credited.keys.toFinset
  counted := s.residualInFlight
  demand := demand
  awaited := awaited

/-- The handler left the credits alone. -/
structure SameCredits (s s' : LocalSession) : Prop where
  credited : s'.credited = s.credited
  residual : s'.residualInFlight = s.residualInFlight
  maxConcurrent : s'.maxConcurrent = s.maxConcurrent

/-- The handler gave one credit back under the name. -/
structure Gives (s s' : LocalSession) (taskId : String) : Prop where
  books : ∀ demand awaited, s'.books demand awaited = (s.books demand awaited).release taskId
  inFlight : s'.inFlight ≤ s.inFlight
  maxConcurrent : s'.maxConcurrent = s.maxConcurrent

variable {s s' : LocalSession} {taskId : String} {demand : Finset String} {awaited : Finset Token}

theorem mem_books_keyed : taskId ∈ (s.books demand awaited).keyed ↔ taskId ∈ s.credited.keys :=
  List.mem_toFinset

/-- `in_flight` is the total. -/
theorem inFlight_eq_total : s.inFlight = (s.books demand awaited).total := by
  rw [inFlight, Dict.size_eq_card]
  rfl

theorem SameCredits.books (h : SameCredits s s') :
    s'.books demand awaited = s.books demand awaited := by
  simp only [LocalSession.books, h.credited, h.residual]

theorem SameCredits.inFlight (h : SameCredits s s') : s'.inFlight = s.inFlight := by
  rw [LocalSession.inFlight, LocalSession.inFlight, h.credited, h.residual]

/-! ## Deliveries -/

/-- A delivery adds a key. -/
theorem books_deliver (correlationId : String) :
    (s.deliver taskId correlationId).books demand awaited =
      { s.books demand awaited with keyed := insert taskId (s.books demand awaited).keyed } := by
  simp only [books, deliver]
  congr 1
  ext k
  simp

theorem inFlight_deliver_le (correlationId : String) :
    (s.deliver taskId correlationId).inFlight ≤ s.inFlight + 1 := by
  simp only [inFlight, deliver]
  by_cases hkey : taskId ∈ s.credited.keys
  · rw [Dict.size_set_of_mem hkey]
    omega
  · rw [Dict.size_set_of_not_mem hkey]
    omega

/-! ## Releases -/

theorem keys_erase_toFinset {ν : Type} (d : Dict String ν) (k : String) :
    (d.erase k).keys.toFinset = d.keys.toFinset.erase k := by
  ext k'
  simp

/-- A named release gives a credit back. -/
theorem gives_releaseCredit (hname : taskId ≠ "") (freed : Nat) :
    Gives s (s.releaseCredit taskId freed) taskId := by
  simp only [releaseCredit, if_pos hname]
  by_cases hkey : taskId ∈ s.credited.keys
  · rw [if_pos (Dict.contains_iff.mpr hkey)]
    refine ⟨fun demand awaited => ?_, ?_, rfl⟩
    · rw [Books.release, if_pos (mem_books_keyed.mpr hkey)]
      simp only [books, keys_erase_toFinset]
    · have hle := Dict.size_erase_le s.credited taskId
      simp only [inFlight]
      omega
  · rw [if_neg (fun h => hkey (Dict.contains_iff.mp h))]
    have hrelease : ∀ demand awaited, (s.books demand awaited).release taskId =
        { s.books demand awaited with counted := s.residualInFlight - 1 } := by
      intro demand awaited
      rw [Books.release, if_neg (fun h => hkey (mem_books_keyed.mp h))]
      rfl
    split
    · refine ⟨fun demand awaited => (hrelease demand awaited).symm, ?_, rfl⟩
      simp only [inFlight]
      omega
    · refine ⟨fun demand awaited => ?_, le_refl _, rfl⟩
      have hzero : s.residualInFlight - 1 = s.residualInFlight := by omega
      rw [hrelease, hzero]
      rfl

/-- What is not a credit may change as well. -/
theorem Gives.of_same {s'' : LocalSession} (h : Gives s s' taskId) (h' : SameCredits s' s'') :
    Gives s s'' taskId where
  books demand awaited := h'.books.trans (h.books demand awaited)
  inFlight := h'.inFlight.le.trans h.inFlight
  maxConcurrent := h'.maxConcurrent.trans h.maxConcurrent

/-! ## The handlers -/

/-- The message is a refusal that `handle_task_ack` acts on by a release. -/
def refuses (s : LocalSession) (taskId : String) (accepted : Bool) (reasonCode : String) : Bool :=
  s.pendingAcks.contains taskId && !accepted && reasonCode != refuseAtCapacity

theorem handleTaskAck_credits (hname : taskId ≠ "") (accepted : Bool) (reasonCode : String) :
    if s.refuses taskId accepted reasonCode then Gives s
      (s.handleTaskAck taskId accepted reasonCode) taskId
    else SameCredits s (s.handleTaskAck taskId accepted reasonCode) := by
  simp only [refuses, handleTaskAck]
  cases hpending : s.pendingAcks.contains taskId with
  | false => exact ⟨rfl, rfl, rfl⟩
  | true =>
      cases accepted with
      | true => exact ⟨rfl, rfl, rfl⟩
      | false =>
          by_cases hreason : reasonCode = refuseAtCapacity
          · simp only [hreason, if_true]
            exact ⟨rfl, rfl, rfl⟩
          · simp only [Bool.true_and, Bool.not_false, bne_iff_ne, ne_eq, hreason, not_false_eq_true,
              if_true, Bool.false_eq_true, if_false]
            -- the pending acknowledgement goes first
            have hgives := gives_releaseCredit
                (s := { s with pendingAcks := s.pendingAcks.erase taskId })
              hname 1
            exact ⟨hgives.books, hgives.inFlight, hgives.maxConcurrent⟩

theorem handleCapacity_credits (hname : taskId ≠ "") : Gives s (s.handleCapacity taskId 1) taskId :=
  (gives_releaseCredit hname 1).of_same ⟨rfl, rfl, rfl⟩

/-- `handle_task_failed` gives the credit back on this outcome. -/
def failureFrees (s : LocalSession) (taskId : String) (outcome : Outcome) : Bool :=
  outcome ∉ [Outcome.notOwner, .notFound] || s.credited.contains taskId

theorem finishFailed_credits (hname : taskId ≠ "") (outcome : Outcome) :
    if s.failureFrees taskId outcome then Gives s (s.finishFailed taskId outcome) taskId
    else SameCredits s (s.finishFailed taskId outcome) := by
  simp only [failureFrees, finishFailed, Bool.or_eq_true, decide_eq_true_eq]
  split
  · exact (gives_releaseCredit hname 1).of_same ⟨rfl, rfl, rfl⟩
  · exact ⟨rfl, rfl, rfl⟩

/-- `handle_task_result` gives the credit back on this outcome. -/
def resultFrees (s : LocalSession) (taskId : String) (outcome : Outcome) : Bool :=
  outcome ∉ [Outcome.notOwner, .notFound, .fenced] || s.credited.contains taskId

theorem finishResult_credits (hname : taskId ≠ "") (outcome : Outcome) :
    if s.resultFrees taskId outcome then Gives s (s.finishResult taskId outcome) taskId
    else SameCredits s (s.finishResult taskId outcome) := by
  simp only [resultFrees, finishResult, Bool.or_eq_true, decide_eq_true_eq]
  split
  · exact (gives_releaseCredit hname 1).of_same ⟨rfl, rfl, rfl⟩
  · exact ⟨rfl, rfl, rfl⟩

/-- A payload that is not a result gives back what the session delivered. -/
theorem rejectResult_credits (hname : taskId ≠ "") :
    if s.credited.contains taskId then Gives s (s.rejectResult taskId) taskId
    else SameCredits s (s.rejectResult taskId) := by
  simp only [rejectResult]
  by_cases hkey : s.credited.contains taskId = true
  · rw [if_pos hkey, if_pos ⟨hname, hkey⟩]
    exact (gives_releaseCredit hname 1).of_same ⟨rfl, rfl, rfl⟩
  · rw [if_neg hkey, if_neg fun h => hkey h.2]
    exact ⟨rfl, rfl, rfl⟩

end LocalSession

end TaskFleet.Model
