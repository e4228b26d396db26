import TaskFleet.Lib.Keepalive
import TaskFleet.Model.ReadLoop

/-!
# What a turn of the loop does to the session and its renewal clock

A handler gives things up: keys of `credited` and `pending_acks` only go, and
a due time only changes to one renewal period from now (`Turned`). About a task
that the message does not name it leaves everything as it was (`Apart`).
-/

namespace TaskFleet.Model

open Py

/-! ## Sessions -/

/-- Nothing was added to the session. -/
structure Shrinks (s s' : LocalSession) : Prop where
  credited : s'.credited.keys ⊆ s.credited.keys
  pending : s'.pendingAcks.keys ⊆ s.pendingAcks.keys
  worker : s'.workerId = s.workerId

/-- About the task `k` the session is as it was. -/
structure Untouched (k : String) (s s' : LocalSession) : Prop where
  credited : k ∈ s'.credited.keys ↔ k ∈ s.credited.keys
  pending : k ∈ s'.pendingAcks.keys ↔ k ∈ s.pendingAcks.keys
  recovered : k ∈ s'.recoveredTasks ↔ k ∈ s.recoveredTasks

namespace LocalSession

variable {s s' s'' : LocalSession} {k taskId : String}

theorem shrinks_refl : Shrinks s s := ⟨fun _ h => h, fun _ h => h, rfl⟩

theorem untouched_refl : Untouched k s s := ⟨Iff.rfl, Iff.rfl, Iff.rfl⟩

theorem shrinks_trans (h : Shrinks s s') (h' : Shrinks s' s'') : Shrinks s s'' :=
  ⟨fun _ hk => h.credited (h'.credited hk), fun _ hk => h.pending (h'.pending hk),
    h'.worker.trans h.worker⟩

theorem untouched_trans (h : Untouched k s s') (h' : Untouched k s' s'') : Untouched k s s'' :=
  ⟨h'.credited.trans h.credited, h'.pending.trans h.pending, h'.recovered.trans h.recovered⟩

theorem keys_erase_subset {ν : Type} (d : Dict String ν) (k : String) : (d.erase k).keys ⊆ d.keys :=
  fun _ h => (Dict.mem_keys_erase.mp h).2

theorem mem_keys_erase_of_ne {ν : Type} (d : Dict String ν) (hne : taskId ≠ k) :
    k ∈ (d.erase taskId).keys ↔ k ∈ d.keys := by
  rw [Dict.mem_keys_erase]
  exact and_iff_right hne.symm

theorem shrinks_releaseCredit (freed : Nat) : Shrinks s (s.releaseCredit taskId freed) := by
  unfold releaseCredit
  split
  · split
    · exact ⟨keys_erase_subset _ _, fun _ h => h, rfl⟩
    · split
      · exact ⟨fun _ h => h, fun _ h => h, rfl⟩
      · exact shrinks_refl
  · refine ⟨?_, fun _ h => h, rfl⟩
    rw [Dict.keys_dropFirst]
    exact List.drop_subset _ _

theorem untouched_releaseCredit (hname : taskId ≠ "") (hne : taskId ≠ k) (freed : Nat) :
    Untouched k s (s.releaseCredit taskId freed) := by
  unfold releaseCredit
  rw [if_pos hname]
  split
  · exact ⟨mem_keys_erase_of_ne _ hne, Iff.rfl, Iff.rfl⟩
  · split
    · exact ⟨Iff.rfl, Iff.rfl, Iff.rfl⟩
    · exact untouched_refl

theorem shrinks_handleTaskAck (accepted : Bool) (reasonCode : String) :
    Shrinks s (s.handleTaskAck taskId accepted reasonCode) := by
  unfold handleTaskAck
  split
  · have herase : Shrinks s { s with pendingAcks := s.pendingAcks.erase taskId } :=
      ⟨fun _ h => h, keys_erase_subset _ _, rfl⟩
    split
    · exact herase
    · split
      · exact shrinks_trans herase ⟨fun _ h => h, fun _ h => h, rfl⟩
      · exact shrinks_trans herase (shrinks_releaseCredit 1)
  · exact shrinks_refl

theorem untouched_handleTaskAck (hname : taskId ∈ s.pendingAcks.keys → taskId ≠ "")
    (hne : taskId ≠ k) (accepted : Bool) (reasonCode : String) :
    Untouched k s (s.handleTaskAck taskId accepted reasonCode) := by
  unfold handleTaskAck
  split
  · next hpending =>
      have herase : Untouched k s { s with pendingAcks := s.pendingAcks.erase taskId } :=
        ⟨Iff.rfl, mem_keys_erase_of_ne _ hne, Iff.rfl⟩
      split
      · exact herase
      · split
        · exact untouched_trans herase ⟨Iff.rfl, Iff.rfl, Iff.rfl⟩
        · exact untouched_trans herase
            (untouched_releaseCredit (hname (Dict.contains_iff.mp hpending)) hne 1)
  · exact untouched_refl

/-- What every report of an ending does last. -/
theorem shrinks_close (h : Shrinks s s') :
    Shrinks s { s'.forget taskId with saturated := false } :=
  ⟨h.credited, h.pending, h.worker⟩

theorem untouched_close (h : Untouched k s s') (hne : taskId ≠ k) :
    Untouched k s { s'.forget taskId with saturated := false } := by
  refine ⟨h.credited, h.pending, Iff.trans ?_ h.recovered⟩
  simp only [forget, List.mem_filter, decide_eq_true_eq]
  exact and_iff_left hne.symm

theorem shrinks_handleCapacity (freed : Int) : Shrinks s (s.handleCapacity taskId freed) := by
  unfold handleCapacity
  split
  · exact shrinks_refl
  · exact shrinks_close (shrinks_releaseCredit _)

theorem untouched_handleCapacity {freed : Int} (hname : 1 ≤ freed → taskId ≠ "")
    (hne : taskId ≠ k) : Untouched k s (s.handleCapacity taskId freed) := by
  unfold handleCapacity
  split
  · exact untouched_refl
  · next hfreed =>
      exact untouched_close (untouched_releaseCredit (hname (Int.not_lt.mp hfreed)) hne _) hne

theorem shrinks_finishFailed (outcome : Outcome) : Shrinks s (s.finishFailed taskId outcome) := by
  unfold finishFailed
  refine shrinks_close ?_
  split
  · exact shrinks_releaseCredit 1
  · exact shrinks_refl

theorem untouched_finishFailed {outcome : Outcome} (hne : taskId ≠ k)
    (hname : taskId = "" → outcome = .notFound ∧ taskId ∉ s.credited.keys) :
    Untouched k s (s.finishFailed taskId outcome) := by
  unfold finishFailed
  refine untouched_close ?_ hne
  by_cases hempty : taskId = ""
  · obtain ⟨rfl, hkey⟩ := hname hempty
    rw [if_neg (by simpa using hkey)]
    exact untouched_refl
  · split
    · exact untouched_releaseCredit hempty hne 1
    · exact untouched_refl

theorem shrinks_finishResult (outcome : Outcome) : Shrinks s (s.finishResult taskId outcome) := by
  unfold finishResult
  split
  · exact shrinks_close (shrinks_releaseCredit _)
  · exact shrinks_refl

theorem untouched_finishResult (hname : taskId ≠ "") (hne : taskId ≠ k) (outcome : Outcome) :
    Untouched k s (s.finishResult taskId outcome) := by
  unfold finishResult
  split
  · exact untouched_close (untouched_releaseCredit hname hne _) hne
  · exact untouched_refl

theorem shrinks_rejectResult : Shrinks s (s.rejectResult taskId) := by
  unfold rejectResult
  refine shrinks_close ?_
  split
  · exact shrinks_releaseCredit 1
  · exact shrinks_refl

theorem untouched_rejectResult (hne : taskId ≠ k) : Untouched k s (s.rejectResult taskId) := by
  unfold rejectResult
  refine untouched_close ?_ hne
  split
  · next h => exact untouched_releaseCredit h.1 hne 1
  · exact untouched_refl

theorem mayRenew_eq (h : Untouched k s s') : s'.mayRenew k = s.mayRenew k := by
  rw [Bool.eq_iff_iff]
  simp only [LocalSession.mayRenew, Bool.or_eq_true, Dict.contains_iff, List.contains_iff_mem,
    h.credited, h.recovered]

end LocalSession

/-! ## Channels -/

/-- The renewal period of `_mark_renewed`. -/
def Config.renewPeriod (cfg : Config) : Seconds :=
  cfg.taskLeaseTtlSeconds * cfg.taskLeaseRenewFraction

/-- What is left of the lease when a renewal falls due. -/
def Config.renewGap (cfg : Config) : Seconds :=
  (1 - cfg.taskLeaseRenewFraction) * cfg.taskLeaseTtlSeconds

/-- A turn gives things up, and sets a due time to one period from now if at
all. -/
structure Turned (cfg : Config) (now : Seconds) (ch ch' : Channel) : Prop where
  shrinks : Shrinks ch.session ch'.session
  offset : ch'.clockOffset = ch.clockOffset
  due : ∀ k due, ch'.leaseRenewDue.lookup k = some due →
    ch.leaseRenewDue.lookup k = some due ∨ due = ch.monotonic now + cfg.renewPeriod

/-- About the task `k` the channel is as it was. -/
structure Apart (k : String) (ch ch' : Channel) : Prop where
  session : Untouched k ch.session ch'.session
  due : ch'.leaseRenewDue.lookup k = ch.leaseRenewDue.lookup k

namespace Channel

variable {cfg : Config} {fl : FloatOps} {db : Db} {now : Seconds} {through : Bool} {resultId : Uuid}
  {ch : Channel} {k taskId : String}

theorem turned_refl : Turned cfg now ch ch :=
  ⟨LocalSession.shrinks_refl, rfl, fun _ _ h => .inl h⟩

theorem turned_session {session : LocalSession} (h : Shrinks ch.session session) :
    Turned cfg now ch { ch with session := session } :=
  ⟨h, rfl, fun _ _ h => .inl h⟩

theorem turned_markRenewed : Turned cfg now ch (ch.markRenewed cfg now taskId) := by
  refine ⟨LocalSession.shrinks_refl, rfl, fun k due h => ?_⟩
  rw [markRenewed, Dict.lookup_set] at h
  split at h
  · exact .inr (Option.some.inj h).symm
  · exact .inl h

theorem turned_renewIfDue : Turned cfg now ch (ch.renewIfDue cfg db now through taskId).2 := by
  unfold renewIfDue
  split
  · exact turned_markRenewed
  · exact turned_refl

theorem turned_settle {ch' : Channel} {session : LocalSession} (h : Turned cfg now ch ch')
    (hs : Shrinks ch'.session session) : Turned cfg now ch (ch'.settle session taskId) := by
  refine ⟨LocalSession.shrinks_trans h.shrinks hs, h.offset, fun k due hk => ?_⟩
  rw [settle, Dict.lookup_erase] at hk
  split at hk
  · cases hk
  · exact h.due k due hk

theorem apart_markRenewed (hne : taskId ≠ k) : Apart k ch (ch.markRenewed cfg now taskId) := by
  refine ⟨LocalSession.untouched_refl, ?_⟩
  rw [markRenewed, Dict.lookup_set, if_neg hne.symm]

theorem apart_renewIfDue (hne : taskId ≠ k) :
    Apart k ch (ch.renewIfDue cfg db now through taskId).2 := by
  unfold renewIfDue
  split
  · exact apart_markRenewed hne
  · exact ⟨LocalSession.untouched_refl, rfl⟩

theorem apart_settle {ch' : Channel} {session : LocalSession} (h : Apart k ch ch')
    (hs : Untouched k ch'.session session) (hne : taskId ≠ k) :
    Apart k ch (ch'.settle session taskId) := by
  refine ⟨LocalSession.untouched_trans h.session hs, ?_⟩
  rw [settle, Dict.lookup_erase, if_neg hne.symm, h.due]

/-- **One turn** of the loop, as seen by the renewal clock. -/
theorem handle_turned {msg : WorkerMessage} {r : Db × Channel}
    (h : ch.handle cfg fl db now through resultId msg = some r) : Turned cfg now ch r.2 := by
  cases msg with
  | taskAck taskId accepted reasonCode =>
      rw [← Option.some.inj h]
      have hack : Shrinks ch.session (ch.session.handleTaskAck taskId accepted reasonCode) :=
        LocalSession.shrinks_handleTaskAck accepted reasonCode
      unfold handleTaskAck
      split
      · have hrenew : Turned cfg now
            { ch with session := ch.session.handleTaskAck taskId accepted reasonCode }
            (renewIfDue cfg db now through
              { ch with session := ch.session.handleTaskAck taskId accepted reasonCode }
                taskId).2 :=
          turned_renewIfDue
        exact ⟨LocalSession.shrinks_trans hack hrenew.shrinks, hrenew.offset, hrenew.due⟩
      · exact turned_session hack
  | capacity taskId freed =>
      rw [← Option.some.inj h]
      unfold handleCapacity
      split
      · exact turned_refl
      · exact turned_settle turned_refl (LocalSession.shrinks_handleCapacity freed)
  | taskStarted taskId =>
      rw [← Option.some.inj h]
      simp only [handleTaskStarted]
      split
      · exact turned_markRenewed
      · exact turned_refl
  | taskProgress taskId =>
      rw [← Option.some.inj h]
      exact turned_renewIfDue
  | taskFailed taskId errorType correlationId =>
      rw [← Option.some.inj h]
      exact turned_settle turned_refl (LocalSession.shrinks_finishFailed _)
  | taskResult payload =>
      rw [handle] at h
      rcases handleTaskResult_cases h with
        ⟨-, renewed, rfl, rfl⟩ | ⟨envelope, answer, -, -, -, -, hsettled | hkept⟩
      · exact turned_settle turned_renewIfDue LocalSession.shrinks_rejectResult
      · rw [hsettled]
        exact turned_settle turned_refl (LocalSession.shrinks_finishResult _)
      · rw [hkept]
        exact turned_session (LocalSession.shrinks_finishResult _)
  | other =>
      rw [← Option.some.inj h]
      exact turned_refl

end Channel

/-- The text by which a message names its task. -/
def WorkerMessage.taskId (cfg : Config) (fl : FloatOps) : WorkerMessage → String
  | .taskAck taskId _ _ => taskId
  | .capacity taskId _ => taskId
  | .taskStarted taskId => taskId
  | .taskProgress taskId => taskId
  | .taskFailed taskId _ _ => taskId
  | .taskResult payload =>
      match validate fl payload cfg.taskResultMaxBytes with
      | .error _ => Json.getStr fl payload "task_id"
      | .ok envelope => envelope.taskId
  | .other => ""

/-- A release of credits that names no task. -/
def WorkerMessage.unnamed : WorkerMessage → Bool
  | .capacity taskId freed => taskId = "" && 1 ≤ freed
  | _ => false

namespace Channel

variable {cfg : Config} {fl : FloatOps} {db : Db} {now : Seconds} {through : Bool} {resultId : Uuid}
  {ch : Channel} {k : String}

/-- No key of the session is the empty text. -/
structure Named (ch : Channel) : Prop where
  credited : "" ∉ ch.session.credited.keys
  pending : "" ∉ ch.session.pendingAcks.keys

theorem failTask_empty {w : Uuid} {errorType correlationId : String} :
    (failTask cfg db now "" w errorType correlationId).2 = .notFound := by
  have hparse : Uuid.parse "" = none := by decide
  simp only [failTask, markStatus, hparse]

/-- **A turn that names another task** leaves the channel as it was about this
one. -/
theorem handle_apart {msg : WorkerMessage} {r : Db × Channel} (hnamed : ch.Named)
    (hne : msg.taskId cfg fl ≠ k) (hunnamed : msg.unnamed = false)
    (h : ch.handle cfg fl db now through resultId msg = some r) : Apart k ch r.2 := by
  cases msg with
  | taskAck taskId accepted reasonCode =>
      rw [← Option.some.inj h]
      have hack : Untouched k ch.session (ch.session.handleTaskAck taskId accepted reasonCode) :=
        -- the text of a pending acknowledgement is not empty
        LocalSession.untouched_handleTaskAck (fun hkey hempty => hnamed.pending (hempty ▸ hkey)) hne
          accepted reasonCode
      unfold handleTaskAck
      split
      · have hrenew : Apart k
          { ch with session := ch.session.handleTaskAck taskId accepted reasonCode }
            (renewIfDue cfg db now through
              { ch with session := ch.session.handleTaskAck taskId accepted reasonCode }
                taskId).2 :=
          apart_renewIfDue hne
        exact ⟨LocalSession.untouched_trans hack hrenew.session, hrenew.due⟩
      · exact ⟨hack, rfl⟩
  | capacity taskId freed =>
      rw [← Option.some.inj h]
      unfold handleCapacity
      split
      · exact ⟨LocalSession.untouched_refl, rfl⟩
      · refine apart_settle ⟨LocalSession.untouched_refl, rfl⟩
          (LocalSession.untouched_handleCapacity (fun hfreed hempty => ?_) hne) hne
        rw [WorkerMessage.unnamed, hempty] at hunnamed
        simp [hfreed] at hunnamed
  | taskStarted taskId =>
      rw [← Option.some.inj h]
      simp only [handleTaskStarted]
      split
      · exact apart_markRenewed hne
      · exact ⟨LocalSession.untouched_refl, rfl⟩
  | taskProgress taskId =>
      rw [← Option.some.inj h]
      exact apart_renewIfDue hne
  | taskFailed taskId errorType correlationId =>
      rw [← Option.some.inj h]
      -- an empty text would take any credit, but it gets `NOT_FOUND` and is no key
      refine apart_settle ⟨LocalSession.untouched_refl, rfl⟩
        (LocalSession.untouched_finishFailed hne fun hempty => ?_) hne
      subst hempty
      exact ⟨failTask_empty, hnamed.credited⟩
  | taskResult payload =>
      simp only [WorkerMessage.taskId] at hne
      rw [handle] at h
      rcases handleTaskResult_cases h with
        ⟨⟨reason, hvalid⟩, renewed, rfl, rfl⟩ | ⟨envelope, answer, hvalid, -, -, -, hch⟩
      · rw [hvalid] at hne
        exact apart_settle (apart_renewIfDue hne) (LocalSession.untouched_rejectResult hne) hne
      · rw [hvalid] at hne
        have hfinish : Untouched k ch.session (ch.session.finishResult envelope.taskId answer.2) :=
          LocalSession.untouched_finishResult envelope.taskId_ne_empty hne answer.2
        rcases hch with hsettled | hkept
        · rw [hsettled]
          exact apart_settle ⟨LocalSession.untouched_refl, rfl⟩ hfinish hne
        · rw [hkept]
          exact ⟨hfinish, rfl⟩
  | other =>
      rw [← Option.some.inj h]
      exact ⟨LocalSession.untouched_refl, rfl⟩

end Channel

end TaskFleet.Model
