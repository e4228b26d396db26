import TaskFleet.Logic.EngineSteps

/-!
# The sessions of a replica

What a handler's turn and a delivery leave as it is in a session, and what the
registry of a replica can be relied on for: `_local_sessions` names open sessions
under their own workers, and two sessions of a worker differ in their epochs.
-/

namespace TaskFleet.Model

open Py

/-! ## One session -/

namespace LocalSession

theorem releaseCredit_eq (s : LocalSession) (taskId : String) (freed : Nat) :
    ∃ credited residual,
      s.releaseCredit taskId freed =
        { s with credited := credited, residualInFlight := residual } := by
  unfold releaseCredit
  split
  · split
    · exact ⟨_, _, rfl⟩
    · split
      · exact ⟨_, _, rfl⟩
      · exact ⟨_, _, rfl⟩
  · exact ⟨_, _, rfl⟩

theorem releaseCredit_inFlight_le (s : LocalSession) (taskId : String) (freed : Nat) :
    (s.releaseCredit taskId freed).inFlight ≤ s.inFlight := by
  unfold releaseCredit inFlight
  split
  · split
    · have := Dict.size_erase_le s.credited taskId
      simp only
      omega
    · split
      · simp only
        omega
      · exact le_refl _
  · have : (s.credited.dropFirst (freed - min (max 1 freed) s.residualInFlight)).size ≤
      s.credited.size := by
      simp [Dict.size, Dict.dropFirst]
    simp only
    omega

theorem mem_keys_releaseCredit {s : LocalSession} {taskId key : String} {freed : Nat}
    (h : key ∈ (s.releaseCredit taskId freed).credited.keys) : key ∈ s.credited.keys := by
  unfold releaseCredit at h
  split at h
  · split at h
    · exact (Dict.mem_keys_erase.mp h).2
    · split at h <;> exact h
  · rw [Dict.keys_dropFirst] at h
    exact List.mem_of_mem_drop h

/-- Only an acknowledgement takes a task off `pending_acks`. -/
theorem turn_eq (s : LocalSession) (turn : SessionTurn) :
    ∃ credited residual recovered saturated, s.turn turn =
      { s with
        pendingAcks :=
          match turn with
          | .taskAck taskId _ _ => s.pendingAcks.erase taskId
          | _ => s.pendingAcks
        credited := credited
        residualInFlight := residual
        recoveredTasks := recovered
        saturated := saturated } := by
  cases turn with
  | taskAck taskId accepted reasonCode =>
      simp only [turn, handleTaskAck]
      split
      · split
        · exact ⟨_, _, _, _, rfl⟩
        · split
          · exact ⟨_, _, _, _, rfl⟩
          · obtain ⟨credited, residual, heq⟩ :=
              releaseCredit_eq { s with pendingAcks := s.pendingAcks.erase taskId } taskId 1
            exact ⟨credited, residual, s.recoveredTasks, s.saturated, heq⟩
      · next hunknown =>
          rw [Dict.erase_of_not_mem (by simpa using hunknown)]
          exact ⟨_, _, _, _, rfl⟩
  | capacity taskId freed =>
      simp only [turn, handleCapacity]
      split
      · exact ⟨_, _, _, _, rfl⟩
      · obtain ⟨credited, residual, heq⟩ := releaseCredit_eq s taskId freed.toNat
        rw [heq]
        exact ⟨_, _, _, _, rfl⟩
  | failed taskId outcome =>
      obtain ⟨credited, residual, heq⟩ := releaseCredit_eq s taskId 1
      simp only [turn, finishFailed, heq]
      split <;> exact ⟨_, _, _, _, rfl⟩
  | result taskId outcome =>
      obtain ⟨credited, residual, heq⟩ := releaseCredit_eq s taskId 1
      simp only [turn, finishResult, heq]
      split <;> exact ⟨_, _, _, _, rfl⟩
  | malformedResult taskId =>
      obtain ⟨credited, residual, heq⟩ := releaseCredit_eq s taskId 1
      simp only [turn, rejectResult, heq]
      split <;> exact ⟨_, _, _, _, rfl⟩

/-- No handler takes a credit. -/
theorem turn_inFlight_le (s : LocalSession) (turn : SessionTurn) :
    (s.turn turn).inFlight ≤ s.inFlight := by
  have hrelease := releaseCredit_inFlight_le
  cases turn with
  | taskAck taskId accepted reasonCode =>
      simp only [turn, handleTaskAck]
      split
      · split
        · exact le_refl _
        · split
          · exact le_refl _
          · exact hrelease { s with pendingAcks := s.pendingAcks.erase taskId } taskId 1
      · exact le_refl _
  | capacity taskId freed =>
      simp only [turn, handleCapacity]
      split
      · exact le_refl _
      · exact hrelease s taskId freed.toNat
  | failed taskId outcome =>
      simp only [turn, finishFailed]
      split
      · exact hrelease s taskId 1
      · exact le_refl _
  | result taskId outcome =>
      simp only [turn, finishResult]
      split
      · exact hrelease s taskId 1
      · exact le_refl _
  | malformedResult taskId =>
      simp only [turn, rejectResult]
      split
      · exact hrelease s taskId 1
      · exact le_refl _

/-- No handler adds a key. -/
theorem mem_keys_turn {s : LocalSession} {turn : SessionTurn} {key : String}
    (h : key ∈ (s.turn turn).credited.keys) : key ∈ s.credited.keys := by
  cases turn with
  | taskAck taskId accepted reasonCode =>
      simp only [LocalSession.turn, handleTaskAck] at h
      split at h
      · split at h
        · exact h
        · split at h
          · exact h
          · exact mem_keys_releaseCredit
              (s := { s with pendingAcks := s.pendingAcks.erase taskId }) h
      · exact h
  | capacity taskId freed =>
      simp only [LocalSession.turn, handleCapacity] at h
      split at h
      · exact h
      · exact mem_keys_releaseCredit h
  | failed taskId outcome =>
      simp only [LocalSession.turn, finishFailed] at h
      split at h
      · exact mem_keys_releaseCredit h
      · exact h
  | result taskId outcome =>
      simp only [LocalSession.turn, finishResult] at h
      split at h
      · exact mem_keys_releaseCredit h
      · exact h
  | malformedResult taskId =>
      simp only [LocalSession.turn, rejectResult] at h
      split at h
      · exact mem_keys_releaseCredit h
      · exact h

end LocalSession

/-! ## The registry -/

namespace Engine

variable {s t : Engine} {i j : ℕ} {f : EngineSession → EngineSession} {x y : EngineSession}

theorem modify_sessions_self (hx : s.sessions i = some x) :
    (s.modify i f).sessions i = some (f x) := by
  simp [modify, hx]

theorem modify_sessions_of_ne (hne : j ≠ i) : (s.modify i f).sessions j = s.sessions j := by
  simp [modify, hne]

/-- A session that is there after a change was there before. -/
theorem modify_sessions_some (h : (s.modify i f).sessions j = some y) :
    ∃ x, s.sessions j = some x ∧ (j = i ∧ y = f x ∨ j ≠ i ∧ y = x) := by
  by_cases hij : j = i
  · subst hij
    simp only [modify, Function.update_self, Option.map_eq_some_iff] at h
    obtain ⟨x, hx, hy⟩ := h
    exact ⟨x, hx, .inl ⟨rfl, hy.symm⟩⟩
  · rw [modify_sessions_of_ne hij] at h
    exact ⟨y, h, .inr ⟨hij, rfl⟩⟩

end Engine

/-- What `_local_sessions` can be relied on for. -/
structure Registered (s : Engine) : Prop where
  mapped : ∀ w i, s.localSessions.lookup w = some i →
    ∃ x, s.sessions i = some x ∧ x.session.workerId = w ∧ x.ended = false
  epochs : ∀ i j x y, s.sessions i = some x → s.sessions j = some y →
    x.session.workerId = y.session.workerId →
      x.session.sessionEpoch = y.session.sessionEpoch → i = j

section

variable {cfg : Config} {drainSeconds : Seconds} {s t : Engine} {e : EngineEvent} {i : ℕ}
  {f : EngineSession → EngineSession}

theorem Registered.of_same (h : Registered s) (hsessions : t.sessions = s.sessions)
    (hlocal : t.localSessions = s.localSessions) : Registered t where
  mapped := by rw [hsessions, hlocal]; exact h.mapped
  epochs := by rw [hsessions]; exact h.epochs

/-- A change of a session that keeps its worker, its epoch and its socket. -/
theorem Registered.modify (h : Registered s) (hlocal : t.localSessions = s.localSessions)
    (hsessions : t.sessions = (s.modify i f).sessions)
    (hf : ∀ x, (f x).session.workerId = x.session.workerId ∧
      (f x).session.sessionEpoch = x.session.sessionEpoch ∧ (f x).ended = x.ended) :
        Registered t where
  mapped := by
    intro w j hj
    rw [hlocal] at hj
    obtain ⟨x, hx, hw, hopen⟩ := h.mapped w j hj
    rw [hsessions]
    by_cases hij : j = i
    · subst hij
      exact ⟨f x, Engine.modify_sessions_self hx, (hf x).1.trans hw, (hf x).2.2.trans hopen⟩
    · exact ⟨x, by rw [Engine.modify_sessions_of_ne hij, hx], hw, hopen⟩
  epochs := by
    intro j k x' y' hx' hy' hworker hepoch
    rw [hsessions] at hx' hy'
    have hsame : ∀ {l z'}, (s.modify i f).sessions l = some z' → ∃ z, s.sessions l = some z ∧
        z'.session.workerId = z.session.workerId ∧
          z'.session.sessionEpoch = z.session.sessionEpoch := by
      intro l z' hz'
      obtain ⟨z, hz, ⟨-, rfl⟩ | ⟨-, rfl⟩⟩ := Engine.modify_sessions_some hz'
      · exact ⟨z, hz, (hf z).1, (hf z).2.1⟩
      · exact ⟨z', hz, rfl, rfl⟩
    obtain ⟨x, hx, hxw, hxe⟩ := hsame hx'
    obtain ⟨y, hy, hyw, hye⟩ := hsame hy'
    exact h.epochs j k x y hx hy (hxw ▸ hyw ▸ hworker) (hxe ▸ hye ▸ hepoch)

theorem Registered.register {session : LocalSession} (h : Registered s) (hnew : s.sessions i = none)
    (hepoch : ∀ j x, s.sessions j = some x → x.session.workerId = session.workerId →
      x.session.sessionEpoch ≠ session.sessionEpoch) :
        Registered (s.registerSession i session) where
  mapped := by
    intro w j hj
    simp only [Engine.registerSession, Dict.lookup_set] at hj ⊢
    split at hj
    · next hw =>
        cases hj
        exact ⟨_, Function.update_self .., hw.symm, rfl⟩
    · obtain ⟨x, hx, hw, hopen⟩ := h.mapped w j hj
      have hij : j ≠ i := by rintro rfl; rw [hnew] at hx; cases hx
      exact ⟨x, by rw [Function.update_of_ne hij, hx], hw, hopen⟩
  epochs := by
    intro j k x y hx hy hworker hsame
    simp only [Engine.registerSession] at hx hy
    by_cases hj : j = i <;> by_cases hk : k = i
    · rw [hj, hk]
    · subst hj
      rw [Function.update_self] at hx
      rw [Function.update_of_ne hk] at hy
      cases hx
      exact absurd hsame.symm (hepoch k y hy hworker.symm)
    · subst hk
      rw [Function.update_self] at hy
      rw [Function.update_of_ne hj] at hx
      cases hy
      exact absurd hsame (hepoch j x hx hworker)
    · rw [Function.update_of_ne hj] at hx
      rw [Function.update_of_ne hk] at hy
      exact h.epochs j k x y hx hy hworker hsame

/-- `unregister_session` takes the session off the registry, and no other. -/
theorem Registered.lookup_unregister {x : EngineSession} (h : Registered s)
    (hx : s.sessions i = some x) (w : Uuid)
    (j : ℕ) : (s.unregisterSession x.session).localSessions.lookup w = some j ↔
      s.localSessions.lookup w = some j ∧ j ≠ i := by
  have hkept : s.localSessions.lookup x.session.workerId ≠ some i →
      (s.localSessions.lookup w = some j ↔ s.localSessions.lookup w = some j ∧ j ≠ i) := by
    intro hnot
    refine ⟨fun hj => ⟨hj, ?_⟩, And.left⟩
    rintro rfl
    obtain ⟨y, hy, rfl, -⟩ := h.mapped w j hj
    rw [hx] at hy
    cases hy
    exact hnot hj
  cases hlookup : s.localSessions.lookup x.session.workerId with
  | none =>
      simp only [Engine.unregisterSession, hlookup, Option.bind_none]
      exact hkept (by simp [hlookup])
  | some k =>
      obtain ⟨y, hy, hworker, -⟩ := h.mapped _ k hlookup
      simp only [Engine.unregisterSession, hlookup, Option.bind_some, hy]
      split
      · next hepoch =>
          obtain rfl : k = i := h.epochs k i y x hy hx hworker hepoch
          rw [Dict.lookup_erase]
          split
          · next hw =>
              subst hw
              rw [hlookup]
              simp [eq_comm]
          · next hw =>
              refine ⟨fun hj => ⟨hj, ?_⟩, And.left⟩
              rintro rfl
              obtain ⟨z, hz, rfl, -⟩ := h.mapped w j hj
              rw [hx] at hz
              cases hz
              exact hw rfl
      · next hepoch =>
          refine hkept ?_
          rw [hlookup]
          rintro ⟨⟩
          rw [hx] at hy
          cases hy
          exact hepoch rfl

theorem Registered.hangUp {x : EngineSession} (h : Registered s) (hx : s.sessions i = some x) :
    Registered ((s.unregisterSession x.session).modify i fun x => { x with ended := true }) where
  mapped := by
    intro w j hj
    obtain ⟨hj, hij⟩ := (h.lookup_unregister hx w j).mp hj
    obtain ⟨y, hy, hw, hopen⟩ := h.mapped w j hj
    exact ⟨y, (Engine.modify_sessions_of_ne hij).trans hy, hw, hopen⟩
  epochs := by
    intro j k y z hy hz hworker hepoch
    have hsame : ∀ {l z'}, ((s.unregisterSession x.session).modify i
        fun x => { x with ended := true }).sessions l = some z' →
        ∃ z, s.sessions l = some z ∧ z'.session = z.session := by
      intro l z' hz'
      obtain ⟨z, hz, ⟨-, rfl⟩ | ⟨-, rfl⟩⟩ := Engine.modify_sessions_some hz'
      · exact ⟨z, hz, rfl⟩
      · exact ⟨z', hz, rfl⟩
    obtain ⟨y', hy', heq⟩ := hsame hy
    obtain ⟨z', hz', heq'⟩ := hsame hz
    rw [heq, heq'] at hworker hepoch
    exact h.epochs j k y' z' hy' hz' hworker hepoch

theorem registered_step (h : EngineMove cfg drainSeconds s e t) (hallowed : e.Allowed s)
    (hs : Registered s) :
    Registered t := by
  cases h.effect with
  | written | sendReturned => exact hs.modify rfl rfl fun x => ⟨rfl, rfl, rfl⟩
  | register hnew => exact hs.register hnew hallowed.2.2
  | hangUp hx => exact hs.hangUp hx
  | @handled i turn =>
      refine hs.modify rfl rfl fun x => ?_
      obtain ⟨credited, residual, recovered, saturated, heq⟩ := x.session.turn_eq turn
      simp only [EngineSession.handle, heq, and_self]
  | _ => exact hs.of_same rfl rfl

theorem registered_reachable (h : (engine cfg drainSeconds).Reachable t) : Registered t := by
  refine h.invariant (P := Registered) ?_ ?_
  · rintro s ⟨db, rfl⟩
    exact ⟨fun _ _ hi => (by cases hi), fun _ _ _ _ hx => (by cases hx)⟩
  · rintro s e t - hs ⟨hallowed, hstep⟩
    exact registered_step (engineStep_move hstep) hallowed hs

/-- The event is allowed in every state. -/
def EngineEvent.free : EngineEvent → Bool
  | .register _ _ | .database _ => false
  | _ => true

/-- Such events, played one after the other. -/
theorem engine_played {es : List EngineEvent}
    (h : es.foldlM (fun s e => if e.free then engineStep cfg drainSeconds s e else none)
      s = some t) :
    (engine cfg drainSeconds).Trace s es t := by
  refine System.Trace.of_foldlM (fun s e t hs => ?_) h
  split at hs
  · next hfree =>
      refine ⟨?_, hs⟩
      cases e <;> trivial
  · cases hs

/-- An event leads to one state. -/
theorem engine_deterministic (cfg : Config) (drainSeconds : Seconds) :
    (engine cfg drainSeconds).Deterministic := by
  rintro s e t t' ⟨-, h⟩ ⟨-, h'⟩
  rw [h] at h'
  exact Option.some.inj h'

end

end TaskFleet.Model
