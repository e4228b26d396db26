import TaskFleet.Logic.EngineSessions

/-!
# Frames that are not answered yet

`_deliver` enters a task into `pending_acks` after its send has returned, and the
frame is on the socket before. An answer that is handled in between finds no entry,
and the entry made afterwards is never taken away: the drain waits out its window
(`answered_midway_never_drains`). Where no answer, no look at the count and no end
of the loop falls into a send, a session stays registered while it owes an answer,
and a task is not sent again before it is answered, `pending_acks` is exactly what
is unanswered (`unanswered_frames_counted`).
-/

namespace TaskFleet.Model

open Py

/-- The frame that is written while its `_deliver` waits for the send to return. -/
def Engine.sending (s : Engine) : Option (ℕ × String) :=
  match s.pc with
  | .sent task _ pass => some (pass.current, task.id.str)
  | _ => none

/-- No open session has such a frame. -/
def Engine.Quiet (s : Engine) : Prop :=
  ∀ i taskId x, s.sending = some (i, taskId) → s.sessions i = some x → x.ended = true

/-- The step stays clear of the gaps in the bookkeeping. -/
def InStep (s : Engine) : EngineEvent → Prop
  | .written => ∀ task tasks pass x, s.pc = .send task tasks pass →
      s.sessions pass.current = some x →
      s.localSessions.lookup x.session.workerId = some pass.current ∧ task.id.str ∉ x.unanswered
  | .handled i (.taskAck taskId _ _) => s.sending ≠ some (i, taskId)
  | .sendRaised | .cancel | .poll _ => s.Quiet
  | .register _ session => ∀ i x, s.localSessions.lookup session.workerId = some i →
      s.sessions i = some x → x.unanswered = []
  | _ => True

/-- The books of an open session. -/
structure FramesOf (s : Engine) (i : ℕ) (x : EngineSession) : Prop where
  pending : ∀ taskId, taskId ∈ x.session.pendingAcks.keys ↔
    taskId ∈ x.unanswered ∧ s.sending ≠ some (i, taskId)
  counted : x.unanswered ≠ [] → s.localSessions.lookup x.session.workerId = some i
  once : x.unanswered.Nodup
  underway : ∀ taskId, s.sending = some (i, taskId) → taskId ∈ x.unanswered

/-- The books of a replica. -/
structure FramesKept (s : Engine) : Prop where
  frames : ∀ i x, s.sessions i = some x → x.ended = false → FramesOf s i x
  present : ∀ i taskId, s.sending = some (i, taskId) → ∃ x, s.sessions i = some x

/-- The frame of the task is about to be written to the session. -/
def Engine.Writes (s : Engine) (i : ℕ) (taskId : String) : Prop :=
  ∃ task tasks pass, s.pc = .send task tasks pass ∧ pass.current = i ∧ task.id.str = taskId

section

variable {cfg : Config} {drainSeconds : Seconds} {s t : Engine} {e : EngineEvent}
  {es : List EngineEvent}
  {i : ℕ} {x : EngineSession}

/-! ## What is being sent -/

theorem Engine.sending_eq_none (h : ∀ task tasks pass, s.pc ≠ .sent task tasks pass) :
    s.sending = none := by
  unfold sending
  split
  · next hpc => exact absurd hpc (h _ _ _)
  · rfl

theorem Engine.assignOnce_sending (s : Engine) : s.assignOnce.sending = none := by
  unfold assignOnce
  split
  · rfl
  · split <;> rfl

theorem Engine.nextCandidate_sending {delivered : Nat} {rest : List ℕ}
    (h : s.nextCandidate cfg delivered rest = some t) : t.sending = none := by
  cases rest with
  | nil => cases h; rfl
  | cons i rest =>
      simp only [nextCandidate] at h
      split at h
      · cases h
      · split at h <;> cases h <;> rfl

theorem Engine.nextTask_sending {pass : Pass} {tasks : List ClaimedTask}
    (h : s.nextTask cfg pass tasks = some t) : t.sending = none := by
  cases tasks with
  | nil => exact Engine.nextCandidate_sending h
  | cons task tasks => cases h; rfl

theorem Engine.quiet_of_none (h : s.sending = none) : s.Quiet := by
  intro i taskId x hsending
  rw [h] at hsending
  cases hsending

/-! ## The books -/

/-- The sends of a session and its place in the registry are all its books need. -/
theorem FramesOf.congr (h : FramesOf s i x)
    (hsending : ∀ taskId, t.sending = some (i, taskId) ↔ s.sending = some (i, taskId))
    (hcounted : x.unanswered ≠ [] → s.localSessions.lookup x.session.workerId = some i →
      t.localSessions.lookup x.session.workerId = some i) : FramesOf t i x where
  pending taskId := by rw [h.pending, ne_eq, ne_eq, hsending]
  counted hne := hcounted hne (h.counted hne)
  once := h.once
  underway taskId ht := h.underway taskId ((hsending taskId).mp ht)

/-- No session changes, and no open session's send comes or goes. -/
theorem FramesKept.of_same (h : FramesKept s) (hsessions : t.sessions = s.sessions)
    (hlocal : t.localSessions = s.localSessions)
    (hsending : t.sending = s.sending ∨ t.sending = none ∧ s.Quiet) : FramesKept t where
  frames i x hx hopen := by
    rw [hsessions] at hx
    refine (h.frames i x hx hopen).congr (fun taskId => ?_) fun _ hlookup => hlocal ▸ hlookup
    rcases hsending with heq | ⟨hnone, hquiet⟩
    · rw [heq]
    · rw [hnone]
      refine ⟨fun ht => (by cases ht), fun hs => ?_⟩
      rw [hquiet i taskId x hs hx] at hopen
      cases hopen
  present i taskId ht := by
    rw [hsessions]
    rcases hsending with heq | ⟨hnone, -⟩
    · exact h.present i taskId (heq ▸ ht)
    · rw [hnone] at ht
      cases ht

/-- One session changes, and the sends of the others stay what they are. -/
theorem FramesKept.of_modify {f : EngineSession → EngineSession} (h : FramesKept s)
    (hsessions : t.sessions = (s.modify i f).sessions) (hlocal : t.localSessions = s.localSessions)
    (hothers : ∀ j taskId, j ≠ i → (t.sending = some (j, taskId) ↔ s.sending = some (j, taskId)))
    (hone : ∀ x, s.sessions i = some x → (f x).ended = false → FramesOf t i (f x))
    (hthere : ∃ x, s.sessions i = some x) : FramesKept t where
  frames j y hy hopen := by
    rw [hsessions] at hy
    obtain ⟨x, hx, ⟨rfl, rfl⟩ | ⟨hij, rfl⟩⟩ := Engine.modify_sessions_some hy
    · exact hone x hx hopen
    · exact (h.frames j y hx hopen).congr (fun taskId => hothers j taskId hij) fun _
        hl => hlocal ▸ hl
  present j taskId ht := by
    rw [hsessions]
    by_cases hij : j = i
    · subst hij
      obtain ⟨x, hx⟩ := hthere
      exact ⟨f x, Engine.modify_sessions_self hx⟩
    · rw [Engine.modify_sessions_of_ne hij]
      exact h.present j taskId ((hothers j taskId hij).mp ht)

/-- The frame is written. -/
theorem FramesKept.written {task : ClaimedTask} {tasks : List ClaimedTask} {pass : Pass}
    (h : FramesKept s)
    (hpc : s.pc = .send task tasks pass) (hx : s.sessions pass.current = some x)
    (hguard : InStep s .written)
    (hsessions : t.sessions = (s.modify pass.current fun x =>
      { x with unanswered := task.id.str :: x.unanswered }).sessions)
    (hlocal : t.localSessions = s.localSessions)
    (hsending : t.sending = some (pass.current, task.id.str)) : FramesKept t := by
  have hnone : s.sending = none := Engine.sending_eq_none (by simp [hpc])
  refine h.of_modify hsessions hlocal ?_ ?_ ⟨x, hx⟩
  · intro j taskId hj
    rw [hnone, hsending, Option.some.injEq, Prod.mk.injEq]
    exact ⟨fun ht => absurd ht.1.symm hj, fun hs => (by cases hs)⟩
  · intro x hx hopen
    obtain ⟨hlookup, hnew⟩ := hguard task tasks pass x hpc hx
    have hx' := h.frames _ x hx hopen
    refine ⟨fun taskId => ?_, fun _ => hlocal ▸ hlookup, List.nodup_cons.mpr ⟨hnew, hx'.once⟩, ?_⟩
    · have hpending := hx'.pending taskId
      simp only [hnone, ne_eq, reduceCtorEq, not_false_eq_true, and_true] at hpending
      simp only [hpending, hsending, List.mem_cons, ne_eq, Option.some.injEq,
        Prod.mk.injEq, true_and]
      constructor
      · intro hmem
        refine ⟨.inr hmem, ?_⟩
        rintro rfl
        exact hnew hmem
      · rintro ⟨heq | hmem, hne⟩
        · exact absurd heq.symm hne
        · exact hmem
    · intro taskId ht
      rw [hsending, Option.some.injEq, Prod.mk.injEq] at ht
      exact ht.2 ▸ List.mem_cons_self

/-- The send returns, and the task is entered. -/
theorem FramesKept.sendReturned {task : ClaimedTask} {tasks : List ClaimedTask} {pass : Pass}
    (h : FramesKept s) (hpc : s.pc = .sent task tasks pass)
    (hsessions : t.sessions = (s.modify pass.current fun x =>
      { x with session := x.session.deliver task.id.str task.correlationId }).sessions)
    (hlocal : t.localSessions = s.localSessions) (hnone : t.sending = none) : FramesKept t := by
  have hsending : s.sending = some (pass.current, task.id.str) := by simp [Engine.sending, hpc]
  refine h.of_modify hsessions hlocal ?_ ?_ (h.present _ _ hsending)
  · intro j taskId hj
    rw [hnone, hsending, Option.some.injEq, Prod.mk.injEq]
    exact ⟨fun ht => (by cases ht), fun hs => absurd hs.1.symm hj⟩
  · intro x hx hopen
    have hx' := h.frames _ x hx hopen
    refine ⟨fun taskId => ?_, fun hne => hlocal ▸ hx'.counted hne, hx'.once, ?_⟩
    · simp only [LocalSession.deliver, Dict.mem_keys_set, hx'.pending, hsending, hnone,
        ne_eq, reduceCtorEq,
        not_false_eq_true, and_true, Option.some.injEq, Prod.mk.injEq, true_and]
      constructor
      · rintro (rfl | ⟨hmem, -⟩)
        · exact hx'.underway _ hsending
        · exact hmem
      · intro hmem
        by_cases heq : task.id.str = taskId
        · exact .inl heq.symm
        · exact .inr ⟨hmem, heq⟩
    · intro taskId ht
      rw [hnone] at ht
      cases ht

/-- A session of a worker that owes no answer takes over. -/
theorem FramesKept.register {session : LocalSession} (h : FramesKept s) (hnew : s.sessions i = none)
    (hpending : session.pendingAcks = .empty) (hguard : InStep s (.register i session)) :
    FramesKept (s.registerSession i session) where
  frames j y hy hopen := by
    simp only [Engine.registerSession] at hy
    by_cases hij : j = i
    · subst hij
      rw [Function.update_self] at hy
      cases hy
      refine ⟨fun taskId => ?_, fun hne => absurd rfl hne, List.nodup_nil, fun taskId ht => ?_⟩
      · rw [hpending]
        exact iff_of_false List.not_mem_nil fun hmem => List.not_mem_nil hmem.1
      · obtain ⟨x, hx⟩ := h.present j taskId ht
        rw [hnew] at hx
        cases hx
    · rw [Function.update_of_ne hij] at hy
      refine (h.frames j y hy hopen).congr (fun _ => Iff.rfl) fun hne hlookup => ?_
      simp only [Engine.registerSession, Dict.lookup_set]
      rw [if_neg, hlookup]
      intro hworker
      exact hne (hguard j y (hworker ▸ hlookup) hy)
  present j taskId ht := by
    obtain ⟨x, hx⟩ := h.present j taskId ht
    have hij : j ≠ i := by rintro rfl; rw [hnew] at hx; cases hx
    exact ⟨x, (Function.update_of_ne hij ..).trans hx⟩

/-- A socket closes, and the books of the open ones are as before. -/
theorem FramesKept.hangUp (h : FramesKept s) (hregistered : Registered s)
    (hx : s.sessions i = some x) :
    FramesKept ((s.unregisterSession x.session).modify i fun x => { x with ended := true }) where
  frames j y hy hopen := by
    obtain ⟨z, hz, ⟨rfl, rfl⟩ | ⟨hij, rfl⟩⟩ := Engine.modify_sessions_some hy
    · cases hopen
    · refine (h.frames j y hz hopen).congr (fun _ => Iff.rfl) fun _ hlookup => ?_
      exact (hregistered.lookup_unregister hx _ j).mpr ⟨hlookup, hij⟩
  present j taskId ht := by
    obtain ⟨y, hy⟩ := h.present j taskId ht
    by_cases hij : j = i
    · subst hij
      exact ⟨_, Engine.modify_sessions_self (s := s.unregisterSession x.session) hy⟩
    · exact ⟨y, (Engine.modify_sessions_of_ne hij).trans hy⟩

/-- A handler's turn takes an answered task off both. -/
theorem FramesOf.handle {turn : SessionTurn} (h : FramesOf s i x)
    (hguard : InStep s (.handled i turn))
    (hsending : t.sending = s.sending) (hlocal : t.localSessions = s.localSessions) :
    FramesOf t i (x.handle turn) := by
  obtain ⟨credited, residual, recovered, saturated, heq⟩ := x.session.turn_eq turn
  cases turn with
  | taskAck taskId accepted reasonCode =>
      refine ⟨fun task => ?_, fun hne => ?_, h.once.erase _, fun task ht => ?_⟩
      · simp only [EngineSession.handle, heq, Dict.mem_keys_erase, h.pending,
          h.once.mem_erase_iff, hsending]
        tauto
      · simp only [EngineSession.handle, heq, hlocal]
        exact h.counted fun hnil => hne (by simp [EngineSession.handle, hnil])
      · rw [hsending] at ht
        refine h.once.mem_erase_iff.mpr ⟨?_, h.underway task ht⟩
        rintro rfl
        exact hguard ht
  | capacity | failed | result | malformedResult =>
      refine ⟨fun task => ?_, fun hne => ?_, h.once, fun task ht => h.underway task (hsending ▸ ht)⟩
      · simp only [EngineSession.handle, heq, h.pending, hsending]
      · simp only [EngineSession.handle, heq, hlocal]
        exact h.counted hne

theorem framesKept_step (h : EngineMove cfg drainSeconds s e t) (hallowed : e.Allowed s)
    (hregistered : Registered s) (hs : FramesKept s) (hguard : InStep s e) : FramesKept t := by
  cases h with
  | wake hpc | resumed hpc =>
      obtain ⟨pc, hpc'⟩ := Engine.assignOnce_eq _
      refine hs.of_same (by rw [hpc']) (by rw [hpc']) (.inl ?_)
      rw [Engine.assignOnce_sending, Engine.sending_eq_none (by simp [hpc])]
  | empty hpc | claimed hpc | rested hpc =>
      exact hs.of_same rfl rfl (.inl (Engine.sending_eq_none (by simp [hpc])).symm)
  | first hpc _ hnext | nothing hpc _ _ hnext =>
      have hnone := Engine.nextCandidate_sending hnext
      obtain ⟨pc, rfl⟩ := Engine.nextCandidate_eq hnext
      exact hs.of_same rfl rfl
        (.inr ⟨hnone, Engine.quiet_of_none (Engine.sending_eq_none (by simp [hpc]))⟩)
  | committed hpc _ hnext =>
      have hnone := Engine.nextTask_sending hnext
      obtain ⟨pc, rfl⟩ := Engine.nextTask_eq hnext
      exact hs.of_same rfl rfl
        (.inr ⟨hnone, Engine.quiet_of_none (Engine.sending_eq_none (by simp [hpc]))⟩)
  | written hpc hx => exact hs.written hpc hx hguard rfl rfl rfl
  | sendReturned hpc hnext =>
      have hnone := Engine.nextTask_sending hnext
      obtain ⟨pc, rfl⟩ := Engine.nextTask_eq hnext
      exact hs.sendReturned hpc rfl rfl hnone
  | sendRaised _ hnext =>
      have hnone := Engine.nextTask_sending hnext
      obtain ⟨pc, rfl⟩ := Engine.nextTask_eq hnext
      exact hs.of_same rfl rfl (.inr ⟨hnone, hguard⟩)
  | left hpc =>
      refine hs.of_same rfl rfl (.inl ?_)
      rw [Engine.sending_eq_none (s := s) (by simp [hpc])]
      refine Engine.sending_eq_none fun task tasks pass hsent => ?_
      dsimp only at hsent
      split at hsent
      · cases hsent
      · split at hsent <;> cases hsent
  | raised hawait hpc =>
      refine hs.of_same rfl rfl (.inl ?_)
      rw [Engine.sending_eq_none hawait]
      rcases hpc with rfl | ⟨_, rfl⟩ <;> rfl
  | cancel => exact hs.of_same rfl rfl (.inr ⟨rfl, hguard⟩)
  | notify | beginDrain | poll | database => exact hs.of_same rfl rfl (.inl rfl)
  | register hnew => exact hs.register hnew hallowed.1 hguard
  | hangUp hx => exact hs.hangUp hregistered hx
  | handled hx hopen =>
      refine hs.of_modify rfl rfl (fun _ _ _ => Iff.rfl) ?_ ⟨_, hx⟩
      exact fun y hy hopen => (hs.frames _ y hy hopen).handle hguard rfl rfl

/-! ## The count of the drain -/

/-- With no frame under way, nothing is outstanding just when everything is
answered. -/
theorem FramesKept.outstanding_eq_zero_iff (h : FramesKept s) (hregistered : Registered s)
    (hquiet : s.Quiet) :
    s.outstanding = 0 ↔ ∀ i x, s.sessions i = some x → x.ended = false → x.unanswered = [] := by
  have hpending : ∀ i x, s.sessions i = some x → x.ended = false → ∀ taskId,
      taskId ∈ x.session.pendingAcks.keys ↔ taskId ∈ x.unanswered := by
    intro i x hx hopen taskId
    rw [(h.frames i x hx hopen).pending, and_iff_left_iff_imp]
    intro _ hsending
    rw [hquiet i taskId x hsending hx] at hopen
    cases hopen
  have hsize : ∀ i x, s.sessions i = some x → x.ended = false →
      (x.session.pendingAcks.size = 0 ↔ x.unanswered = []) := by
    intro i x hx hopen
    rw [Dict.size_eq_length, List.length_eq_zero_iff, List.eq_nil_iff_forall_not_mem,
      List.eq_nil_iff_forall_not_mem]
    exact forall_congr' fun taskId => not_congr (hpending i x hx hopen taskId)
  simp only [Engine.outstanding, List.sum_eq_zero_iff_forall_eq_nat, List.forall_mem_map]
  constructor
  · intro hzero i x hx hopen
    by_contra hne
    have hlookup := (h.frames i x hx hopen).counted hne
    have hterm := hzero _ (Dict.lookup_eq_some_iff.mp hlookup)
    simp only [hx] at hterm
    exact hne ((hsize i x hx hopen).mp hterm)
  · rintro hall ⟨w, i⟩ hr
    obtain ⟨x, hx, -, hopen⟩ := hregistered.mapped w i (Dict.lookup_eq_some_iff.mpr hr)
    simp only [hx]
    exact (hsize i x hx hopen).mpr (hall i x hx hopen)

theorem framesKept_reachable (h : ((engine cfg drainSeconds).guarded InStep).Reachable t) :
    FramesKept t := by
  refine h.invariant (P := FramesKept) ?_ ?_
  · rintro s ⟨db, rfl⟩
    exact ⟨fun _ _ hx => (by cases hx), fun _ _ hs => (by cases hs)⟩
  · rintro s e t ⟨past, hpast⟩ hs ⟨⟨hallowed, hstep⟩, hguard⟩
    exact framesKept_step (engineStep_move hstep) hallowed
      (registered_reachable ⟨past, hpast.of_guarded⟩) hs
      hguard

/-! ## Answers -/

/-- An answer takes the only frame of its task off the open ones. -/
theorem answered_step (h : EngineMove cfg drainSeconds s e t) (hs : FramesKept s)
    {taskId reasonCode : String}
    {accepted : Bool} (he : e = .handled i (.taskAck taskId accepted reasonCode))
    (hx : t.sessions i = some x) :
    taskId ∉ x.unanswered := by
  subst he
  cases h with
  | handled hy hopen =>
      rw [Engine.modify_sessions_self hy] at hx
      cases hx
      exact (hs.frames i _ hy hopen).once.not_mem_erase

/-- A task is open on a session again only when its frame is written again. -/
theorem unanswered_step (h : EngineMove cfg drainSeconds s e t) {taskId : String}
    (hs : ∀ x, s.sessions i = some x → taskId ∉ x.unanswered) :
    (∀ x, t.sessions i = some x → taskId ∉ x.unanswered) ∨ e = .written ∧ s.Writes i taskId := by
  have hmodify : ∀ {j : ℕ} {f : EngineSession → EngineSession} {t : Engine},
      t.sessions = (s.modify j f).sessions →
        (∀ x, s.sessions j = some x → (f x).unanswered ⊆ x.unanswered) →
      ∀ x, t.sessions i = some x → taskId ∉ x.unanswered := by
    intro j f t hsessions hf y hy
    rw [hsessions] at hy
    obtain ⟨x, hx, ⟨rfl, rfl⟩ | ⟨-, rfl⟩⟩ := Engine.modify_sessions_some hy
    · exact fun hmem => hs x hx (hf x hx hmem)
    · exact hs y hx
  cases h.effect with
  | @written task tasks pass pc hpc =>
      by_cases hframe : pass.current = i ∧ task.id.str = taskId
      · exact .inr ⟨rfl, task, tasks, pass, hpc, hframe⟩
      · refine .inl fun z hz hmem => ?_
        obtain ⟨x, hx, ⟨rfl, rfl⟩ | ⟨-, rfl⟩⟩ := Engine.modify_sessions_some hz
        · rcases List.mem_cons.mp hmem with heq | hmem
          · exact hframe ⟨rfl, heq.symm⟩
          · exact hs x hx hmem
        · exact hs z hx hmem
  | sendReturned | hangUp => exact .inl (hmodify rfl fun _ _ => List.Subset.refl _)
  | @register j session hnew =>
      refine .inl fun z hz => ?_
      by_cases hij : i = j
      · subst hij
        cases (Function.update_self ..).symm.trans hz
        exact List.not_mem_nil
      · exact hs z ((Function.update_of_ne hij ..).symm.trans hz)
  | @handled j turn =>
      refine .inl (hmodify rfl fun x _ => ?_)
      cases turn with
      | taskAck => exact List.erase_subset
      | _ => exact List.Subset.refl _
  | _ => exact .inl hs

/-- **The bookkeeping of unacknowledged deliveries is exact** in every run of a
replica that stays in step. On every open session `pending_acks` holds the tasks
whose frame is written and not answered, less the one whose send is under way, and
the drain counts it. A task that is answered comes back into `pending_acks` only
after its frame is written again. A poll ends the drain before its time exactly when
every frame on an open session is answered. -/
theorem unanswered_frames_counted (h : ((engine cfg drainSeconds).guarded InStep).Run es t) :
    FramesKept t ∧
    (∀ as i taskId accepted reasonCode bs x,
      es = as ++ .handled i (.taskAck taskId accepted reasonCode) :: bs →
      t.sessions i = some x → x.ended = false → taskId ∈ x.session.pendingAcks.keys →
      ∃ cs ds u, bs = cs ++ .written :: ds ∧ u.Writes i taskId ∧
        (engine cfg drainSeconds).Run
          (as ++ .handled i (.taskAck taskId accepted reasonCode) :: cs) u) ∧
    ∀ as elapsed, es = as ++ [.poll elapsed] →
      (t.drain = .returned false ↔ ∀ i x, t.sessions i = some x → x.ended = false →
        x.unanswered = []) := by
  refine ⟨framesKept_reachable h.reachable, ?_, ?_⟩
  · intro as i taskId accepted reasonCode bs x hsplit hx hopen hpending
    have hmem := (((framesKept_reachable h.reachable).frames i x hx hopen).pending taskId).mp
        hpending
    have hanswer := h.answered (F := fun s => ∀ x, s.sessions i = some x → taskId ∉ x.unanswered)
      (R := fun e => e = .handled i (.taskAck taskId accepted reasonCode))
      (A := fun s e _ => e = .written ∧ s.Writes i taskId) ?_ ?_
        (fun hnone => hnone x hx hmem.1) as _ bs
      hsplit rfl
    · obtain ⟨cs, f, ds, u, v, hbs, hu, -, rfl, hwrites⟩ := hanswer
      exact ⟨cs, ds, u, hbs, hwrites, hu.of_guarded⟩
    · rintro s e t hs ⟨⟨-, hstep⟩, -⟩ he x hx
      exact answered_step (engineStep_move hstep) (framesKept_reachable hs) he hx
    · rintro s e t ⟨⟨-, hstep⟩, -⟩ hnone
      exact unanswered_step (engineStep_move hstep) hnone
  · intro as elapsed hsplit
    obtain ⟨s₀, hinit, htrace⟩ := h
    rw [hsplit] at htrace
    obtain ⟨u, hpast, ⟨-, hstep⟩, hguard⟩ := htrace.last
    have hkept := framesKept_reachable ⟨as, s₀, hinit, hpast⟩
    have hregistered := registered_reachable ⟨as, s₀, hinit, hpast.of_guarded⟩
    cases engineStep_move hstep with
    | poll _ hdrain => exact hdrain.trans (hkept.outstanding_eq_zero_iff hregistered hguard)

end

namespace Demo

/-- The replica with the session of the worker. -/
def connectedReplica : Engine := replica.registerSession 0 idle

/-- A pass writes the frame of the task. -/
def writing : List EngineEvent := [.wake, .depthRead, .dequeued 1 [], .committed, .written]

/-- The read loop handles the worker's answer to it. -/
def answer : EngineEvent := .handled 0 (.taskAck task.str true "")

end Demo

/-- The send returns, the answer is handled, and the drain is over at once. -/
theorem unanswered_frames_counted_answered :
    ∃ t, (engine {} 20).Run
        (.register 0 Demo.idle :: Demo.writing ++
          [.sendReturned, Demo.answer, .beginDrain] ++ [.poll 0]) t ∧
      t.drain = .returned false ∧ ∀ i x, t.sessions i = some x → x.ended = false →
        x.unanswered = [] := by
  have hrun : ∃ t, ((engine {} 20).guarded InStep).Run
      (.register 0 Demo.idle :: Demo.writing ++
        [.sendReturned, Demo.answer, .beginDrain] ++ [.poll 0]) t ∧
      t.drain = .returned false := by
    refine ⟨_, ⟨Demo.replica, ⟨_, rfl⟩, .cons ⟨⟨Demo.idle_allowed, rfl⟩, ?_⟩
      (.cons ⟨⟨trivial, rfl⟩, trivial⟩
      (.cons ⟨⟨trivial, rfl⟩, trivial⟩
        (.cons ⟨⟨trivial, rfl⟩, trivial⟩ (.cons ⟨⟨trivial, rfl⟩, trivial⟩
      (.cons ⟨⟨trivial, rfl⟩, ?_⟩ (.cons ⟨⟨trivial, rfl⟩, trivial⟩ (.cons ⟨⟨trivial, rfl⟩, ?_⟩
      (.cons ⟨⟨trivial, rfl⟩, trivial⟩
        (.single ⟨⟨trivial, rfl⟩, Engine.quiet_of_none rfl⟩)))))))))⟩, rfl⟩
    · intro i x hlookup
      cases hlookup
    · intro task tasks pass x hpc hx
      cases hpc
      cases hx
      exact ⟨rfl, List.not_mem_nil⟩
    · intro hsending
      cases hsending
  obtain ⟨t, hguarded, hdrain⟩ := hrun
  exact ⟨t, hguarded.of_guarded, hdrain,
    ((unanswered_frames_counted hguarded).2.2 _ _ rfl).mp hdrain⟩

/-- The answer is handled while the send waits: the only frame is answered, its
entry stays, and the drain does not return before its time. -/
theorem answered_midway_never_drains :
    ∃ u, (engine {} 20).Run
        (.register 0 Demo.idle :: (Demo.writing ++ [Demo.answer, .sendReturned, .beginDrain])) u ∧
      (u.sessions 0).map (fun x => (x.ended, x.unanswered, x.session.pendingAcks.keys)) =
        some (false, [], [Demo.task.str]) ∧
      ∀ elapsed v, (engine {} 20).step u (.poll elapsed) v → v.drain ≠ .returned false := by
  have hrun : ∃ u, (engine {} 20).Trace Demo.connectedReplica
      (Demo.writing ++ [Demo.answer, .sendReturned, .beginDrain]) u ∧
      (u.sessions 0).map (fun x => (x.ended, x.unanswered, x.session.pendingAcks.keys)) =
        some (false, [], [Demo.task.str]) ∧ u.outstanding = 1 :=
    ⟨_, engine_played rfl, rfl, rfl⟩
  obtain ⟨u, htrace, hsession, hone⟩ := hrun
  refine ⟨u, ⟨Demo.replica, ⟨_, rfl⟩, .cons ⟨Demo.idle_allowed, rfl⟩ htrace⟩, hsession, ?_⟩
  rintro elapsed v ⟨-, hstep⟩ hreturned
  cases engineStep_move hstep with
  | poll _ hdrain =>
      rw [hdrain.mp hreturned] at hone
      cases hone

end TaskFleet.Model
