import TaskFleet.Logic.EngineSessions

/-!
# The limit an assignment pass asks for

`assign_once` picks its candidates once and reads their credits again at their
turn. Nothing but the pass itself takes a credit in between, so a candidate still
has room then; but a refusal may have saturated it, and its limit is 0. `dequeue`
raises, and the candidates behind are not served. Exactly the passes whose
candidates are not saturated at their turn get through (`passes_unaborted_iff`).
-/

namespace TaskFleet.Model

open Py

/-- The arguments of a `dequeue` that it checks. -/
structure DequeueCall where
  limit : Int
  maxBatch : Int
  taskTypes : List String

/-- `dequeue` does not refuse them. -/
structure DequeueCall.Admissible (call : DequeueCall) : Prop where
  positive : 1 ≤ call.limit
  capped : call.limit ≤ call.maxBatch
  taskTypes : call.taskTypes ≠ []

/-- The call `assign_once` makes for a session. -/
def LocalSession.dequeueCall (cfg : Config) (x : LocalSession) : DequeueCall :=
  ⟨Engine.limit cfg x, cfg.taskDequeueMaxBatch, x.supportedTaskTypes⟩

/-- It is the turn of candidate `i`: the pass calls `dequeue` for it. -/
inductive TurnOf (cfg : Config) (s : Engine) (i : ℕ) : EngineEvent → Prop
  | first {rest : List ℕ} (hpc : s.pc = .queueDepth (i :: rest))
      (hdepth : ∃ task ∈ s.db.tasks.rows, task.status = .queued) : TurnOf cfg s i .depthRead
  | nothing {now : Seconds} {skip : List Uuid} {limit : Int} {pass : Pass} {rest : List ℕ}
      {x : EngineSession}
      {db : Db} (hpc : s.pc = .dequeue limit pass) (hrest : pass.rest = i :: rest)
      (hx : s.sessions pass.current = some x)
      (hdequeue : dequeue cfg s.db now x.session.workerId limit cfg.taskDequeueMaxBatch
        (some x.session.supportedTaskTypes) skip = .ok (db, [])) :
          TurnOf cfg s i (.dequeued now skip)
  | delivered {task : ClaimedTask} {pass : Pass} {rest : List ℕ} (hpc : s.pc = .sent task [] pass)
      (hrest : pass.rest = i :: rest) : TurnOf cfg s i .sendReturned
  | undelivered {task : ClaimedTask} {pass : Pass} {rest : List ℕ}
      (hpc : s.pc = .send task [] pass ∨ s.pc = .sent task [] pass)
        (hrest : pass.rest = i :: rest) :
      TurnOf cfg s i .sendRaised

/-- The pass is being left with an exception. -/
def EnginePc.aborted : EnginePc → Bool
  | .leave raised _ => raised
  | _ => false

/-- The step does not abort a pass on its limit. -/
structure ServesTurns (cfg : Config) (s : Engine) (e : EngineEvent) (t : Engine) : Prop where
  admissible : ∀ i x, TurnOf cfg s i e → s.sessions i = some x →
    (x.session.dequeueCall cfg).Admissible
  unaborted : t.pc.aborted = true → s.pc.aborted = true ∨ e = .raised

/-- A candidate whose turn comes is not saturated, and a batch has room for a task. -/
def Unsaturated (cfg : Config) (s : Engine) (e : EngineEvent) : Prop :=
  ∀ i x, TurnOf cfg s i e → s.sessions i = some x →
    x.session.saturated = false ∧ 1 ≤ cfg.taskDequeueMaxBatch

/-! ## The checks of `dequeue` -/

section

variable {cfg : Config}

theorem Engine.refuses_eq_true_iff {limit maxBatch : Int} {taskTypes : List String} :
    refuses limit maxBatch taskTypes = true ↔
      ¬ (⟨limit, maxBatch, taskTypes⟩ : DequeueCall).Admissible := by
  simp only [refuses, Bool.or_eq_true, decide_eq_true_eq, List.isEmpty_iff]
  constructor
  · rintro h ⟨hpositive, hcapped, htypes⟩
    rcases h with (h | h) | h
    · exact absurd hpositive (by simpa using h)
    · exact absurd hcapped (by simpa using h)
    · exact htypes h
  · intro h
    by_contra hnot
    push Not at hnot
    exact h ⟨hnot.1.1, hnot.1.2, hnot.2⟩

/-- `dequeue` raises on just these calls. -/
theorem dequeue_raises_iff (db : Db) (now : Seconds) (workerId : Uuid) (call : DequeueCall)
    (skip : List Uuid) :
    (∃ err, dequeue cfg db now workerId call.limit call.maxBatch
      (some call.taskTypes) skip = .error err) ↔
      ¬ call.Admissible := by
  rw [← Engine.refuses_eq_true_iff]
  unfold dequeue Engine.refuses
  by_cases hpositive : call.limit < 1
  · simp [hpositive]
  · by_cases hcapped : call.maxBatch < call.limit
    · simp [hpositive, hcapped]
    · by_cases htypes : call.taskTypes = []
      · simp [hpositive, hcapped, htypes]
      · simp [hpositive, hcapped, htypes]

/-- The session has a slot left and takes some type of task. -/
structure LocalSession.HasRoom (x : LocalSession) : Prop where
  slot : x.inFlight < x.maxConcurrent
  taskTypes : x.supportedTaskTypes ≠ []

theorem LocalSession.HasRoom.admissible_iff {x : LocalSession} (h : x.HasRoom) :
    (x.dequeueCall cfg).Admissible ↔ x.saturated = false ∧ 1 ≤ cfg.taskDequeueMaxBatch := by
  have hslot := h.slot
  constructor
  · rintro ⟨hpositive, -, -⟩
    simp only [dequeueCall, Engine.limit, freeCredits, le_min_iff] at hpositive
    refine ⟨?_, hpositive.2⟩
    cases hsaturated : x.saturated with
    | false => rfl
    | true => simp [hsaturated] at hpositive
  · rintro ⟨hsaturated, hbatch⟩
    refine ⟨?_, min_le_right _ _, h.taskTypes⟩
    simp only [dequeueCall, Engine.limit, freeCredits, hsaturated, le_min_iff,
      Bool.false_eq_true, if_false]
    exact ⟨by omega, hbatch⟩

end

/-! ## Candidates keep their room -/

/-- The candidates of the pass from the one at hand on. -/
def EnginePc.inPass : EnginePc → List ℕ
  | .queueDepth candidates => candidates
  | .dequeue _ pass | .commit _ pass | .send _ _ pass | .sent _ _ pass => pass.current :: pass.rest
  | _ => []

/-- Those whose turn is to come. -/
def EnginePc.toServe : EnginePc → List ℕ
  | .queueDepth candidates => candidates
  | .dequeue _ pass | .commit _ pass | .send _ _ pass | .sent _ _ pass => pass.rest
  | _ => []

/-- What a pass can rely on. -/
structure CanServe (s : Engine) : Prop where
  distinct : s.pc.inPass.Nodup
  room : ∀ i ∈ s.pc.toServe, ∃ x, s.sessions i = some x ∧ x.session.HasRoom
  claims : ∀ claim pass, s.pc = .commit claim pass → claim.rows ≠ []

section

variable {cfg : Config} {drainSeconds : Seconds} {s t : Engine} {e : EngineEvent}
  {es : List EngineEvent}

theorem CanServe.outside (h : t.pc.inPass = []) : CanServe t := by
  have hserve : t.pc.toServe = [] := by
    cases hpc : t.pc <;> rw [hpc] at h <;> first | rfl | exact h | cases h
  refine ⟨h ▸ List.nodup_nil, fun i hi => ?_, fun claim pass hpc => ?_⟩
  · rw [hserve] at hi
    cases hi
  · rw [hpc] at h
    cases h

/-- The pass stands still, and no session loses its room. -/
theorem CanServe.of_sessions (h : CanServe s) (hpc : t.pc = s.pc)
    (hroom : ∀ i x, s.sessions i = some x → x.session.HasRoom →
      ∃ y, t.sessions i = some y ∧ y.session.HasRoom) : CanServe t where
  distinct := hpc ▸ h.distinct
  room i hi := by
    obtain ⟨x, hx, hx'⟩ := h.room i (hpc ▸ hi)
    exact hroom i x hx hx'
  claims claim pass hcommit := h.claims claim pass (hpc ▸ hcommit)

theorem Engine.nextCandidate_canServe {delivered : Nat} {rest : List ℕ}
    (h : s.nextCandidate cfg delivered rest = some t) (hdistinct : rest.Nodup)
    (hroom : ∀ i ∈ rest, ∃ x, s.sessions i = some x ∧ x.session.HasRoom) : CanServe t := by
  cases rest with
  | nil =>
      cases h
      exact .outside rfl
  | cons i rest =>
      simp only [nextCandidate] at h
      split at h
      · cases h
      · split at h
        · cases h
          exact .outside rfl
        · cases h
          exact ⟨hdistinct, fun j hj => hroom j (List.mem_cons_of_mem _ hj),
            fun _ _ hpc => by cases hpc⟩

theorem Engine.nextTask_canServe {pass : Pass} {tasks : List ClaimedTask}
    (h : s.nextTask cfg pass tasks = some t) (hdistinct : (pass.current :: pass.rest).Nodup)
    (hroom : ∀ i ∈ pass.rest, ∃ x, s.sessions i = some x ∧ x.session.HasRoom) : CanServe t := by
  cases tasks with
  | nil => exact Engine.nextCandidate_canServe h (List.nodup_cons.mp hdistinct).2 hroom
  | cons task tasks =>
      cases h
      exact ⟨hdistinct, hroom, fun _ _ hpc => by cases hpc⟩

/-- A worker is in the registry once, and so is its session. -/
theorem Registered.candidates_nodup (h : Registered s) : s.candidates.Nodup := by
  refine List.Nodup.filter _ ?_
  refine List.Nodup.map_on ?_ s.localSessions.nodup.of_map
  rintro ⟨w, i⟩ hr ⟨w', i'⟩ hr' (rfl : i = i')
  obtain ⟨x, hx, hw, -⟩ := h.mapped w i (Dict.lookup_eq_some_iff.mpr hr)
  obtain ⟨x', hx', hw', -⟩ := h.mapped w' i (Dict.lookup_eq_some_iff.mpr hr')
  rw [hx] at hx'
  cases hx'
  rw [← hw, ← hw']

/-- What the filter of `assign_once` finds. -/
theorem Engine.candidates_room {i : ℕ} (hi : i ∈ s.candidates) :
    ∃ x, s.sessions i = some x ∧ x.session.HasRoom := by
  simp only [candidates, List.mem_filter] at hi
  obtain ⟨-, hfilter⟩ := hi
  split at hfilter
  · cases hfilter
  · next x hx =>
      simp only [Bool.and_eq_true, decide_eq_true_eq, Bool.not_eq_true',
        List.isEmpty_eq_false_iff] at hfilter
      refine ⟨x, hx, ?_, hfilter.2⟩
      have hfree := hfilter.1
      unfold LocalSession.freeCredits at hfree
      split at hfree <;> omega

theorem Registered.assignOnce_canServe (h : Registered s) : CanServe s.assignOnce := by
  unfold Engine.assignOnce
  split
  · exact .outside rfl
  · split
    · exact .outside rfl
    · exact ⟨h.candidates_nodup, fun i hi => Engine.candidates_room hi, fun _ _ hpc => by cases hpc⟩

theorem LocalSession.HasRoom.turn {x : LocalSession} (h : x.HasRoom) (turn : SessionTurn) :
    (x.turn turn).HasRoom := by
  have hle := x.turn_inFlight_le turn
  have hslot := h.slot
  obtain ⟨credited, residual, recovered, saturated, heq⟩ := x.turn_eq turn
  have hmax : (x.turn turn).maxConcurrent = x.maxConcurrent := by rw [heq]
  have htypes : (x.turn turn).supportedTaskTypes = x.supportedTaskTypes := by rw [heq]
  exact ⟨by omega, htypes ▸ h.taskTypes⟩

/-- Another session has its room still. -/
theorem CanServe.rest_room {pass : Pass} (hdistinct : (pass.current :: pass.rest).Nodup)
    (hroom : ∀ i ∈ pass.rest, ∃ x, s.sessions i = some x ∧ x.session.HasRoom)
    (f : EngineSession → EngineSession) :
    ∀ i ∈ pass.rest, ∃ x, (s.modify pass.current f).sessions i = some x ∧ x.session.HasRoom := by
  intro i hi
  have hne : i ≠ pass.current := by
    rintro rfl
    exact (List.nodup_cons.mp hdistinct).1 hi
  rw [Engine.modify_sessions_of_ne hne]
  exact hroom i hi

theorem canServe_step (h : EngineMove cfg drainSeconds s e t) (hregistered : Registered s)
    (hs : CanServe s) :
    CanServe t := by
  obtain ⟨hdistinct, hroom, hclaims⟩ := hs
  cases h with
  | wake =>
      exact (hregistered.of_same (t := { s with workAvailable := false }) rfl
        rfl).assignOnce_canServe
  | resumed => exact hregistered.assignOnce_canServe
  | empty | rested | cancel => exact .outside rfl
  | first hpc _ hnext =>
      rw [hpc] at hdistinct hroom
      exact Engine.nextCandidate_canServe hnext hdistinct hroom
  | nothing hpc _ _ hnext =>
      rw [hpc] at hdistinct hroom
      exact Engine.nextCandidate_canServe hnext (List.nodup_cons.mp hdistinct).2 hroom
  | claimed hpc _ _ hrows =>
      rw [hpc] at hdistinct hroom
      refine ⟨hdistinct, hroom, fun claim pass heq => ?_⟩
      cases heq
      exact hrows
  | committed hpc _ hnext =>
      rw [hpc] at hdistinct hroom
      exact Engine.nextTask_canServe hnext hdistinct hroom
  | written hpc =>
      rw [hpc] at hdistinct hroom
      exact ⟨hdistinct, CanServe.rest_room hdistinct hroom _, fun _ _ hpc => by cases hpc⟩
  | sendReturned hpc hnext =>
      rw [hpc] at hdistinct hroom
      exact Engine.nextTask_canServe hnext hdistinct (CanServe.rest_room hdistinct hroom _)
  | sendRaised hpc hnext =>
      rcases hpc with hpc | hpc <;> rw [hpc] at hdistinct hroom <;>
        exact Engine.nextTask_canServe hnext hdistinct hroom
  | @left raised delivered =>
      cases raised
      · by_cases hdelivered : 0 < delivered
        · simp only [hdelivered, if_true, Bool.false_eq_true, if_false]
          exact .outside rfl
        · simp only [hdelivered, if_false, Bool.false_eq_true]
          exact .outside rfl
      · exact .outside rfl
  | raised _ hpc =>
      rcases hpc with rfl | ⟨_, rfl⟩ <;> exact .outside rfl
  | notify | beginDrain | poll | database => exact ⟨hdistinct, hroom, hclaims⟩
  | @register i session hnew =>
      refine CanServe.of_sessions ⟨hdistinct, hroom, hclaims⟩ rfl fun j x hx hx' => ⟨x, ?_, hx'⟩
      have hij : j ≠ i := by rintro rfl; rw [hnew] at hx; cases hx
      exact (Function.update_of_ne hij ..).trans hx
  | @hangUp i =>
      refine CanServe.of_sessions ⟨hdistinct, hroom, hclaims⟩ rfl fun j x hx hx' => ?_
      by_cases hij : j = i
      · subst hij
        exact ⟨_, Engine.modify_sessions_self hx, hx'⟩
      · exact ⟨x, (Engine.modify_sessions_of_ne hij).trans hx, hx'⟩
  | @handled i turn =>
      refine CanServe.of_sessions ⟨hdistinct, hroom, hclaims⟩ rfl fun j x hx hx' => ?_
      by_cases hij : j = i
      · subst hij
        exact ⟨_, Engine.modify_sessions_self hx, hx'.turn turn⟩
      · exact ⟨x, (Engine.modify_sessions_of_ne hij).trans hx, hx'⟩

theorem canServe_reachable (h : (engine cfg drainSeconds).Reachable t) : CanServe t := by
  refine h.invariant (P := CanServe) ?_ ?_
  · rintro s ⟨db, rfl⟩
    exact .outside rfl
  · rintro s e t hreach hs ⟨-, hstep⟩
    exact canServe_step (engineStep_move hstep) (registered_reachable hreach) hs

/-! ## The turns of a pass -/

/-- `dequeue` raises when the candidates are gone through. -/
theorem Engine.nextCandidate_aborted {delivered : Nat} {rest : List ℕ}
    (h : s.nextCandidate cfg delivered rest = some t) (haborted : t.pc.aborted = true) :
    ∃ i rest' x, rest = i :: rest' ∧ s.sessions i = some x ∧
      ¬ (x.session.dequeueCall cfg).Admissible := by
  cases rest with
  | nil =>
      cases h
      cases haborted
  | cons i rest =>
      simp only [nextCandidate] at h
      split at h
      · cases h
      · next x hx =>
          split at h
          · next hrefused => exact ⟨i, rest, x, rfl, hx, Engine.refuses_eq_true_iff.mp hrefused⟩
          · cases h
            cases haborted

theorem Engine.nextTask_aborted {pass : Pass} {tasks : List ClaimedTask}
    (h : s.nextTask cfg pass tasks = some t) (haborted : t.pc.aborted = true) :
    tasks = [] ∧ ∃ i rest x, pass.rest = i :: rest ∧ s.sessions i = some x ∧
      ¬ (x.session.dequeueCall cfg).Admissible := by
  cases tasks with
  | nil => exact ⟨rfl, Engine.nextCandidate_aborted h haborted⟩
  | cons task tasks =>
      cases h
      cases haborted

/-- A pass whose calls are all admissible is aborted by nothing of its own. -/
theorem unaborted_step (h : EngineMove cfg drainSeconds s e t) (hs : CanServe s)
    (hcalls : ∀ i x, TurnOf cfg s i e → s.sessions i = some x →
      (x.session.dequeueCall cfg).Admissible)
    (haborted : t.pc.aborted = true) : s.pc.aborted = true ∨ e = .raised := by
  cases h with
  | raised => exact .inr rfl
  | wake | resumed =>
      unfold Engine.assignOnce at haborted
      split at haborted
      · cases haborted
      · split at haborted <;> cases haborted
  | first hpc hdepth hnext =>
      obtain ⟨i, rest, x, rfl, hx, hnot⟩ := Engine.nextCandidate_aborted hnext haborted
      exact absurd (hcalls i x (.first hpc hdepth) hx) hnot
  | nothing hpc hx hdequeue hnext =>
      obtain ⟨i, rest, y, hrest, hy, hnot⟩ := Engine.nextCandidate_aborted hnext haborted
      exact absurd (hcalls i y (.nothing hpc hrest hx hdequeue) hy) hnot
  | committed hpc _ hnext =>
      exact absurd (Engine.nextTask_aborted hnext haborted).1 (hs.claims _ _ hpc)
  | @sendReturned task tasks pass t hpc hnext =>
      obtain ⟨rfl, i, rest, x, hrest, hx, hnot⟩ := Engine.nextTask_aborted hnext haborted
      have hrest' : pass.rest = i :: rest := hrest
      have hne : i ≠ pass.current := by
        have hdistinct := hs.distinct
        rw [hpc] at hdistinct
        rintro rfl
        exact (List.nodup_cons.mp hdistinct).1 (by rw [hrest']; exact List.mem_cons_self)
      rw [Engine.modify_sessions_of_ne hne] at hx
      exact absurd (hcalls i x (.delivered hpc hrest) hx) hnot
  | sendRaised hpc hnext =>
      obtain ⟨rfl, i, rest, x, hrest, hx, hnot⟩ := Engine.nextTask_aborted hnext haborted
      exact absurd (hcalls i x (.undelivered hpc hrest) hx) hnot
  | @left raised delivered =>
      cases raised
      · by_cases hdelivered : 0 < delivered <;>
          simp [hdelivered, EnginePc.aborted] at haborted
      · cases haborted
  | notify | beginDrain | poll | register | hangUp | handled | database => exact .inl haborted
  | _ => cases haborted

theorem TurnOf.mem_toServe {i : ℕ} (h : TurnOf cfg s i e) : i ∈ s.pc.toServe := by
  cases h with
  | first hpc => simp [hpc, EnginePc.toServe]
  | nothing hpc hrest | delivered hpc hrest => simp [hpc, EnginePc.toServe, hrest]
  | undelivered hpc hrest =>
      rcases hpc with hpc | hpc
      · simp [hpc, EnginePc.toServe, hrest]
      · simp [hpc, EnginePc.toServe, hrest]

theorem servesTurns_iff (h : EngineMove cfg drainSeconds s e t) (hs : CanServe s) :
    ServesTurns cfg s e t ↔ Unsaturated cfg s e := by
  have hroom : ∀ i x, TurnOf cfg s i e → s.sessions i = some x → x.session.HasRoom := by
    intro i x hturn hx
    obtain ⟨y, hy, hroom⟩ := hs.room i hturn.mem_toServe
    rw [hx] at hy
    cases hy
    exact hroom
  constructor
  · intro hserves i x hturn hx
    exact (hroom i x hturn hx).admissible_iff.mp (hserves.admissible i x hturn hx)
  · intro hunsaturated
    have hcalls : ∀ i x, TurnOf cfg s i e → s.sessions i = some x →
        (x.session.dequeueCall cfg).Admissible :=
      fun i x hturn hx => (hroom i x hturn hx).admissible_iff.mpr (hunsaturated i x hturn hx)
    exact ⟨hcalls, unaborted_step h hs hcalls⟩

/-- **A pass is not aborted by its own limit**, in a run of a replica, exactly when
no candidate is saturated at its turn and the batch cap is at least 1: every
`dequeue` of the run asks for 1 to `max_batch` tasks of some type, and no pass is
left with an exception but those its awaits raise. -/
theorem passes_unaborted_iff (hs : (engine cfg drainSeconds).Reachable s)
    (h : (engine cfg drainSeconds).Trace s es t) :
    ((engine cfg drainSeconds).guarded (Unsaturated cfg)).Trace s es t ↔
      ∀ as e bs u u', es = as ++ e :: bs → (engine cfg drainSeconds).Trace s as u →
        (engine cfg drainSeconds).step u e u' → ServesTurns cfg u e u' :=
  h.guarded_iff_steps (G := Unsaturated cfg) (Q := ServesTurns cfg)
    (engine_deterministic cfg drainSeconds)
    (fun _ _ _ hreach hstep => servesTurns_iff (engineStep_move hstep.2)
      (canServe_reachable hreach)) hs

end

namespace Demo

def secondTask : Uuid := ⟨7, by decide⟩

/-- A session of another worker. -/
def neighbour : LocalSession := { idle with workerId := otherWorker }

/-- A replica with two tasks in the queue. -/
def longQueue : Engine where
  db := (play {} schemas .empty [(0, .enqueue task request), (0, .enqueue secondTask request)]).2
  sessions := fun _ => none

/-- The replica with both sessions. -/
def neighbours : Engine := (longQueue.registerSession 0 idle).registerSession 1 neighbour

theorem neighbours_run :
    (engine {} 0).Run [.register 0 idle, .register 1 neighbour] neighbours := by
  refine ⟨longQueue, ⟨_, rfl⟩, .cons ⟨⟨rfl, rfl, by simp [longQueue]⟩, rfl⟩
    (.single ⟨⟨rfl, rfl, ?_⟩, rfl⟩)⟩
  intro j x hx hworker
  by_cases hj : j = 0
  · subst hj
    cases hx
    cases hworker
  · simp [Engine.registerSession, longQueue, hj] at hx

/-- A pass finds every row locked. -/
def lockedOut : List EngineEvent := [.wake, .depthRead, .dequeued 1 [task, secondTask]]

/-- A pass hands the first session a task. -/
def delivering : List EngineEvent :=
    [.wake, .depthRead, .dequeued 1 [secondTask], .committed, .written,
  .sendReturned, .dequeued 2 [secondTask], .left]

/-- The next pass has picked both sessions when the first one refuses the task. -/
def refusing : List EngineEvent :=
    delivering ++ [.resumed, .handled 0 (.taskAck task.str false refuseAtCapacity)]

end Demo

/-- Both candidates have their turns, while others hold the rows. -/
theorem passes_unaborted_idle :
    ∃ t, (engine {} 0).Trace Demo.neighbours Demo.lockedOut t ∧ t.pc = .dequeue 2 ⟨1, [], 0⟩ ∧
      ∀ as e bs u u', Demo.lockedOut = as ++ e :: bs → (engine {} 0).Trace Demo.neighbours as u →
        (engine {} 0).step u e u' → ServesTurns {} u e u' := by
  have hrun : ∃ t, ((engine {} 0).guarded (Unsaturated {})).Trace Demo.neighbours Demo.lockedOut t ∧
      t.pc = .dequeue 2 ⟨1, [], 0⟩ := by
    refine ⟨_, .cons ⟨⟨trivial, rfl⟩, fun _ _ h => by cases h⟩
      (.cons ⟨⟨trivial, rfl⟩, ?_⟩ (.single ⟨⟨trivial, rfl⟩, ?_⟩)), rfl⟩
    · intro i x hturn hx
      cases hturn with
      | first hpc =>
          cases hpc
          cases hx
          exact ⟨rfl, by decide⟩
    · intro i x hturn hx
      cases hturn with
      | nothing hpc hrest =>
          cases hpc
          cases hrest
          cases hx
          exact ⟨rfl, by decide⟩
  obtain ⟨t, hguarded, hpc⟩ := hrun
  have htrace := hguarded.of_guarded
  exact ⟨t, htrace, hpc, (passes_unaborted_iff Demo.neighbours_run.reachable htrace).mp hguarded⟩

/-- A refusal that is handled between the choice of the candidates and the turn of
its session: `dequeue` is asked for 0 tasks, and the neighbour with its free slots
gets nothing. -/
theorem refusal_mid_pass_aborts :
    ∃ u, (engine {} 0).Run
      ([.register 0 Demo.idle, .register 1 Demo.neighbour] ++ Demo.refusing) u ∧
      TurnOf {} u 0 .depthRead ∧
        (u.sessions 0).map (fun x => (x.session.dequeueCall {}).limit) = some 0 ∧
      (u.sessions 1).map (fun x => x.session.freeCredits) = some 2 ∧
      ∃ v, (engine {} 0).step u .depthRead v ∧ v.pc = .leave true 0 := by
  have hrun : ∃ u, (engine {} 0).Trace Demo.neighbours Demo.refusing u ∧ u.pc = .queueDepth [0, 1] ∧
      (u.db.tasks.rows.any fun t => t.status = .queued) = true ∧
      (u.sessions 0).map (fun x => (x.session.dequeueCall {}).limit) = some 0 ∧
      (u.sessions 1).map (fun x => x.session.freeCredits) = some 2 ∧
      ∃ v, (engine {} 0).step u .depthRead v ∧ v.pc = .leave true 0 :=
    ⟨_, engine_played rfl, rfl, rfl, rfl, rfl, _, ⟨trivial, rfl⟩, rfl⟩
  obtain ⟨u, htrace, hpc, hqueued, hlimit, hfree, hstep⟩ := hrun
  exact ⟨u, Demo.neighbours_run.extend htrace, .first hpc (by simpa using hqueued),
    hlimit, hfree, hstep⟩

end TaskFleet.Model
