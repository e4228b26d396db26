import TaskFleet.Logic.SessionCredits
import TaskFleet.Theorems.PassLimits

/-!
# The bounds of a session's credits

A pass reads a session's free credits once and takes them one by one, at the end of
each send, while the handlers of the read loop run in between. They only give
credits back. So the slots the pass may still fill (`EnginePc.slots`) are free from
the moment it asks for them to the moment it leaves them, and no session is ever over
its `max_concurrent` (`credit_bounds`). It is these slots that a delivery finds, and not
the free credits of the moment: a refusal in between saturates the session, which then has
none (`refusal_mid_turn_delivers`).
-/

namespace TaskFleet.Model

open Py

/-- The session is one `ws_connect` builds from a `hello`. -/
def OpenedByHello (cfg : Config) (_ : Engine) : EngineEvent → Prop
  | .register _ session => ∃ workerId sessionEpoch maxConcurrent tasksInFlight supportedTaskTypes,
      session = LocalSession.open cfg workerId sessionEpoch maxConcurrent tasksInFlight
        supportedTaskTypes
  | _ => True

/-- The step is not one that comes to the next candidate. -/
def SameTurn (cfg : Config) (s : Engine) (e : EngineEvent) : Prop := ∀ i, ¬ TurnOf cfg s i e

/-- `_deliver` returns true. -/
def EngineEvent.delivers : EngineEvent → Bool
  | .sendReturned => true
  | _ => false

/-- `residual_in_flight` after `_release_credit`, as the integers of the source
have it. -/
def residueAfter (residual : Int) (named credited : Bool) (freed : Int) : Int :=
  if named then if credited then residual else if 0 < residual then residual - 1 else residual
  else residual - min (max 1 freed) residual

/-- The candidate a pass is at, and how many tasks it may still deliver to it. -/
def EnginePc.slots : EnginePc → Option (ℕ × ℕ)
  | .dequeue limit pass => some (pass.current, limit.toNat)
  | .commit claim pass => some (pass.current, claim.rows.length)
  | .send _ tasks pass | .sent _ tasks pass => some (pass.current, tasks.length + 1)
  | _ => none

/-- How many tasks the turn at hand may still deliver. -/
def Engine.turnLeft (s : Engine) : ℕ := (s.pc.slots.map Prod.snd).getD 0

/-- No session is over its credits, nor will the pass at hand put it there. -/
structure WithinCredits (s : Engine) : Prop where
  sessions : ∀ i x, s.sessions i = some x → x.session.inFlight ≤ x.session.maxConcurrent
  slots : ∀ i n, s.pc.slots = some (i, n) →
    ∃ x, s.sessions i = some x ∧ x.session.inFlight + n ≤ x.session.maxConcurrent

section

variable {cfg : Config} {drainSeconds : Seconds} {s t : Engine} {e : EngineEvent}
  {es : List EngineEvent}

/-! ## One session -/

namespace LocalSession

variable {x : LocalSession}

theorem turn_maxConcurrent (turn : SessionTurn) :
    (x.turn turn).maxConcurrent = x.maxConcurrent := by
  obtain ⟨credited, residual, recovered, saturated, heq⟩ := x.turn_eq turn
  rw [heq]

/-- What a worker declares is clamped to what it may have. -/
theorem open_inFlight_le {workerId : Uuid} {sessionEpoch : Nat}
    {maxConcurrent tasksInFlight : Option Int}
    {supportedTaskTypes : List String} :
    (LocalSession.open cfg workerId sessionEpoch maxConcurrent tasksInFlight
      supportedTaskTypes).inFlight ≤
      (LocalSession.open cfg workerId sessionEpoch maxConcurrent tasksInFlight
        supportedTaskTypes).maxConcurrent := by
  show parseTasksInFlight tasksInFlight (parseMaxConcurrent cfg maxConcurrent) + 0 ≤
    parseMaxConcurrent cfg maxConcurrent
  unfold parseTasksInFlight
  omega

/-- No subtraction of `_release_credit` is cut off at zero. -/
theorem releaseCredit_residual (taskId : String) (freed : Nat) :
    ((x.releaseCredit taskId freed).residualInFlight : Int) =
      residueAfter x.residualInFlight (taskId ≠ "") (x.credited.contains taskId) freed := by
  unfold releaseCredit residueAfter
  by_cases hname : taskId = ""
  · simp only [hname, ne_eq, not_true_eq_false, if_false, decide_false, Bool.false_eq_true]
    omega
  · simp only [hname, ne_eq, not_false_eq_true, if_true, decide_true]
    cases x.credited.contains taskId with
    | true => rfl
    | false =>
        simp only [Bool.false_eq_true, if_false]
        by_cases hresidue : 0 < x.residualInFlight
        · rw [if_pos hresidue, if_pos (by omega)]
          show ((x.residualInFlight - 1 : ℕ) : Int) = x.residualInFlight - 1
          omega
        · rw [if_neg hresidue, if_neg (by omega)]

/-- An unnamed release gives back what it says, as far as there is. -/
theorem capacity_unnamed {freed : Int} (hfreed : 1 ≤ freed) :
    ((x.turn (.capacity "" freed)).inFlight : Int) = x.inFlight - min freed x.inFlight := by
  have hdrop : ∀ n, (x.credited.dropFirst n).size = x.credited.size - n := by
    intro n
    simp [Dict.size, Dict.dropFirst]
  have hlow : ¬ freed < 1 := by omega
  simp only [turn, handleCapacity, if_neg hlow, releaseCredit, forget, inFlight, ne_eq,
    not_true_eq_false,
    if_false, hdrop]
  omega

end LocalSession

/-! ## The pass keeps the bounds -/

theorem WithinCredits.no_slots (h : WithinCredits s) (hsessions : t.sessions = s.sessions)
    (hslots : t.pc.slots = none) : WithinCredits t := by
  refine ⟨hsessions ▸ h.sessions, fun i n hin => ?_⟩
  rw [hslots] at hin
  cases hin

/-- Sessions change, but none of them has more in flight. -/
theorem WithinCredits.of_sessions (h : WithinCredits s) (hpc : t.pc.slots = s.pc.slots)
    (hkept : ∀ i x, s.sessions i = some x → ∃ y, t.sessions i = some y ∧
      y.session.inFlight ≤ x.session.inFlight ∧ y.session.maxConcurrent = x.session.maxConcurrent)
    (hnew : ∀ i y, t.sessions i = some y → s.sessions i = none →
      y.session.inFlight ≤ y.session.maxConcurrent) : WithinCredits t := by
  refine ⟨fun i y hy => ?_, fun i n hin => ?_⟩
  · cases hx : s.sessions i with
    | none => exact hnew i y hy hx
    | some x =>
        obtain ⟨z, hz, hle, hmax⟩ := hkept i x hx
        obtain rfl : z = y := Option.some.inj (hz.symm.trans hy)
        have hbound := h.sessions i x hx
        omega
  · obtain ⟨x, hx, hbound⟩ := h.slots i n (hpc ▸ hin)
    obtain ⟨y, hy, hle, hmax⟩ := hkept i x hx
    exact ⟨y, hy, by omega⟩

/-- The sessions of a modified replica. -/
theorem WithinCredits.modify {i : ℕ} {f : EngineSession → EngineSession} (h : WithinCredits s)
    (hpc : t.pc.slots = s.pc.slots) (hsessions : t.sessions = (s.modify i f).sessions)
    (hf : ∀ x, (f x).session.inFlight ≤ x.session.inFlight ∧
      (f x).session.maxConcurrent = x.session.maxConcurrent) : WithinCredits t := by
  refine h.of_sessions hpc (fun j x hx => ?_) fun j y hy hnone => ?_
  · rw [hsessions]
    by_cases hij : j = i
    · subst hij
      exact ⟨f x, Engine.modify_sessions_self hx, hf x⟩
    · exact ⟨x, (Engine.modify_sessions_of_ne hij).trans hx, le_rfl, rfl⟩
  · rw [hsessions] at hy
    obtain ⟨x, hx, -⟩ := Engine.modify_sessions_some hy
    rw [hnone] at hx
    cases hx

/-- The next candidate is asked for no more than it has free. -/
theorem Engine.nextCandidate_withinCredits {delivered : Nat} {rest : List ℕ}
    (h : s.nextCandidate cfg delivered rest = some t)
    (hs : ∀ i x, s.sessions i = some x → x.session.inFlight ≤ x.session.maxConcurrent) :
    WithinCredits t := by
  cases rest with
  | nil =>
      cases h
      exact ⟨hs, fun i n hin => by cases hin⟩
  | cons i rest =>
      simp only [nextCandidate] at h
      split at h
      · cases h
      · next x hx =>
          split at h
          · cases h
            exact ⟨hs, fun i n hin => by cases hin⟩
          · next hadmissible =>
              cases h
              refine ⟨hs, fun j n hin => ?_⟩
              cases hin
              refine ⟨x, hx, ?_⟩
              -- it was not refused, so it is not saturated and has a slot
              have hroom : 1 ≤ Engine.limit cfg x.session := by
                simp only [refuses, Bool.or_eq_true, decide_eq_true_eq] at hadmissible
                omega
              have hfree : x.session.freeCredits ≤ x.session.maxConcurrent -
                  x.session.inFlight := by
                unfold LocalSession.freeCredits
                split <;> omega
              simp only [Engine.limit] at hroom ⊢
              omega

theorem Engine.nextTask_withinCredits {pass : Pass} {tasks : List ClaimedTask}
    (h : s.nextTask cfg pass tasks = some t)
    (hs : ∀ i x, s.sessions i = some x → x.session.inFlight ≤ x.session.maxConcurrent)
    (hslots : ∃ x, s.sessions pass.current = some x ∧
      x.session.inFlight + tasks.length ≤ x.session.maxConcurrent) : WithinCredits t := by
  cases tasks with
  | nil => exact Engine.nextCandidate_withinCredits h hs
  | cons task tasks =>
      cases h
      refine ⟨hs, fun i n hin => ?_⟩
      cases hin
      exact hslots

/-- `dequeue` returns no more than it was asked for. -/
theorem length_of_dequeue {db db' : Db} {now : Seconds} {w : Uuid} {limit maxBatch : Int}
    {taskTypes : Option (List String)} {skip : List Uuid} {rows : List ClaimedTask}
    (h : dequeue cfg db now w limit maxBatch taskTypes skip = .ok (db', rows)) :
    rows.length ≤ limit.toNat := by
  obtain ⟨-, rfl⟩ := dequeue_eq_ok h
  rw [List.length_map, claimedRows]
  exact List.length_take_le _ _

/-- A delivery takes one of the slots. -/
theorem WithinCredits.delivered {task : ClaimedTask} {tasks : List ClaimedTask} {pass : Pass}
    (h : WithinCredits s) (hpc : s.pc = .sent task tasks pass)
    (hnext : (s.modify pass.current fun x =>
      { x with session := x.session.deliver task.id.str task.correlationId }).nextTask cfg
        { pass with delivered := pass.delivered + 1 } tasks = some t) : WithinCredits t := by
  obtain ⟨x, hx, hbound⟩ := h.slots pass.current (tasks.length + 1) (by rw [hpc]; rfl)
  have hle : (x.session.deliver task.id.str task.correlationId).inFlight ≤ x.session.inFlight + 1 :=
    LocalSession.inFlight_deliver_le task.correlationId
  have hmax : (x.session.deliver task.id.str task.correlationId).maxConcurrent =
      x.session.maxConcurrent := rfl
  refine Engine.nextTask_withinCredits hnext (fun i y hy => ?_)
    ⟨_, Engine.modify_sessions_self hx, ?_⟩
  · obtain ⟨z, hz, ⟨rfl, rfl⟩ | ⟨-, rfl⟩⟩ := Engine.modify_sessions_some hy
    · obtain rfl : x = z := Option.some.inj (hx.symm.trans hz)
      show (x.session.deliver task.id.str task.correlationId).inFlight ≤
        (x.session.deliver task.id.str task.correlationId).maxConcurrent
      omega
    · exact h.sessions i y hz
  · show (x.session.deliver task.id.str task.correlationId).inFlight + tasks.length ≤
      (x.session.deliver task.id.str task.correlationId).maxConcurrent
    omega

/-- The first line of a pass to its first await. -/
theorem WithinCredits.assignOnce (h : WithinCredits s) : WithinCredits s.assignOnce := by
  obtain ⟨pc, hpc⟩ := Engine.assignOnce_eq s
  refine h.no_slots (by rw [hpc]) ?_
  unfold Engine.assignOnce
  split
  · rfl
  · split <;> rfl

/-- **One step** keeps every session within its credits. -/
theorem withinCredits_step (h : EngineMove cfg drainSeconds s e t) (hopen : OpenedByHello cfg s e)
    (hs : WithinCredits s) : WithinCredits t := by
  cases h with
  | wake =>
      have hawake := hs.of_sessions (t := { s with workAvailable := false }) rfl
        (fun i x hx => ⟨x, hx, le_rfl, rfl⟩) fun i y hy hnone => (by rw [hnone] at hy; cases hy)
      exact hawake.assignOnce
  | resumed => exact hs.assignOnce
  | empty | rested | cancel => exact hs.no_slots rfl rfl
  | first hpc _ hnext => exact Engine.nextCandidate_withinCredits hnext hs.sessions
  | nothing hpc _ _ hnext => exact Engine.nextCandidate_withinCredits hnext hs.sessions
  | @claimed now skip limit pass x db rows hpc hx hdequeue =>
      obtain ⟨y, hy, hbound⟩ := hs.slots pass.current limit.toNat (by rw [hpc]; rfl)
      refine ⟨hs.sessions, fun i n hin => ?_⟩
      cases hin
      have hle := length_of_dequeue hdequeue
      refine ⟨y, hy, ?_⟩
      show y.session.inFlight + rows.length ≤ y.session.maxConcurrent
      omega
  | @committed claim pass x t hpc hx hnext =>
      exact Engine.nextTask_withinCredits hnext hs.sessions
        (hs.slots pass.current claim.rows.length (by rw [hpc]; rfl))
  | written hpc =>
      refine hs.modify ?_ rfl fun x => ⟨le_rfl, rfl⟩
      rw [hpc]
      rfl
  | sendReturned hpc hnext => exact hs.delivered hpc hnext
  | @sendRaised task tasks pass t hpc hnext =>
      obtain ⟨x, hx, hbound⟩ := hs.slots pass.current (tasks.length + 1) (by
        rcases hpc with hpc | hpc <;> rw [hpc] <;> rfl)
      exact Engine.nextTask_withinCredits hnext hs.sessions ⟨x, hx, by omega⟩
  | @left raised delivered =>
      refine hs.no_slots rfl ?_
      cases raised
      · by_cases hdelivered : 0 < delivered <;> simp [hdelivered, EnginePc.slots]
      · rfl
  | raised _ hpc =>
      refine hs.no_slots rfl ?_
      rcases hpc with rfl | ⟨_, rfl⟩ <;> rfl
  | notify | beginDrain | poll | database => exact ⟨hs.sessions, hs.slots⟩
  | @register i session hnew =>
      obtain ⟨workerId, sessionEpoch, maxConcurrent, tasksInFlight,
        supportedTaskTypes, rfl⟩ := hopen
      refine hs.of_sessions rfl (fun j x hx => ⟨x, ?_, le_rfl, rfl⟩) fun j y hy hnone => ?_
      · have hij : j ≠ i := by rintro rfl; rw [hnew] at hx; cases hx
        exact (Function.update_of_ne hij ..).trans hx
      · by_cases hij : j = i
        · subst hij
          simp only [Engine.registerSession, Function.update_self, Option.some.injEq] at hy
          rw [← hy]
          exact LocalSession.open_inFlight_le
        · have hy' : s.sessions j = some y := (Function.update_of_ne hij ..).symm.trans hy
          rw [hnone] at hy'
          cases hy'
  | hangUp => exact hs.modify rfl rfl fun x => ⟨le_rfl, rfl⟩
  | @handled i turn =>
      exact hs.modify rfl rfl fun x =>
        ⟨x.session.turn_inFlight_le turn, LocalSession.turn_maxConcurrent turn⟩

/-- What is about to be delivered has a slot to go to. -/
theorem WithinCredits.sending (h : WithinCredits s) {task : ClaimedTask} {tasks : List ClaimedTask}
    {pass : Pass} (hpc : s.pc = .sent task tasks pass) :
    ∃ x, s.sessions pass.current = some x ∧ x.session.inFlight < x.session.maxConcurrent := by
  obtain ⟨x, hx, hbound⟩ := h.slots pass.current (tasks.length + 1) (by rw [hpc]; rfl)
  exact ⟨x, hx, by omega⟩

theorem withinCredits_reachable
    (h : ((engine cfg drainSeconds).guarded (OpenedByHello cfg)).Reachable s) :
    WithinCredits s := by
  refine h.invariant (P := WithinCredits) ?_ ?_
  · rintro s ⟨db, rfl⟩
    exact ⟨fun i x hx => (by cases hx), fun i n hin => by cases hin⟩
  · rintro s e t - hs ⟨⟨-, hstep⟩, hopen⟩
    exact withinCredits_step (engineStep_move hstep) hopen hs

/-! ## One turn of a pass -/

/-- Coming to a candidate, a pass may deliver what it has free. -/
theorem Engine.nextCandidate_turnLeft {delivered i : ℕ} {rest : List ℕ} {x : EngineSession}
    (h : s.nextCandidate cfg delivered (i :: rest) = some t) (hx : s.sessions i = some x) :
    t.turnLeft ≤ x.session.freeCredits := by
  simp only [nextCandidate, hx] at h
  split at h
  · cases h
    exact Nat.zero_le _
  · cases h
    simp only [turnLeft, EnginePc.slots, Option.map_some, Option.getD_some, Engine.limit]
    omega

/-- The turn begins with no more than the candidate has free. -/
theorem TurnOf.turnLeft_le {i : ℕ} {x : EngineSession} (hturn : TurnOf cfg s i e)
    (h : EngineMove cfg drainSeconds s e t) (hs : CanServe s) (hx : s.sessions i = some x) :
    t.turnLeft ≤ x.session.freeCredits := by
  cases hturn with
  | first hpc _ =>
      cases h with
      | empty hpc' => exact Nat.zero_le _
      | first hpc' _ hnext =>
          rw [hpc] at hpc'
          cases hpc'
          exact Engine.nextCandidate_turnLeft hnext hx
  | @nothing now skip limit pass rest y db hpc hrest hy hdequeue =>
      cases h with
      | nothing hpc' _ _ hnext =>
          rw [hpc] at hpc'
          cases hpc'
          rw [hrest] at hnext
          exact Engine.nextCandidate_turnLeft hnext hx
      | claimed hpc' hy' hdequeue' hrows =>
          rw [hpc] at hpc'
          cases hpc'
          rw [hy] at hy'
          cases hy'
          rw [hdequeue] at hdequeue'
          cases hdequeue'
          exact absurd rfl hrows
  | @delivered task pass rest hpc hrest =>
      cases h with
      | sendReturned hpc' hnext =>
          rw [hpc] at hpc'
          cases hpc'
          have hne : i ≠ pass.current := by
            have hdistinct := hs.distinct
            rw [hpc] at hdistinct
            rintro rfl
            exact (List.nodup_cons.mp hdistinct).1 (by rw [hrest]; exact List.mem_cons_self)
          simp only [Engine.nextTask, hrest] at hnext
          exact Engine.nextCandidate_turnLeft hnext ((Engine.modify_sessions_of_ne hne).trans hx)
  | @undelivered task pass rest hpc hrest =>
      cases h with
      | sendRaised hpc' hnext =>
          rcases hpc with hpc | hpc <;> rcases hpc'
            with hpc' | hpc' <;> rw [hpc] at hpc' <;> cases hpc' <;>
            simp only [Engine.nextTask, hrest] at hnext <;>
            exact Engine.nextCandidate_turnLeft hnext hx

/-- Where there is no next candidate, the turn is over. -/
theorem Engine.nextCandidate_nil_turnLeft {delivered : ℕ}
    (h : s.nextCandidate cfg delivered [] = some t) :
    t.turnLeft = 0 := by
  cases h
  rfl

/-- Within a turn, a task is delivered or it is not, and there is one less. -/
theorem Engine.nextTask_turnLeft {pass : Pass} {tasks : List ClaimedTask}
    (h : s.nextTask cfg pass tasks = some t) (hlast : tasks = [] → pass.rest = []) :
    t.turnLeft = tasks.length := by
  cases tasks with
  | nil =>
      simp only [nextTask, hlast rfl] at h
      exact Engine.nextCandidate_nil_turnLeft h
  | cons task tasks =>
      cases h
      rfl

/-- **One step of a turn** draws its delivery from what is left. -/
theorem turnLeft_step (h : EngineMove cfg drainSeconds s e t) (hs : CanServe s)
    (hsame : SameTurn cfg s e) :
    ([e].filter EngineEvent.delivers).length + t.turnLeft ≤ s.turnLeft := by
  -- another candidate would be a turn of its own
  have hlast : ∀ {rest : List ℕ}, (∀ i rest', rest = i :: rest' → TurnOf cfg s i e) →
      rest = [] := by
    intro rest hnext
    cases rest with
    | nil => rfl
    | cons i rest' => exact absurd (hnext i rest' rfl) (hsame i)
  cases h with
  | wake | resumed =>
      unfold Engine.assignOnce
      split
      · exact Nat.zero_le _
      · split <;> exact Nat.zero_le _
  | @first candidates t hpc hdepth hnext =>
      obtain rfl : candidates = [] := hlast fun i rest' heq => .first (heq ▸ hpc) hdepth
      rw [Engine.nextCandidate_nil_turnLeft hnext]
      exact Nat.zero_le _
  | @nothing now skip limit pass x db t hpc hx hdequeue hnext =>
      rw [hlast fun i rest' heq => .nothing hpc heq hx hdequeue] at hnext
      rw [Engine.nextCandidate_nil_turnLeft hnext]
      exact Nat.zero_le _
  | @claimed now skip limit pass x db rows hpc hx hdequeue hrows =>
      have hle := length_of_dequeue hdequeue
      simp only [Engine.turnLeft, hpc, EnginePc.slots, Option.map_some, Option.getD_some]
      simpa [EngineEvent.delivers] using hle
  | @committed claim pass x t hpc hx hnext =>
      rw [Engine.nextTask_turnLeft hnext fun hnil => absurd hnil (hs.claims _ _ hpc)]
      simp [Engine.turnLeft, hpc, EnginePc.slots, EngineEvent.delivers]
  | @written task tasks pass x hpc hx hopen =>
      simp [Engine.turnLeft, Engine.modify, hpc, EnginePc.slots, EngineEvent.delivers]
  | @sendReturned task tasks pass t hpc hnext =>
      have hrest : tasks = [] → pass.rest = [] := by
        rintro rfl
        exact hlast fun i rest' heq => .delivered hpc heq
      rw [Engine.nextTask_turnLeft hnext hrest]
      simp only [Engine.turnLeft, hpc, EnginePc.slots, Option.map_some, Option.getD_some]
      show 1 + tasks.length ≤ tasks.length + 1
      omega
  | @sendRaised task tasks pass t hpc hnext =>
      have hrest : tasks = [] → pass.rest = [] := by
        rintro rfl
        exact hlast fun i rest' heq => .undelivered hpc heq
      rw [Engine.nextTask_turnLeft hnext hrest]
      rcases hpc with hpc | hpc <;>
        simp [Engine.turnLeft, hpc, EnginePc.slots, EngineEvent.delivers]
  | @left raised delivered =>
      cases raised
      · by_cases hdelivered : 0 < delivered <;>
          simp [Engine.turnLeft, hdelivered, EnginePc.slots, EngineEvent.delivers]
      · exact Nat.zero_le _
  | raised _ hpc =>
      rcases hpc with rfl | ⟨_, rfl⟩ <;> exact Nat.zero_le _
  | empty | rested | cancel => exact Nat.zero_le _
  | notify | beginDrain | poll | database | register | hangUp | handled => exact (Nat.zero_add _).le

/-- **Credit bounds.** In every state of every run of a replica whose sessions were
opened by a `hello`, whatever the workers declare and send and wherever the awaits of
a pass let it in between:

* no session has more in flight than its `max_concurrent`, and no subtraction from its
  counted residue takes it below zero;
* from the moment a pass comes to a session to the moment it comes to the next one it
  delivers at most as many tasks as the session had free credits, and each delivery finds
  fewer than `max_concurrent` in flight;
* an unnamed release of `f ≥ 1` lowers `in_flight` by `min f in_flight`. -/
theorem credit_bounds (h : ((engine cfg drainSeconds).guarded (OpenedByHello cfg)).Reachable s) :
    (∀ i x, s.sessions i = some x → x.session.inFlight ≤ x.session.maxConcurrent ∧
      ∀ (taskId : String) (freed : Nat),
        0 ≤ residueAfter x.session.residualInFlight (taskId ≠ "")
          (x.session.credited.contains taskId) freed) ∧
    (∀ i x e t, TurnOf cfg s i e → s.sessions i = some x → (engine cfg drainSeconds).step s e t →
      ∀ bs u, ((engine cfg drainSeconds).guarded (SameTurn cfg)).Trace t bs u →
        (bs.filter EngineEvent.delivers).length ≤ x.session.freeCredits) ∧
    (∀ task tasks pass, s.pc = .sent task tasks pass →
      ∃ x, s.sessions pass.current = some x ∧ x.session.inFlight < x.session.maxConcurrent) ∧
    (∀ i x (freed : Int), s.sessions i = some x → 1 ≤ freed →
      ((x.session.turn (.capacity "" freed)).inFlight : Int) =
        x.session.inFlight - min freed x.session.inFlight) := by
  have hreach : (engine cfg drainSeconds).Reachable s := h.of_guarded
  refine ⟨fun i x hx => ⟨(withinCredits_reachable h).sessions i x hx, fun taskId freed => ?_⟩,
    fun i x e t hturn hx hstep bs u hbs => ?_,
    fun task tasks pass hpc => (withinCredits_reachable h).sending hpc,
    fun i x freed _ hfreed => LocalSession.capacity_unnamed hfreed⟩
  · rw [← LocalSession.releaseCredit_residual]
    exact Int.natCast_nonneg _
  · have hreach' : (engine cfg drainSeconds).Reachable t := by
      obtain ⟨past, hpast⟩ := hreach
      exact (hpast.snoc hstep).reachable
    have hbegin := hturn.turnLeft_le (engineStep_move hstep.2) (canServe_reachable hreach) hx
    have hcount : (bs.filter EngineEvent.delivers).length + u.turnLeft ≤ t.turnLeft := by
      refine System.Trace.count_le (fun s e t hr hs hsame => ?_) hreach' hbs
      exact turnLeft_step (engineStep_move hs.2) (canServe_reachable hr) hsame
    omega

end

/-- The replica has its worker's session, opened for two tasks at once, and a pass has
picked it. -/
def Demo.picked : Engine :=
    { Demo.replica.registerSession 0 Demo.idle with workAvailable := false }.assignOnce

theorem Demo.picked_reachable :
    ((engine {} 0).guarded (OpenedByHello {})).Reachable Demo.picked := by
  refine ⟨[.register 0 Demo.idle, .wake], Demo.replica, ⟨_, rfl⟩,
    .cons ⟨⟨Demo.idle_allowed, rfl⟩, ?_⟩
    (.single ⟨⟨trivial, rfl⟩, trivial⟩)⟩
  exact ⟨Demo.worker, 1, some 2, none, ["sleep"], rfl⟩

/-- It is handed at most two, and releases what it holds and no more. -/
theorem credit_bounds_picked :
    (∀ t bs u, (engine {} 0).step Demo.picked .depthRead t →
      ((engine {} 0).guarded (SameTurn {})).Trace t bs u →
        (bs.filter EngineEvent.delivers).length ≤ 2) ∧
    ((Demo.idle.turn (.capacity "" 5)).inFlight : Int) = 0 - min 5 0 := by
  obtain ⟨-, hturns, -, hreleases⟩ := credit_bounds Demo.picked_reachable
  have hfirst : TurnOf {} Demo.picked 0 .depthRead := by
    refine .first rfl ?_
    decide +kernel
  refine ⟨fun t bs u hstep hbs => ?_, hreleases 0 { session := Demo.idle } 5 rfl (by decide)⟩
  exact hturns 0 { session := Demo.idle } .depthRead t hfirst rfl hstep bs u hbs

namespace Demo

/-- Both tasks are claimed for a session with two slots. The first is delivered and refused
for want of a slot while the frame of the second is on its way. -/
def refusedMidTurn : List EngineEvent :=
  [.wake, .depthRead, .dequeued 1 [], .committed, .written, .sendReturned,
    .handled 0 (.taskAck task.str false refuseAtCapacity), .written]

end Demo

/-- **A delivery without a free credit.** The session is saturated when the send of the
second task returns, and the task is delivered all the same. -/
theorem refusal_mid_turn_delivers :
    ∃ u pass, ((engine {} 0).guarded (OpenedByHello {})).Run
        ([.register 0 Demo.idle, .register 1 Demo.neighbour] ++ Demo.refusedMidTurn) u ∧
      (∃ task, u.pc = .sent task [] pass) ∧ pass.current = 0 ∧
      (u.sessions 0).map (fun x => (x.session.freeCredits, x.session.credited.keys)) =
        some (0, [Demo.task.str]) ∧
      ∃ v, (engine {} 0).step u .sendReturned v ∧
        (v.sessions 0).map (fun x => x.session.credited.keys) =
          some [Demo.task.str, Demo.secondTask.str] := by
  have hrun : ∃ u, (engine {} 0).Trace Demo.neighbours Demo.refusedMidTurn u ∧
      (∃ task, u.pc = .sent task [] ⟨0, [1], 1⟩) ∧
      (u.sessions 0).map (fun x => (x.session.freeCredits, x.session.credited.keys)) =
        some (0, [Demo.task.str]) ∧
      ∃ v, (engine {} 0).step u .sendReturned v ∧
        (v.sessions 0).map (fun x => x.session.credited.keys) =
          some [Demo.task.str, Demo.secondTask.str] :=
    ⟨_, engine_played rfl, ⟨_, rfl⟩, rfl, _, ⟨trivial, rfl⟩, rfl⟩
  obtain ⟨u, htrace, hpc, hsession, hstep⟩ := hrun
  obtain ⟨s, hs, hall⟩ := Demo.neighbours_run.extend htrace
  have hguarded : ((engine {} 0).guarded (OpenedByHello {})).Trace s
      ([.register 0 Demo.idle, .register 1 Demo.neighbour] ++ Demo.refusedMidTurn) u := by
    refine hall.guarded_of_forall (G := OpenedByHello {} s) fun e he => ?_
    simp only [Demo.refusedMidTurn, List.cons_append, List.nil_append, List.mem_cons,
      List.not_mem_nil, or_false] at he
    -- only the two `hello`s have something to show
    rcases he with rfl | rfl | rfl | rfl | rfl | rfl | rfl | rfl | rfl | rfl
    · exact ⟨Demo.worker, 1, some 2, none, ["sleep"], rfl⟩
    · exact ⟨Demo.otherWorker, 1, some 2, none, ["sleep"], rfl⟩
    all_goals trivial
  exact ⟨u, ⟨0, [1], 1⟩, ⟨s, hs, hguarded⟩, hpc, rfl, hsession, hstep⟩

end TaskFleet.Model
