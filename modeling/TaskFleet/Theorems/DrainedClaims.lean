import TaskFleet.Logic.EngineSteps

/-!
# A draining replica claims nothing

`assign_once` looks at `_draining` on its first line only. A pass that is past it
when the drain begins goes on claiming for the candidates it has left
(`drain_mid_pass_claims`); a drain that begins between passes is followed by no
claim (`drained_claims_nothing`).
-/

namespace TaskFleet.Model

open Py

/-- A claim of the pass is under way or still to come. -/
def EnginePc.claimsLeft : EnginePc → Bool
  | .queueDepth _ | .dequeue _ _ | .commit _ _ => true
  | .send _ _ pass | .sent _ _ pass => !pass.rest.isEmpty
  | _ => false

/-- The drain does not begin while a pass has claims left. -/
def DrainsBetween (s : Engine) (e : EngineEvent) : Prop := e = .beginDrain → s.pc.claimsLeft = false

/-- A pass that has begun before the drain has no claim left. -/
def Drained (s : Engine) : Prop := s.draining = true → s.pc.claimsLeft = false

section

variable {cfg : Config} {drainSeconds : Seconds} {s t : Engine} {e : EngineEvent}
  {es : List EngineEvent}

theorem Engine.nextTask_claimsLeft {pass : Pass} {tasks : List ClaimedTask}
    (h : s.nextTask cfg pass tasks = some t) (hrest : pass.rest = []) :
    t.pc.claimsLeft = false := by
  cases tasks with
  | nil =>
      simp only [Engine.nextTask, hrest, Engine.nextCandidate] at h
      cases h
      rfl
  | cons task tasks =>
      cases h
      simp [EnginePc.claimsLeft, hrest]

/-- The first line of `assign_once`. -/
theorem Engine.assignOnce_drained (s : Engine) : Drained s.assignOnce := by
  intro hdraining
  unfold assignOnce at hdraining ⊢
  split
  · rfl
  · next hnot =>
      rw [if_neg hnot] at hdraining
      split at hdraining <;> exact absurd hdraining hnot

theorem Drained.not_draining (h : Drained s) (hleft : s.pc.claimsLeft = true) :
    s.draining = false := by
  by_contra hdraining
  rw [h (by simpa using hdraining)] at hleft
  cases hleft

theorem drained_step (h : EngineMove cfg drainSeconds s e t) (hdrained : Drained s)
    (hguard : DrainsBetween s e) : Drained t := by
  cases h with
  | wake | resumed => exact Engine.assignOnce_drained _
  | empty | rested | cancel => exact fun _ => rfl
  | first hpc _ hnext | nothing hpc _ _ hnext =>
      have hnot := hdrained.not_draining (by rw [hpc]; rfl)
      obtain ⟨pc, rfl⟩ := Engine.nextCandidate_eq hnext
      exact fun hdraining => absurd hdraining (by simp [hnot])
  | claimed hpc =>
      have hnot := hdrained.not_draining (by rw [hpc]; rfl)
      exact fun hdraining => absurd hdraining (by simp [hnot])
  | committed hpc hx hnext =>
      have hnot := hdrained.not_draining (by rw [hpc]; rfl)
      obtain ⟨pc, rfl⟩ := Engine.nextTask_eq hnext
      exact fun hdraining => absurd hdraining (by simp [hnot])
  | written hpc =>
      intro hdraining
      have hleft := hdrained hdraining
      rw [hpc] at hleft
      exact hleft
  | sendReturned hpc hnext =>
      intro hdraining
      have hdraining' : s.draining = true := by
        obtain ⟨pc, rfl⟩ := Engine.nextTask_eq hnext
        exact hdraining
      have hleft := hdrained hdraining'
      rw [hpc] at hleft
      exact Engine.nextTask_claimsLeft hnext (by simpa [EnginePc.claimsLeft] using hleft)
  | sendRaised hpc hnext =>
      intro hdraining
      have hdraining' : s.draining = true := by
        obtain ⟨pc, rfl⟩ := Engine.nextTask_eq hnext
        exact hdraining
      have hleft := hdrained hdraining'
      rcases hpc with hpc | hpc <;> rw [hpc] at hleft <;>
        exact Engine.nextTask_claimsLeft hnext (by simpa [EnginePc.claimsLeft] using hleft)
  | left =>
      intro _
      show EnginePc.claimsLeft (if _ then _ else _) = false
      split
      · rfl
      · split <;> rfl
  | raised _ hpc =>
      intro _
      rcases hpc with rfl | ⟨_, rfl⟩ <;> rfl
  | beginDrain => exact fun _ => hguard rfl
  | notify | poll | register | hangUp | handled | database => exact hdrained

theorem drained_reachable (h : ((engine cfg drainSeconds).guarded DrainsBetween).Reachable t) :
    Drained t := by
  refine h.invariant (P := Drained) ?_ ?_
  · rintro s ⟨db, rfl⟩
    exact fun _ => rfl
  · rintro s e t - hdrained ⟨⟨-, hs⟩, hguard⟩
    exact drained_step (engineStep_move hs) hdrained hguard

/-- Draining is for good. -/
theorem draining_trace (h : (engine cfg drainSeconds).Trace s es t) (hs : s.draining = true) :
    t.draining = true := by
  induction h with
  | nil => exact hs
  | snoc _ hstep ih =>
      cases (engineStep_move hstep.2).effect with
      | beginDrain => rfl
      | _ => exact ih

/-- The rows are written by the engine's commits and by nobody else on the
replica. -/
theorem db_step (h : EngineMove cfg drainSeconds s e t) :
    t.db = s.db ∨ s.pc.claimsLeft = true ∧ e = .committed ∨ ∃ db, e = .database db := by
  cases h.effect with
  | committed hpc => exact .inr (.inl ⟨by rw [hpc]; rfl, rfl⟩)
  | database => exact .inr (.inr ⟨_, rfl⟩)
  | _ => exact .inl rfl

/-- **A draining replica claims nothing.** In every run of a replica in which no
drain begins while a pass has claims left: after `begin_drain`, no dequeue of the
engine is committed and no step but other transactions changes a row. -/
theorem drained_claims_nothing (h : ((engine cfg drainSeconds).guarded DrainsBetween).Run es t) :
    ∀ as bs e cs, es = as ++ .beginDrain :: bs ++ e :: cs → e ≠ .committed ∧
      ∀ u v, (engine cfg drainSeconds).Run (as ++ .beginDrain :: bs) u →
        (engine cfg drainSeconds).step u e v → v.db = u.db ∨ ∃ db, e = .database db := by
  intro as bs e cs hsplit
  obtain ⟨s₀, hinit, htrace⟩ := h
  rw [hsplit] at htrace
  obtain ⟨u, u', hpast, hstep, -⟩ := htrace.at_event
  have hdraining : u.draining = true := by
    obtain ⟨v, v', -, hbegin, hrest⟩ := hpast.at_event
    refine draining_trace hrest.of_guarded ?_
    cases engineStep_move hbegin.1.2 with
    | beginDrain => rfl
  have hleft : u.pc.claimsLeft = false := drained_reachable ⟨_, s₀, hinit, hpast⟩ hdraining
  have hno : e ≠ .committed := by
    rintro rfl
    cases engineStep_move hstep.1.2 with
    | committed hpc =>
        rw [hpc] at hleft
        cases hleft
  refine ⟨hno, fun v w _ hvw => ?_⟩
  rcases db_step (engineStep_move hvw.2) with hdb | ⟨-, he⟩ | hother
  · exact .inl hdb
  · exact absurd he hno
  · exact .inr hother

end

namespace Demo

/-- The status of the task. -/
def taskStatus (s : Engine) : Option TaskState := (s.db.tasks.get? task).map Task.status

end Demo

/-- The drain begins with the loop parked, and the bell that rings for the queued
task brings nothing. -/
theorem drained_claims_nothing_parked :
    ∃ u, (engine {} 0).Run [.register 0 Demo.idle, .beginDrain, .notify] u ∧
      Demo.taskStatus u = some .queued ∧ ∃ v, (engine {} 0).step u .wake v ∧
        (v.db = u.db ∨ ∃ db, EngineEvent.wake = .database db) := by
  have hrun : ∃ u, ((engine {} 0).guarded DrainsBetween).Run
      [.register 0 Demo.idle, .beginDrain, .notify] u ∧
      Demo.taskStatus u = some .queued ∧ ∃ v, (engine {} 0).step u .wake v :=
    ⟨_, ⟨Demo.replica, ⟨_, rfl⟩, .cons ⟨⟨Demo.idle_allowed, rfl⟩, fun h => by cases h⟩
      (.cons ⟨⟨trivial, rfl⟩, fun _ => rfl⟩ (.single ⟨⟨trivial, rfl⟩, fun h => by cases h⟩))⟩,
      rfl, _, trivial, rfl⟩
  obtain ⟨u, hu, hstatus, v, hstep⟩ := hrun
  refine ⟨u, hu.of_guarded, hstatus, v, hstep, ?_⟩
  exact (drained_claims_nothing (hu.snoc ⟨hstep, fun h => by cases h⟩)
    [.register 0 Demo.idle] [.notify]
    .wake [] rfl).2 u v hu.of_guarded hstep

/-- A drain that begins in the middle of a pass is followed by a claim: the first
line of `assign_once` is behind it. -/
theorem drain_mid_pass_claims :
    ∃ u, (engine {} 0).Run
        [.register 0 Demo.idle, .wake, .beginDrain, .depthRead, .dequeued 1 []] u ∧
      u.draining = true ∧ Demo.taskStatus u = some .queued ∧
      ∃ v, (engine {} 0).step u .committed v ∧ Demo.taskStatus v = some .assigned :=
  ⟨_, ⟨Demo.replica, ⟨_, rfl⟩, .cons ⟨Demo.idle_allowed, rfl⟩ (.cons ⟨trivial, rfl⟩
    (.cons ⟨trivial, rfl⟩ (.cons ⟨trivial, rfl⟩ (.single ⟨trivial, rfl⟩))))⟩,
    rfl, rfl, _, ⟨trivial, rfl⟩, rfl⟩

end TaskFleet.Model
