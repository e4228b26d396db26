import TaskFleet.Model.Engine

/-!
# What an event does to a replica

`EngineMove` lists the steps of the engine, each with the await it is taken
from. The helpers that carry a pass on move nothing but its program counter, and
`EngineEffect` lists what a step changes beside it.
-/

namespace TaskFleet.Model

open Py

/-- The steps of a replica. -/
inductive EngineMove (cfg : Config) (drainSeconds : Seconds) (s : Engine) :
    EngineEvent → Engine → Prop
  | wake (hpc : s.pc = .waiting) :
      EngineMove cfg drainSeconds s .wake { s with workAvailable := false }.assignOnce
  | empty {candidates : List ℕ} (hpc : s.pc = .queueDepth candidates) :
      EngineMove cfg drainSeconds s .depthRead { s with pc := .leave false 0 }
  | first {candidates : List ℕ} {t : Engine} (hpc : s.pc = .queueDepth candidates)
      (hdepth : ∃ task ∈ s.db.tasks.rows, task.status = .queued)
      (hnext : s.nextCandidate cfg 0 candidates = some t) :
        EngineMove cfg drainSeconds s .depthRead t
  | nothing {now : Seconds} {skip : List Uuid} {limit : Int} {pass : Pass}
      {x : EngineSession} {db : Db}
      {t : Engine} (hpc : s.pc = .dequeue limit pass) (hx : s.sessions pass.current = some x)
      (hdequeue : dequeue cfg s.db now x.session.workerId limit cfg.taskDequeueMaxBatch
        (some x.session.supportedTaskTypes) skip = .ok (db, []))
      (hnext : s.nextCandidate cfg pass.delivered pass.rest = some t) :
      EngineMove cfg drainSeconds s (.dequeued now skip) t
  | claimed {now : Seconds} {skip : List Uuid} {limit : Int} {pass : Pass}
      {x : EngineSession} {db : Db}
      {rows : List ClaimedTask} (hpc : s.pc = .dequeue limit pass)
      (hx : s.sessions pass.current = some x)
      (hdequeue : dequeue cfg s.db now x.session.workerId limit cfg.taskDequeueMaxBatch
        (some x.session.supportedTaskTypes) skip = .ok (db, rows)) (hrows : rows ≠ []) :
      EngineMove cfg drainSeconds s (.dequeued now skip)
        { s with pc := .commit ⟨s.db.policies, now, rows⟩ pass }
  | committed {claim : OpenClaim} {pass : Pass} {x : EngineSession} {t : Engine}
      (hpc : s.pc = .commit claim pass) (hx : s.sessions pass.current = some x)
      (hnext : { s with db := claim.commit cfg x.session.workerId s.db }.nextTask cfg
        pass claim.rows =
        some t) : EngineMove cfg drainSeconds s .committed t
  | written {task : ClaimedTask} {tasks : List ClaimedTask} {pass : Pass} {x : EngineSession}
      (hpc : s.pc = .send task tasks pass) (hx : s.sessions pass.current = some x)
      (hopen : x.ended = false) :
      EngineMove cfg drainSeconds s .written
        ({ s with pc := .sent task tasks pass }.modify pass.current
        fun x => { x with unanswered := task.id.str :: x.unanswered })
  | sendReturned {task : ClaimedTask} {tasks : List ClaimedTask} {pass : Pass} {t : Engine}
      (hpc : s.pc = .sent task tasks pass)
      (hnext : (s.modify pass.current fun x =>
        { x with session := x.session.deliver task.id.str task.correlationId }).nextTask cfg
          { pass with delivered := pass.delivered + 1 } tasks = some t) :
      EngineMove cfg drainSeconds s .sendReturned t
  | sendRaised {task : ClaimedTask} {tasks : List ClaimedTask} {pass : Pass} {t : Engine}
      (hpc : s.pc = .send task tasks pass ∨ s.pc = .sent task tasks pass)
      (hnext : s.nextTask cfg pass tasks = some t) : EngineMove cfg drainSeconds s .sendRaised t
  | left {raised : Bool} {delivered : Nat} (hpc : s.pc = .leave raised delivered) :
      EngineMove cfg drainSeconds s .left
        { s with pc := if raised then .backOff else if 0 < delivered then .yield else .waiting }
  | resumed (hpc : s.pc = .yield) : EngineMove cfg drainSeconds s .resumed s.assignOnce
  | rested (hpc : s.pc = .backOff) : EngineMove cfg drainSeconds s .rested { s with pc := .waiting }
  | raised {pc : EnginePc} (hawait : ∀ task tasks pass, s.pc ≠ .sent task tasks pass)
      (hpc : pc = .backOff ∨ ∃ delivered, pc = .leave true delivered) :
      EngineMove cfg drainSeconds s .raised { s with pc := pc }
  | cancel : EngineMove cfg drainSeconds s .cancel { s with pc := .cancelled }
  | notify : EngineMove cfg drainSeconds s .notify { s with workAvailable := true }
  | beginDrain : EngineMove cfg drainSeconds s .beginDrain { s with draining := true }
  | poll {elapsed : Seconds} {drain : DrainPc} (hdraining : s.draining = true)
      (hdrain : drain = .returned false ↔ s.outstanding = 0) :
      EngineMove cfg drainSeconds s (.poll elapsed) { s with drain := drain }
  | register {i : ℕ} {session : LocalSession} (hnew : s.sessions i = none) :
      EngineMove cfg drainSeconds s (.register i session) (s.registerSession i session)
  | hangUp {i : ℕ} {x : EngineSession} (hx : s.sessions i = some x) (hopen : x.ended = false) :
      EngineMove cfg drainSeconds s (.hangUp i)
        ((s.unregisterSession x.session).modify i fun x => { x with ended := true })
  | handled {i : ℕ} {turn : SessionTurn} {x : EngineSession} (hx : s.sessions i = some x)
      (hopen : x.ended = false) :
      EngineMove cfg drainSeconds s (.handled i turn) (s.modify i (·.handle turn))
  | database {db : Db} : EngineMove cfg drainSeconds s (.database db) { s with db := db }

section

variable {cfg : Config} {drainSeconds : Seconds} {s t : Engine} {e : EngineEvent}

theorem engineStep_move (h : engineStep cfg drainSeconds s e = some t) :
    EngineMove cfg drainSeconds s e t := by
  cases e <;> simp only [engineStep, Engine.loopStep, Engine.otherStep, Option.none_or,
    Option.or_none] at h
  case wake =>
    split at h
    · next hpc => cases h; exact .wake hpc
    · cases h
  case depthRead =>
    split at h
    · next candidates hpc =>
        split at h
        · cases h; exact .empty hpc
        · next hdepth =>
            refine .first hpc ?_ h
            obtain ⟨task, htask⟩ := List.exists_mem_of_length_pos (Nat.pos_of_ne_zero hdepth)
            exact ⟨task, by simpa using htask⟩
    · cases h
  case dequeued now skip =>
    split at h
    · next limit pass hpc =>
        split at h
        · cases h
        · next x hx =>
            split at h
            · cases h
            · next db hdequeue => exact .nothing hpc hx hdequeue h
            · next db rows hrows hdequeue =>
                cases h
                exact .claimed hpc hx hdequeue hrows
    · cases h
  case committed =>
    split at h
    · next claim pass hpc =>
        split at h
        · cases h
        · next x hx => exact .committed hpc hx h
    · cases h
  case written =>
    split at h
    · next task tasks pass hpc =>
        split at h
        · cases h
        · next x hx =>
            split at h
            · cases h
            · next hopen => cases h; exact .written hpc hx (by simpa using hopen)
    · cases h
  case sendReturned =>
    split at h
    · next task tasks pass hpc => exact .sendReturned hpc h
    · cases h
  case sendRaised =>
    split at h
    · next task tasks pass hpc => exact .sendRaised (.inl hpc) h
    · next task tasks pass hpc => exact .sendRaised (.inr hpc) h
    · cases h
  case left =>
    split at h
    · next hpc => cases h; exact .left hpc
    · cases h
  case resumed =>
    split at h
    · next hpc => cases h; exact .resumed hpc
    · cases h
  case rested =>
    split at h
    · next hpc => cases h; exact .rested hpc
    · cases h
  case raised =>
    split at h
    · next hpc => cases h; exact .raised (by simp [hpc]) (.inr ⟨_, rfl⟩)
    · next hpc => cases h; exact .raised (by simp [hpc]) (.inr ⟨_, rfl⟩)
    · next hpc => cases h; exact .raised (by simp [hpc]) (.inr ⟨_, rfl⟩)
    · next hpc => cases h; exact .raised (by simp [hpc]) (.inl rfl)
    · cases h
  case cancel => cases h; exact .cancel
  case notify => cases h; exact .notify
  case beginDrain => cases h; exact .beginDrain
  case poll elapsed =>
    split at h
    · cases h
    · split at h
      · cases h
      · next hdraining =>
          split at h
          · next hzero => cases h; exact .poll (by simpa using hdraining) (by simp [hzero])
          · next hne =>
              cases h
              refine .poll (by simpa using hdraining) ?_
              split <;> simp [hne]
  case register i session =>
    split at h
    · next hnew => cases h; exact .register hnew
    · cases h
  case hangUp i =>
    split at h
    · cases h
    · next x hx =>
        split at h
        · cases h
        · next hopen => cases h; exact .hangUp hx (by simpa using hopen)
  case handled i turn =>
    split at h
    · cases h
    · next x hx =>
        split at h
        · cases h
        · next hopen => cases h; exact .handled hx (by simpa using hopen)
  case database db => cases h; exact .database

/-! ## The rest of a pass -/

namespace Engine

theorem assignOnce_eq (s : Engine) : ∃ pc, s.assignOnce = { s with pc := pc } := by
  unfold assignOnce
  split
  · exact ⟨_, rfl⟩
  · split <;> exact ⟨_, rfl⟩

theorem nextCandidate_eq {delivered : Nat} {rest : List ℕ}
    (h : s.nextCandidate cfg delivered rest = some t) :
    ∃ pc, t = { s with pc := pc } := by
  cases rest with
  | nil => cases h; exact ⟨_, rfl⟩
  | cons i rest =>
      simp only [nextCandidate] at h
      split at h
      · cases h
      · split at h <;> cases h <;> exact ⟨_, rfl⟩

theorem nextTask_eq {pass : Pass} {tasks : List ClaimedTask}
    (h : s.nextTask cfg pass tasks = some t) :
    ∃ pc, t = { s with pc := pc } := by
  cases tasks with
  | nil => exact nextCandidate_eq h
  | cons task tasks => cases h; exact ⟨_, rfl⟩

end Engine

/-! ## Beside the program counter -/

/-- What a step changes but for the program counter of the loop. -/
inductive EngineEffect (cfg : Config) (s : Engine) : EngineEvent → Engine → Prop
  | loop {e : EngineEvent} {pc : EnginePc} : EngineEffect cfg s e { s with pc := pc }
  | wake {pc : EnginePc} (hpass : { s with workAvailable := false }.assignOnce =
      { s with workAvailable := false, pc := pc }) :
      EngineEffect cfg s .wake { s with workAvailable := false, pc := pc }
  | committed {claim : OpenClaim} {pass : Pass} {x : EngineSession} {pc : EnginePc}
      (hpc : s.pc = .commit claim pass) :
      EngineEffect cfg s .committed
        { s with db := claim.commit cfg x.session.workerId s.db, pc := pc }
  | written {task : ClaimedTask} {tasks : List ClaimedTask} {pass : Pass} {pc : EnginePc}
      (hpc : s.pc = .send task tasks pass) :
      EngineEffect cfg s .written ({ s with pc := pc }.modify pass.current
        fun x => { x with unanswered := task.id.str :: x.unanswered })
  | sendReturned {task : ClaimedTask} {pass : Pass} {pc : EnginePc} :
      EngineEffect cfg s .sendReturned { s.modify pass.current fun x =>
        { x with session := x.session.deliver task.id.str task.correlationId } with pc := pc }
  | notify : EngineEffect cfg s .notify { s with workAvailable := true }
  | beginDrain : EngineEffect cfg s .beginDrain { s with draining := true }
  | poll {elapsed : Seconds} {drain : DrainPc} :
      EngineEffect cfg s (.poll elapsed) { s with drain := drain }
  | register {i : ℕ} {session : LocalSession} (hnew : s.sessions i = none) :
      EngineEffect cfg s (.register i session) (s.registerSession i session)
  | hangUp {i : ℕ} {x : EngineSession} (hx : s.sessions i = some x) :
      EngineEffect cfg s (.hangUp i)
        ((s.unregisterSession x.session).modify i fun x => { x with ended := true })
  | handled {i : ℕ} {turn : SessionTurn} : EngineEffect cfg s (.handled i turn)
      (s.modify i (·.handle turn))
  | database {db : Db} : EngineEffect cfg s (.database db) { s with db := db }

theorem EngineMove.effect (h : EngineMove cfg drainSeconds s e t) : EngineEffect cfg s e t := by
  cases h with
  | wake =>
      obtain ⟨pc, hpc⟩ := Engine.assignOnce_eq { s with workAvailable := false }
      rw [hpc]
      exact .wake hpc
  | resumed =>
      obtain ⟨pc, hpc⟩ := Engine.assignOnce_eq s
      rw [hpc]
      exact .loop
  | first _ _ hnext | nothing _ _ _ hnext =>
      obtain ⟨pc, rfl⟩ := Engine.nextCandidate_eq hnext
      exact .loop
  | committed hpc _ hnext =>
      obtain ⟨pc, rfl⟩ := Engine.nextTask_eq hnext
      exact .committed hpc
  | written hpc => exact .written hpc
  | sendReturned _ hnext =>
      obtain ⟨pc, rfl⟩ := Engine.nextTask_eq hnext
      exact .sendReturned
  | sendRaised _ hnext =>
      obtain ⟨pc, rfl⟩ := Engine.nextTask_eq hnext
      exact .loop
  | notify => exact .notify
  | beginDrain => exact .beginDrain
  | poll => exact .poll
  | register hnew => exact .register hnew
  | hangUp hx => exact .hangUp hx
  | handled => exact .handled
  | database => exact .database
  | _ => exact .loop

end

end TaskFleet.Model
