import TaskFleet.Logic.FleetSteps

/-!
# Where a result is

An execution that returns makes one envelope and records it (`recorded`). From
there on the envelope is in `pending_results` until

* **overflow** — a newer result needs the room;
* **replacement** — another execution of the same task records its own;
* **an answer** — a `task_result_ack` that names the task is read (`answered`);

and nothing else touches the buffer (`Step.pendingMove`). What is on the wire
was in the buffer when it was sent (`Step.sentResult`).
-/

namespace TaskFleet.Model

open Py

namespace Fleet

/-- The `task_result_ack` the step reads, with the token it answers. -/
def answered (f : Fleet) : Label → Option (ResultAck × Token)
  | .workerRead _ =>
      match f.toWorker with
      | .taskResultAck ack answers :: _ => some (ack, answers)
      | _ => none
  | _ => none

/-- The result the step records, under the key it is recorded at. -/
def recorded (x : Setting) (f : Fleet) : Label → Option (String × WorkerResult)
  | .finish taskId (.returned result duration) =>
      (f.runner.running.get? taskId).bind fun task =>
        (task.result? x.floats x.worker.maxResultBytes result duration).map fun envelope =>
          (task.taskId.str, envelope)
  | _ => none

/-- What is left of the buffer once there is room for one more. -/
def room (x : Setting) (f : Fleet) : Dict String WorkerResult :=
  f.runner.makeRoom x.worker.maxPendingResults

variable {x : Setting} {f f' : Fleet} {l : Label}

/-- The envelope of an execution names it, and its attempt. -/
theorem result?_names {fl : FloatOps} {maxResultBytes : Nat} {task : RunningTask} {result : Json}
    {duration : PyFloat} {envelope : WorkerResult}
    (h : task.result? fl maxResultBytes result duration = some envelope) :
    envelope.taskId = task.taskId.str ∧ envelope.idempotencyToken = task.idempotencyToken ∧
      envelope.attemptNumber = task.attempt := by
  simp only [RunningTask.result?] at h
  split at h
  · rw [← Option.some.inj h]
    simp only [buildResultEnvelope]
    split <;> exact ⟨rfl, rfl, rfl⟩
  · cases h

/-- A result that is recorded is one of a running execution. -/
theorem recorded_names {t : String} {e : WorkerResult} (h : f.recorded x l = some (t, e)) :
    ∃ task ∈ f.runner.running, t = task.taskId.str ∧ e.taskId = task.taskId.str ∧
      e.idempotencyToken = task.idempotencyToken ∧ e.attemptNumber = task.attempt := by
  unfold recorded at h
  split at h
  · obtain ⟨task, htask, hmade⟩ := Option.bind_eq_some_iff.mp h
    obtain ⟨envelope, henvelope, heq⟩ := Option.map_eq_some_iff.mp hmade
    obtain ⟨rfl, rfl⟩ := Prod.mk.inj heq
    exact ⟨task, (Table.get?_eq_some_iff.mp htask).1, rfl, result?_names henvelope⟩
  · cases h

theorem lookup_room {t : String} (h : t ∈ (f.room x).keys) :
    (f.room x).lookup t = f.runner.pendingResults.lookup t :=
  Dict.lookup_dropFirst h

/-- What a step does to the buffer. -/
inductive PendingMove (x : Setting) (f : Fleet) (l : Label) (f' : Fleet) : Prop
  | same (hanswered : f.answered l = none) (hrecorded : f.recorded x l = none)
      (hpending : f'.runner.pendingResults = f.runner.pendingResults)
  | answered {ack : ResultAck} {answers : Token} (hanswered : f.answered l = some (ack, answers))
      (hrecorded : f.recorded x l = none)
      (hpending : f'.runner.pendingResults = f.runner.pendingResults.erase ack.taskId)
  | recorded {t : String} {e : WorkerResult} (hanswered : f.answered l = none)
      (hrecorded : f.recorded x l = some (t, e))
      (hpending : f'.runner.pendingResults = (f.room x).set t e)

/-- Handling an assignment leaves the buffer alone. -/
theorem assign_pending (task : ClaimedTask) (token : Token) :
    (f.assign x task token).runner.pendingResults = f.runner.pendingResults := by
  unfold assign
  split <;> rfl

/-- **The buffer has two writers**: an execution that returns, and an answer. -/
theorem Step.pendingMove (h : Step x f l f') : PendingMove x f l f' := by
  cases h with
  | @workerRead token m rest hfresh hm hread =>
      cases m with
      -- the answer takes out whatever is there under its task
      | taskResultAck ack answers =>
          have hanswered : f.answered (.workerRead token) = some (ack, answers) := by
            simp only [Fleet.answered, hm]
          exact .answered hanswered rfl rfl
      | taskAssign delivery task =>
          have hanswered : f.answered (.workerRead token) = none := by
            simp only [Fleet.answered, hm]
          exact .same hanswered rfl (assign_pending task token)
      | helloAck | taskCancel =>
          have hanswered : f.answered (.workerRead token) = none := by
            simp only [Fleet.answered, hm]
          exact .same hanswered rfl rfl
  | @finish taskId ending task f' htask hended hfinish =>
      cases ending with
      | returned result duration =>
          obtain ⟨envelope, henvelope, rfl⟩ := Option.map_eq_some_iff.mp hfinish
          have hrecorded : f.recorded x (.finish taskId (.returned result duration)) =
              some (task.taskId.str, envelope) := by
            simp only [Fleet.recorded, htask, Option.bind_some, henvelope, Option.map_some]
          exact .recorded rfl hrecorded rfl
      | raised errorType =>
          obtain rfl := Option.some.inj hfinish
          exact .same rfl rfl rfl
      | cancelled =>
          simp only [Fleet.finish] at hfinish
          split at hfinish <;> cases hfinish
          exact .same rfl rfl rfl
  | coordRead hfresh hs hidle hm hread =>
      obtain ⟨db', session', handling', reported', rfl⟩ := coordRead_frame hread
      exact .same rfl rfl rfl
  | conclude hs hconclude =>
      obtain ⟨session', handling', reported', rfl⟩ := conclude_frame hconclude
      exact .same rfl rfl rfl
  | _ => exact .same rfl rfl rfl

/-- A result on the wire was there, or was in the buffer, or was recorded just
now. -/
theorem Step.sentResult (h : Step x f l f') {e : WorkerResult}
    (he : .taskResult e ∈ f'.toCoordinator) :
    .taskResult e ∈ f.toCoordinator ∨ (∃ t, f.runner.pendingResults.lookup t = some e) ∨
      ∃ t, f.recorded x l = some (t, e) := by
  cases h with
  | connect | disconnect => cases he
  | @workerRead token m rest hfresh hm hread =>
      cases m with
      | taskAssign delivery task =>
          simp only [Fleet.workerRead, assign] at he
          split at he
          · exact .inl ((of_mem_report he).resolve_right ToCoordinator.noConfusion)
          · exact .inl ((of_mem_report he).resolve_right ToCoordinator.noConfusion)
          · exact .inl ((of_mem_report he).resolve_right ToCoordinator.noConfusion)
          · have hacked := (of_mem_report he).resolve_right ToCoordinator.noConfusion
            exact .inl ((of_mem_report hacked).resolve_right ToCoordinator.noConfusion)
      | _ => exact .inl he
  | progress => exact .inl ((of_mem_report he).resolve_right ToCoordinator.noConfusion)
  | @finish taskId ending task f' htask hended hfinish =>
      cases ending with
      | returned result duration =>
          obtain ⟨envelope, henvelope, rfl⟩ := Option.map_eq_some_iff.mp hfinish
          rcases of_mem_report he with hold | hnew
          · exact .inl hold
          · obtain rfl := ToCoordinator.taskResult.inj hnew
            refine .inr (.inr ⟨task.taskId.str, ?_⟩)
            simp only [Fleet.recorded, htask, Option.bind_some, henvelope, Option.map_some]
      | raised errorType =>
          obtain rfl := Option.some.inj hfinish
          exact .inl ((of_mem_report he).resolve_right ToCoordinator.noConfusion)
      | cancelled =>
          simp only [Fleet.finish] at hfinish
          split at hfinish <;> cases hfinish
          exact .inl ((of_mem_report he).resolve_right ToCoordinator.noConfusion)
  | @resubmit taskId result hpending =>
      rcases of_mem_report he with hold | hnew
      · exact .inl hold
      · obtain rfl := ToCoordinator.taskResult.inj hnew
        exact .inr (.inl ⟨taskId, hpending⟩)
  | coordRead hfresh hs hidle hm hread =>
      obtain ⟨db', session', handling', reported', rfl⟩ := coordRead_frame hread
      exact .inl (hm ▸ .tail _ he)
  | conclude hs hconclude =>
      obtain ⟨session', handling', reported', rfl⟩ := conclude_frame hconclude
      exact .inl he
  | _ => exact .inl he

end Fleet

end TaskFleet.Model
