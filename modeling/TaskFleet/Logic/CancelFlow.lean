import Mathlib.Data.List.ReduceOption
import TaskFleet.Logic.FleetSteps
import TaskFleet.Logic.LeaseKeeping
import TaskFleet.Logic.TaskCounts
import TaskFleet.Logic.TaskLease
import TaskFleet.Model.Cancels

/-!
# What a cancel can meet

Two sides of a task, each by its attempts:

* **entrusted** — the attempts the worker has: an execution was acknowledged for them, or
  their delivery is credited (`Entrusted`);
* **pending** — the attempts that a cancel which may still do something was issued for
  (`Net.pending`).

A step entrusts an attempt only by accepting or crediting its assignment
(`Step.entrusted`), and makes one pending only by reclaiming it (`Step.pending`). What is
entrusted is never ahead of the row of the task (`Reachable.tidy`), so what is reclaimed
is not below it.
-/

namespace TaskFleet.Model

open Py

/-- The row of the task has come to the attempt. -/
def Db.Reached (db : Db) (t : Uuid) (j : ℕ) : Prop := ∃ row ∈ db.tasks,
    row.id = t ∧ j ≤ row.attemptCount

namespace Fleet

variable {x : Setting} {f f' : Fleet} {l : Label}

/-! ## Rows -/

/-- A row does not go back. -/
theorem Step.reached (h : Step x f l f')
    (hreach : (queue x.cfg x.schemas).Reachable f.db) {t : Uuid}
    {j : ℕ} (hj : f.db.Reached t j) : f'.db.Reached t j := by
  obtain ⟨row, hrow, hid, hle⟩ := hj
  rcases h.queueMove with heq | ⟨e, he⟩
  · rw [heq]
    exact ⟨row, hrow, hid, hle⟩
  · obtain ⟨row', hrow', hid', hle'⟩ := Trace.row_attempt hreach (System.Trace.single he) hrow
    exact ⟨row', hrow', hid'.trans hid, hle.trans hle'⟩

/-- A cancel is issued for the attempt that the row was on. -/
theorem mem_issues {now : Seconds} {op : Op} (hadm : op.Admissible f.db) {c : Cancel}
    (hc : c ∈ f.issues x now op) :
    ∃ row ∈ f.db.tasks, row.id = c.taskId ∧ row.attemptCount = c.attempt := by
  unfold issues at hc
  split at hc
  · next rows hreply =>
      obtain ⟨r, hr, rfl⟩ := List.mem_map.mp hc
      have hin : r ∈ (apply x.cfg x.schemas f.db now op).2.reclaims := by
        rw [hreply]
        exact (List.mem_filter.mp hr).1
      rcases step_reclaims (@queue_step x.cfg x.schemas f.db now op hadm) with
        hnone | ⟨batch, skip, draw, -, hrows⟩
      · rw [hnone] at hin
        cases hin
      · rw [hrows] at hin
        obtain ⟨row, hrow, rfl⟩ := List.mem_map.mp hin
        exact ⟨row, (mem_expiredRows hrow).1, rfl, rfl⟩
  · cases hc

/-! ## Frames and credits -/

/-- A frame is of a task that is being delivered. -/
theorem Step.assigns (h : Step x f l f') {delivery : Nat} {task : ClaimedTask}
    (hm : .taskAssign delivery task ∈ f'.toWorker) :
    .taskAssign delivery task ∈ f.toWorker ∨ l = .send ∧ f.assigning.head? = some task := by
  -- a message that is not an assignment adds no frame
  have hother : ∀ {m : ToWorker}, (∀ n task, m ≠ .taskAssign n task) →
      .taskAssign delivery task ∈ f.toWorker ++ [m] → .taskAssign delivery task ∈ f.toWorker := by
    intro m hne hmem
    rcases List.mem_append.mp hmem with hold | hnew
    · exact hold
    · exact absurd (List.mem_singleton.mp hnew).symm (hne delivery task)
  cases h with
  | connect => cases hm
  | disconnect => cases hm
  | welcome => exact .inl (hother (fun _ _ => ToWorker.noConfusion) hm)
  | pushCancel => exact .inl (hother (fun _ _ => ToWorker.noConfusion) hm)
  | answer => exact .inl (hother (fun _ _ => ToWorker.noConfusion) hm)
  | send hassigning =>
      rcases List.mem_append.mp hm with hold | hnew
      · exact .inl hold
      · obtain ⟨-, rfl⟩ := ToWorker.taskAssign.inj (List.mem_singleton.mp hnew)
        exact .inr ⟨rfl, by rw [hassigning]; rfl⟩
  | @workerRead token m rest hfresh hhead hread =>
      obtain ⟨link', runner', toCoordinator', minted', started', heq⟩ :=
        workerRead_frame x { f with toWorker := rest } token m
      rw [heq] at hm
      exact .inl (hhead ▸ .tail _ hm)
  | finish htask hended hfinish =>
      obtain ⟨runner', m, rfl, -⟩ := finish_frame hfinish
      exact .inl hm
  | coordRead hfresh hs hidle hhead hread =>
      obtain ⟨db', session', handling', reported', rfl⟩ := coordRead_frame hread
      exact .inl hm
  | conclude hs hconclude =>
      obtain ⟨session', handling', reported', rfl⟩ := conclude_frame hconclude
      exact .inl hm
  | _ => exact .inl hm

/-- What is claimed and not delivered was claimed before, or by this step from the row. -/
theorem Step.claims (h : Step x f l f') {task : ClaimedTask} (htask : task ∈ f'.assigning) :
    task ∈ f.assigning ∨
      ∃ t ∈ f.db.tasks, t.id = task.id ∧ t.attemptCount = task.attemptCount := by
  cases h with
  | connect => cases htask
  | disconnect => cases htask
  | claim hs hidle hfree hdequeue =>
      obtain ⟨-, rfl⟩ := dequeue_eq_ok hdequeue
      obtain ⟨t, ht, rfl⟩ := List.mem_map.mp htask
      exact .inr ⟨t, (mem_claimedRows ht).1, rfl, rfl⟩
  | registerDelivery hs hassigning hsent => exact .inl (hassigning ▸ .tail _ htask)
  | @workerRead token m rest hfresh hhead hread =>
      obtain ⟨link', runner', toCoordinator', minted', started', heq⟩ :=
        workerRead_frame x { f with toWorker := rest } token m
      rw [heq] at htask
      exact .inl htask
  | finish hget hended hfinish =>
      obtain ⟨runner', m, rfl, -⟩ := finish_frame hfinish
      exact .inl htask
  | coordRead hfresh hs hidle hhead hread =>
      obtain ⟨db', session', handling', reported', rfl⟩ := coordRead_frame hread
      exact .inl htask
  | conclude hs hconclude =>
      obtain ⟨session', handling', reported', rfl⟩ := conclude_frame hconclude
      exact .inl htask
  | _ => exact .inl htask

/-- A handler of the read loop gives credits up and adds none. -/
theorem coordRead_shrinks {s : LocalSession} {now : Seconds} {due : Bool} {resultId : Uuid}
    {m : ToCoordinator} (hs : f.session = some s)
    (hread : f.coordRead x s now due resultId m = some f') :
    ∃ s', f'.session = some s' ∧ Shrinks s s' := by
  cases m with
  | taskAck taskId accepted reasonCode =>
      obtain rfl := Option.some.inj hread
      exact ⟨_, rfl, LocalSession.shrinks_handleTaskAck accepted reasonCode⟩
  | capacity taskId execution =>
      obtain rfl := Option.some.inj hread
      exact ⟨_, rfl, LocalSession.shrinks_handleCapacity 1⟩
  | _ =>
      obtain ⟨db', handling', rfl⟩ := coordRead_deferred rfl hread
      exact ⟨s, hs, LocalSession.shrinks_refl⟩

theorem conclude_shrinks {s : LocalSession} {handling : Handling}
    (hconclude : f.conclude s handling = some f') : ∃ s', f'.session = some s' ∧ Shrinks s s' := by
  cases handling with
  | failed taskId execution outcome =>
      obtain rfl := Option.some.inj hconclude
      exact ⟨_, rfl, LocalSession.shrinks_finishFailed outcome⟩
  | result envelope outcome =>
      obtain rfl := Option.some.inj hconclude
      exact ⟨_, rfl, LocalSession.shrinks_finishResult outcome⟩
  | idle | answering => cases hconclude

/-- The delivery that the step credits. -/
def registers (f : Fleet) : Label → Option ClaimedTask
  | .registerDelivery => f.assigning.head?
  | _ => none

theorem registers_eq_some {task : ClaimedTask} (h : f.registers l = some task) :
    l = .registerDelivery ∧ f.assigning.head? = some task := by
  cases l with
  | registerDelivery => exact ⟨rfl, h⟩
  | _ => cases h

/-- A key is of the delivery that this step credits, or of one that was credited before. -/
theorem Step.credits (h : Step x f l f') {s' : LocalSession}
    (hs' : f'.session = some s') {k : String}
    (hk : k ∈ s'.credited.keys) :
    (∃ task, f.registers l = some task ∧ k = task.id.str) ∨
      (∀ task, f.registers l = some task → k ≠ task.id.str) ∧
        ∃ s, f.session = some s ∧ k ∈ s.credited.keys := by
  have hold : ∀ {s : LocalSession}, f.session = some s → Shrinks s s' →
      (∀ task : ClaimedTask, none = some task → k ≠ task.id.str) ∧ ∃ s, f.session = some s ∧
        k ∈ s.credited.keys :=
    fun hs hshrinks => ⟨fun _ hnone => absurd hnone (Option.some_ne_none _).symm, _, hs,
      hshrinks.credited hk⟩
  have hsame : f.session = some s' →
      (∀ task : ClaimedTask, none = some task → k ≠ task.id.str) ∧ ∃ s, f.session = some s ∧
        k ∈ s.credited.keys :=
    fun hs => hold hs LocalSession.shrinks_refl
  cases h with
  | connect => cases hs'
  | disconnect => cases hs'
  | register =>
      obtain rfl := Option.some.inj hs'
      cases hk
  | recover hs =>
      obtain rfl := Option.some.inj hs'
      exact .inr (hold hs ⟨fun _ hk => hk, fun _ hk => hk, rfl⟩)
  | @registerDelivery s task rest hs hassigning hsent =>
      obtain rfl := Option.some.inj hs'
      have hregisters : f.registers .registerDelivery = some task := by
        rw [registers, hassigning]
        rfl
      by_cases hname : k = task.id.str
      · exact .inl ⟨task, hregisters, hname⟩
      · refine .inr ⟨fun task' htask' => ?_, s, hs, (Dict.mem_keys_set.mp hk).resolve_left hname⟩
        rw [Option.some.inj (htask'.symm.trans hregisters)]
        exact hname
  | @workerRead token m rest hfresh hhead hread =>
      obtain ⟨link', runner', toCoordinator', minted', started', heq⟩ :=
        workerRead_frame x { f with toWorker := rest } token m
      rw [heq] at hs'
      exact .inr (hsame hs')
  | finish hget hended hfinish =>
      obtain ⟨runner', m, rfl, -⟩ := finish_frame hfinish
      exact .inr (hsame hs')
  | @coordRead now due resultId s m rest _ hfresh hs hidle hhead hread =>
      obtain ⟨s'', hs'', hshrinks⟩ :=
        coordRead_shrinks (f := { f with toCoordinator := rest }) hs hread
      obtain rfl := Option.some.inj (hs''.symm.trans hs')
      exact .inr (hold hs hshrinks)
  | conclude hs hconclude =>
      obtain ⟨s'', hs'', hshrinks⟩ := conclude_shrinks hconclude
      obtain rfl := Option.some.inj (hs''.symm.trans hs')
      exact .inr (hold hs hshrinks)
  | _ => exact .inr (hsame hs')

/-! ## Executions and what they report -/

/-- What is being executed was being executed, or has a new token. -/
theorem Step.executing (h : Step x f l f') {r' : RunningTask} (hr' : r' ∈ f'.runner.running)
    (hended : r'.ended = false) :
    (∃ r ∈ f.runner.running, SameExecution r r' ∧ r.ended = false) ∨
    r'.idempotencyToken ∉ f.minted := by
  have hsame : ∀ {r}, r ∈ f.runner.running → r.ended = false →
      ∃ r₀ ∈ f.runner.running, SameExecution r₀ r ∧ r₀.ended = false :=
    fun hr hended => ⟨_, hr, ⟨rfl, rfl⟩, hended⟩
  cases h with
  | @workerRead token m rest hfresh hhead hread =>
      cases m with
      | helloAck => exact .inl (hsame hr' hended)
      | taskResultAck => exact .inl (hsame hr' hended)
      | taskCancel taskId =>
          obtain ⟨r, hr, rfl⟩ := (Table.mem_updateWhere RunningTask.setCancel_taskId).mp hr'
          refine .inl ⟨r, hr, ?_⟩
          split at hended
          · next hid =>
              rw [if_pos hid]
              exact ⟨⟨rfl, rfl⟩, hended⟩
          · next hid =>
              rw [if_neg hid]
              exact ⟨⟨rfl, rfl⟩, hended⟩
      | taskAssign delivery task =>
          cases hadmission : f.runner.admission x.worker task.id task.taskType with
          | unsupportedType | duplicate | atCapacity =>
              simp only [Fleet.workerRead, assign, hadmission] at hr'
              exact .inl (hsame hr' hended)
          | admitted =>
              have hnone := Table.get?_eq_none_iff.mp (admission_eq_admitted hadmission)
              simp only [Fleet.workerRead, assign, hadmission] at hr'
              rcases (Table.mem_insert hnone).mp hr' with hold | rfl
              · exact .inl (hsame hold hended)
              · exact .inr hfresh
  | @finish taskId ending task _ hget hnot hfinish =>
      obtain ⟨runner', m, rfl, hrunning⟩ := finish_frame hfinish
      have hr'' : r' ∈ (f.runner.endTask task.taskId).running := hrunning ▸ hr'
      obtain ⟨r, hr, rfl⟩ := (Table.mem_updateWhere RunningTask.setEnded_taskId).mp hr''
      split at hended
      -- the execution that has just ended
      · cases hended
      · next hid =>
          rw [if_neg hid]
          exact .inl (hsame hr hended)
  | release hget hnot => exact .inl (hsame (Table.mem_deleteWhere.mp hr').1 hended)
  | coordRead hfresh hs hidle hhead hread =>
      obtain ⟨db', session', handling', reported', rfl⟩ := coordRead_frame hread
      exact .inl (hsame hr' hended)
  | conclude hs hconclude =>
      obtain ⟨session', handling', reported', rfl⟩ := conclude_frame hconclude
      exact .inl (hsame hr' hended)
  | _ => exact .inl (hsame hr' hended)

/-- A `capacity` is sent by an execution that was running. -/
theorem Step.sentCapacity (h : Step x f l f') {taskId : Uuid} {execution : Token}
    (hm : .capacity taskId execution ∈ f'.toCoordinator) :
    .capacity taskId execution ∈ f.toCoordinator ∨ ∃ r ∈ f.runner.running,
      r.taskId = taskId ∧ r.idempotencyToken = execution ∧ r.ended = false := by
  cases h with
  | connect | disconnect => cases hm
  | @workerRead token m rest hfresh hhead hread =>
      cases m with
      | taskAssign delivery task =>
          simp only [Fleet.workerRead, assign] at hm
          split at hm
          · exact .inl ((of_mem_report hm).resolve_right ToCoordinator.noConfusion)
          · exact .inl ((of_mem_report hm).resolve_right ToCoordinator.noConfusion)
          · exact .inl ((of_mem_report hm).resolve_right ToCoordinator.noConfusion)
          · have hacked := (of_mem_report hm).resolve_right ToCoordinator.noConfusion
            exact .inl ((of_mem_report hacked).resolve_right ToCoordinator.noConfusion)
      | _ => exact .inl hm
  | progress => exact .inl ((of_mem_report hm).resolve_right ToCoordinator.noConfusion)
  | @finish id ending task f' hget hended hfinish =>
      cases ending with
      | returned result duration =>
          obtain ⟨envelope, henvelope, rfl⟩ := Option.map_eq_some_iff.mp hfinish
          exact .inl ((of_mem_report hm).resolve_right ToCoordinator.noConfusion)
      | raised errorType =>
          obtain rfl := Option.some.inj hfinish
          exact .inl ((of_mem_report hm).resolve_right ToCoordinator.noConfusion)
      | cancelled =>
          simp only [Fleet.finish] at hfinish
          split at hfinish <;> cases hfinish
          rcases of_mem_report hm with hold | hnew
          · exact .inl hold
          · obtain ⟨rfl, rfl⟩ := ToCoordinator.capacity.inj hnew
            exact .inr ⟨task, (Table.get?_eq_some_iff.mp hget).1, rfl, rfl, hended⟩
  | resubmit => exact .inl ((of_mem_report hm).resolve_right ToCoordinator.noConfusion)
  | coordRead hfresh hs hidle hhead hread =>
      obtain ⟨db', session', handling', reported', rfl⟩ := coordRead_frame hread
      exact .inl (hhead ▸ .tail _ hm)
  | conclude hs hconclude =>
      obtain ⟨session', handling', reported', rfl⟩ := conclude_frame hconclude
      exact .inl hm
  | _ => exact .inl hm

/-- An assignment is acknowledged for an execution of its task. -/
theorem Step.acknowledged {token : Token} (h : Step x f (.workerRead token) f') (hc : f.Coherent)
    {delivery : Nat} {task : ClaimedTask} {rest : List ToWorker}
    (hm : f.toWorker = .taskAssign delivery task :: rest) {execution : Token}
    (hack : f.acknowledges x token task = some execution) {r' : RunningTask}
    (hr' : r' ∈ f'.runner.running) (htoken : r'.idempotencyToken = execution) :
    r'.taskId = task.id := by
  unfold acknowledges at hack
  split at hack
  · obtain rfl := Option.some.inj hack
    rcases h.running hr' with ⟨r, hr, hid, hsame⟩ | ⟨delivery', task', hstarts⟩
    -- the token is new
    · cases h with
      | workerRead hfresh => exact absurd (hc.minted r hr) (by rwa [← hsame, htoken])
    · have hframe := hstarts.frame
      rw [hm] at hframe
      obtain ⟨-, rfl⟩ := ToWorker.taskAssign.inj (Option.some.inj hframe)
      exact hstarts.taskId
  · obtain ⟨r₀, hr₀, rfl⟩ := Option.map_eq_some_iff.mp hack
    obtain ⟨hr₀, hid₀⟩ := Table.get?_eq_some_iff.mp hr₀
    rcases h.running hr' with ⟨r, hr, hid, hsame⟩ | ⟨delivery', task', hstarts⟩
    · rw [hid, hc.distinct r hr r₀ hr₀ (hsame.symm.trans htoken), hid₀]
    · exact absurd (htoken ▸ hc.minted r₀ hr₀) hstarts.fresh
  · cases hack

/-- A `capacity` on the socket is of an execution that was, and names its task. -/
structure CapacityOf (f : Fleet) (taskId : Uuid) (execution : Token) : Prop where
  minted : execution ∈ f.minted
  task : ∀ r ∈ f.runner.running, r.idempotencyToken = execution → r.taskId = taskId

theorem Reachable.capacityOf (h : (fleet x).Reachable f) {taskId : Uuid} {execution : Token} :
    .capacity taskId execution ∈ f.toCoordinator → f.CapacityOf taskId execution := by
  refine h.invariant (P := fun f => .capacity taskId execution ∈ f.toCoordinator →
    f.CapacityOf taskId execution) ?_ ?_
  · rintro _ ⟨db, -, rfl⟩ hm
    cases hm
  · intro f l f' hreach hf hstep hm
    have hs := step_cases hstep
    have hc := Reachable.coherent hreach
    -- it was of the execution before the step
    have hbefore : f.CapacityOf taskId execution := by
      rcases hs.sentCapacity hm with hold | ⟨r, hr, hid, rfl, -⟩
      · exact hf hold
      · refine ⟨hc.minted r hr, fun r' hr' htoken => ?_⟩
        rw [hc.distinct r' hr' r hr htoken, hid]
    refine ⟨hs.ghosts.1 hbefore.minted, fun r' hr' htoken => ?_⟩
    rcases hs.running hr' with ⟨r, hr, hid, hsame⟩ | ⟨delivery, task, hstarts⟩
    · rw [hid]
      exact hbefore.task r hr (hsame.symm.trans htoken)
    · rw [← htoken] at hbefore
      exact absurd hbefore.minted hstarts.fresh

theorem unsettled_iff {taskId : Uuid} {execution : Token} : f.unsettled taskId execution = true ↔
    (∃ r ∈ f.runner.running, r.taskId = taskId ∧ r.idempotencyToken = execution ∧ r.ended = false) ∨
      .capacity taskId execution ∈ f.toCoordinator := by
  rw [unsettled, Bool.or_eq_true, Option.any_eq_true, List.any_eq_true]
  refine or_congr ⟨?_, ?_⟩ ⟨?_, ?_⟩
  · rintro ⟨r, hr, hthis⟩
    obtain ⟨hmem, hid⟩ := Table.get?_eq_some_iff.mp hr
    exact ⟨r, hmem, hid, by simpa using hthis⟩
  · rintro ⟨r, hr, rfl, rfl, hended⟩
    exact ⟨r, Table.get?_of_mem hr, by simp [hended]⟩
  · rintro ⟨m, hm, hthis⟩
    split at hthis
    · simp only [Bool.and_eq_true, decide_eq_true_eq] at hthis
      obtain ⟨rfl, rfl⟩ := hthis
      exact hm
    · cases hthis
  · intro hm
    exact ⟨_, hm, by simp⟩

/-- **Settled stays settled.** -/
theorem Step.unsettled (h : Step x f l f') {taskId : Uuid} {execution : Token}
    (hminted : execution ∈ f.minted) (hafter : f'.unsettled taskId execution = true) :
    f.unsettled taskId execution = true := by
  rw [unsettled_iff] at hafter ⊢
  rcases hafter with ⟨r', hr', rfl, rfl, hended⟩ | hm
  · rcases h.executing hr' hended with ⟨r, hr, ⟨hid, htoken⟩, hbefore⟩ | hnew
    · exact .inl ⟨r, hr, hid.symm, htoken.symm, hbefore⟩
    · exact absurd hminted hnew
  · rcases h.sentCapacity hm with hold | hrunning
    · exact .inr hold
    · exact .inl hrunning

/-- What is not settled of an execution is of its task. -/
theorem Reachable.unsettled_task (h : (fleet x).Reachable f) {taskId : Uuid} {r : RunningTask}
    (hr : r ∈ f.runner.running) (hunsettled : f.unsettled taskId r.idempotencyToken = true) :
    r.taskId = taskId := by
  rcases unsettled_iff.mp hunsettled with ⟨r', hr', hid, htoken, -⟩ | hm
  · rw [← (Reachable.coherent h).distinct r' hr' r hr htoken, hid]
  · exact (Reachable.capacityOf h hm).task r hr rfl

end Fleet

namespace Net

variable {x : Setting} {n n' : Net} {l : NetLabel}

/-! ## What a step records -/

theorem mem_pending {t : Uuid} {i : ℕ} : i ∈ n.pending t ↔ ⟨t, i⟩ ∈ n.underWay ∨
    ∃ execution, (execution, i) ∈ n.hit ∧ n.fleet.unsettled t execution = true := by
  simp only [pending, List.mem_append, List.mem_map, List.mem_filter, decide_eq_true_eq]
  refine or_congr ⟨?_, fun h => ⟨_, ⟨h, rfl⟩, rfl⟩⟩ ⟨?_, ?_⟩
  · rintro ⟨c, ⟨hc, rfl⟩, rfl⟩
    exact hc
  · rintro ⟨⟨execution, j⟩, hentry, rfl⟩
    exact ⟨execution, hentry⟩
  · rintro ⟨execution, hentry⟩
    exact ⟨(execution, i), hentry, rfl⟩

theorem mem_underWay {c : Cancel} :
    c ∈ n.underWay ↔ c ∈ n.owed ∨ c ∈ n.channel ∨ some c ∈ n.socket := by
  simp [underWay, List.reduceOption_mem_iff]

/-- Reading writes about executions only. -/
theorem read_frame (x : Setting) (n : Net) (token : Token) :
    ∃ accepted' hit', n.read x token = { n with accepted := accepted', hit := hit' } := by
  unfold read
  split <;> exact ⟨_, _, rfl⟩

/-- A cancel that a step of the fleet adds is one of its sweep. -/
theorem underWay_record {f : Fleet} {l : Label} {c : Cancel}
    (hc : c ∈ ({ n.record x l with fleet := f } : Net).underWay) :
    c ∈ n.underWay ∨ ∃ now op, l = .environment now op ∧ c ∈ n.fleet.issues x now op := by
  rw [mem_underWay] at hc ⊢
  -- the socket loses frames, or it has one more that is no cancel
  have htagged : ∀ {tags : List (Option Cancel)}, some c ∈ tags ++ [none] → some c ∈ tags := by
    intro tags hmem
    exact (List.mem_append.mp hmem).resolve_right (by simp)
  cases l with
  | environment now op =>
      rcases hc with howed | hrest
      · rcases List.mem_append.mp howed with hold | hnew
        · exact .inl (.inl hold)
        · exact .inr ⟨now, op, rfl, hnew⟩
      · exact .inl (.inr hrest)
  | connect | disconnect =>
      rcases hc with howed | hchannel | hsocket
      · exact .inl (.inl howed)
      · exact .inl (.inr (.inl hchannel))
      · cases hsocket
  | welcome | send | answer | pushCancel =>
      rcases hc with howed | hchannel | hsocket
      · exact .inl (.inl howed)
      · exact .inl (.inr (.inl hchannel))
      · exact .inl (.inr (.inr (htagged hsocket)))
  | workerRead token =>
      obtain ⟨accepted', hit', hread⟩ := read_frame x n token
      simp only [record, hread] at hc
      rcases hc with howed | hchannel | hsocket
      · exact .inl (.inl howed)
      · exact .inl (.inr (.inl hchannel))
      · exact .inl (.inr (.inr (List.mem_of_mem_tail hsocket)))
  | registerDelivery =>
      simp only [record] at hc
      split at hc <;> exact .inl hc
  | finish taskId ending => cases ending <;> exact .inl hc
  | _ => exact .inl hc

/-- An execution is acknowledged for the attempt of the frame that is read. -/
theorem accepted_record {l : Label} {execution : Token} {j : ℕ}
    (h : (execution, j) ∈ (n.record x l).accepted) :
    (execution, j) ∈ n.accepted ∨ ∃ token delivery task rest, l = .workerRead token ∧
      n.fleet.toWorker = .taskAssign delivery task :: rest ∧
      n.fleet.acknowledges x token task = some execution ∧ j = task.attemptCount := by
  cases l with
  | workerRead token =>
      simp only [record, read] at h
      split at h
      · next delivery task rest heq =>
          rcases List.mem_append.mp h with hold | hnew
          · exact .inl hold
          · obtain ⟨execution', hack, heq'⟩ := List.mem_map.mp hnew
            obtain ⟨rfl, rfl⟩ := Prod.mk.inj heq'
            exact .inr ⟨token, delivery, task, rest, rfl, heq, Option.mem_toList.mp hack, rfl⟩
      · exact .inl h
      · exact .inl h
  | registerDelivery =>
      simp only [record] at h
      split at h <;> exact .inl h
  | finish taskId ending => cases ending <;> exact .inl h
  | _ => exact .inl h

/-- An execution is hit by the cancel that is read. -/
theorem hit_record {l : Label} {execution : Token} {i : ℕ}
    (h : (execution, i) ∈ (n.record x l).hit) :
    (execution, i) ∈ n.hit ∨ ∃ token taskId rest c tags, l = .workerRead token ∧
      n.fleet.toWorker = .taskCancel taskId :: rest ∧ n.socket = some c :: tags ∧
      n.fleet.cancellable taskId = some execution ∧ i = c.attempt := by
  cases l with
  | workerRead token =>
      simp only [record, read] at h
      split at h
      · exact .inl h
      · next taskId rest c tags heq htags =>
          rcases List.mem_append.mp h with hold | hnew
          · exact .inl hold
          · obtain ⟨execution', hhit, heq'⟩ := List.mem_map.mp hnew
            obtain ⟨rfl, rfl⟩ := Prod.mk.inj heq'
            exact .inr ⟨token, taskId, rest, c, tags, rfl, heq, htags,
              Option.mem_toList.mp hhit, rfl⟩
      · exact .inl h
  | registerDelivery =>
      simp only [record] at h
      split at h <;> exact .inl h
  | finish taskId ending => cases ending <;> exact .inl h
  | _ => exact .inl h

/-- The credit of a task is of the delivery that is registered. -/
theorem credit_record (x : Setting) (n : Net) (l : Label) (t : Uuid) : (n.record x l).credit t =
    match n.fleet.registers l with
    | some task => if t = task.id then task.attemptCount else n.credit t
    | none => n.credit t := by
  cases l with
  | workerRead token =>
      simp only [record, read, Fleet.registers]
      split <;> rfl
  | registerDelivery =>
      simp only [record, Fleet.registers]
      cases n.fleet.assigning with
      | nil => rfl
      | cons task rest => exact Function.update_apply _ _ _ _
  | finish taskId ending => cases ending <;> rfl
  | _ => rfl

theorem stopped_record {l : Label} {s : Strike} (h : s ∈ (n.record x l).stopped) :
    s ∈ n.stopped ∨ ∃ taskId, l = .finish taskId .cancelled ∧ s ∈ n.stops taskId := by
  cases l with
  | workerRead token =>
      simp only [record, read] at h
      split at h <;> exact .inl h
  | registerDelivery =>
      simp only [record] at h
      split at h <;> exact .inl h
  | finish taskId ending =>
      cases ending with
      | cancelled =>
          rcases List.mem_append.mp h with hold | hnew
          · exact .inl hold
          · exact .inr ⟨taskId, rfl, hnew⟩
      | returned | raised => exact .inl h
  | _ => exact .inl h

theorem released_record {l : Label} {s : Strike} (h : s ∈ (n.record x l).released) :
    s ∈ n.released ∨ s ∈ n.releases := by
  cases l with
  | workerRead token =>
      simp only [record, read] at h
      split at h <;> exact .inl h
  | registerDelivery =>
      simp only [record] at h
      split at h <;> exact .inl h
  | finish taskId ending => cases ending <;> exact .inl h
  | coordRead => exact List.mem_append.mp h
  | _ => exact .inl h

/-! ## What is entrusted -/

/-- The attempts of a task that the worker has. -/
inductive Entrusted (n : Net) (t : Uuid) : ℕ → Prop
  | accepted {r : RunningTask} {j : ℕ} (hr : r ∈ n.fleet.runner.running) (hid : r.taskId = t)
      (hj : (r.idempotencyToken, j) ∈ n.accepted) : Entrusted n t j
  | credited {s : LocalSession} (hs : n.fleet.session = some s) (hkey : t.str ∈ s.credited.keys) :
      Entrusted n t (n.credit t)

/-- The assignment that the worker accepts in the step, or the session credits. -/
def taking (x : Setting) (n : Net) : NetLabel → Option ClaimedTask
  | .fleet (.workerRead token) =>
      match n.fleet.toWorker with
      | .taskAssign _ task :: _ =>
          if (n.fleet.acknowledges x token task).isSome then some task else none
      | _ => none
  | .fleet .registerDelivery => n.fleet.assigning.head?
  | _ => none

/-- It is of the attempt. -/
def Takes (x : Setting) (n : Net) (t : Uuid) (j : ℕ) (l : NetLabel) : Prop :=
  ∃ task, n.taking x l = some task ∧ task.id = t ∧ task.attemptCount = j

/-- What holds of the books of every reachable net. -/
structure Tidy (n : Net) : Prop where
  /-- The tags shadow the socket. -/
  tags : List.Forall₂ (fun m tag => ∀ c, tag = some c → m = ToWorker.taskCancel c.taskId)
    n.fleet.toWorker n.socket
  accepted : ∀ execution j, (execution, j) ∈ n.accepted → execution ∈ n.fleet.minted
  hit : ∀ execution i, (execution, i) ∈ n.hit → execution ∈ n.fleet.minted
  assigning : ∀ task ∈ n.fleet.assigning, n.fleet.db.Reached task.id task.attemptCount
  frames : ∀ delivery task, .taskAssign delivery task ∈ n.fleet.toWorker →
    n.fleet.db.Reached task.id task.attemptCount
  entrusted : ∀ t j, n.Entrusted t j → n.fleet.db.Reached t j

theorem Tidy.tags_record (h : n.Tidy) {l : Label} {f : Fleet} (hs : Fleet.Step x n.fleet l f) :
    List.Forall₂ (fun m tag => ∀ c, tag = some c → m = ToWorker.taskCancel c.taskId) f.toWorker
      (n.record x l).socket := by
  have hadd : ∀ {m : ToWorker},
      List.Forall₂ (fun m tag => ∀ c, tag = some c → m = ToWorker.taskCancel c.taskId)
      (n.fleet.toWorker ++ [m]) (n.socket ++ [none]) := by
    intro m
    exact List.rel_append h.tags
      (.cons (fun _ hnone => absurd hnone (Option.some_ne_none _).symm) .nil)
  cases hs with
  | connect => exact .nil
  | disconnect => exact .nil
  | welcome => exact hadd
  | send => exact hadd
  | pushCancel => exact hadd
  | answer => exact hadd
  | registerDelivery hs hassigning =>
      simp only [record, hassigning]
      exact h.tags
  | @workerRead token m rest hfresh hhead hread =>
      obtain ⟨link', runner', toCoordinator', minted', started', heq⟩ :=
        Fleet.workerRead_frame x { n.fleet with toWorker := rest } token m
      obtain ⟨accepted', hit', hread'⟩ := read_frame x n token
      have htags := h.tags
      rw [hhead] at htags
      rw [heq]
      simp only [record]
      cases hsocket : n.socket with
      | nil => rw [hsocket] at htags; cases htags
      | cons tag tags =>
          rw [hsocket] at htags
          exact (List.forall₂_cons.mp htags).2
  | @finish taskId ending task _ hget hended hfinish =>
      obtain ⟨runner', m, rfl, -⟩ := Fleet.finish_frame hfinish
      cases ending <;> exact h.tags
  | coordRead hfresh hs hidle hhead hread =>
      obtain ⟨db', session', handling', reported', rfl⟩ := Fleet.coordRead_frame hread
      exact h.tags
  | conclude hs hconclude =>
      obtain ⟨session', handling', reported', rfl⟩ := Fleet.conclude_frame hconclude
      exact h.tags
  | _ => exact h.tags

/-- **What a step of the fleet entrusts is what it takes.** -/
theorem Tidy.entrusted_record (h : n.Tidy) (hreach : (Model.fleet x).Reachable n.fleet) {l : Label}
    {f : Fleet} (hs : Fleet.Step x n.fleet l f) {t : Uuid} {j : ℕ}
    (hj : Entrusted { n.record x l with fleet := f } t j) :
    n.Entrusted t j ∨ n.Takes x t j (.fleet l) := by
  have hc := Fleet.Reachable.coherent hreach
  cases hj with
  | @accepted r' j hr' hid hj =>
      rcases accepted_record hj with hold | ⟨token, delivery, task, rest, rfl, hm, hack, rfl⟩
      · refine .inl ?_
        rcases hs.running hr' with ⟨r, hr, hid', htoken⟩ | ⟨delivery, task, hstarts⟩
        · exact .accepted hr (hid'.symm.trans hid) (htoken ▸ hold)
        -- a new execution has no past
        · exact absurd (h.accepted _ _ hold) hstarts.fresh
      · refine .inr ⟨task, ?_, (hs.acknowledged hc hm hack hr' rfl).symm.trans hid, rfl⟩
        simp only [taking, hm, hack, Option.isSome_some, if_true]
  | @credited s hsession hkey =>
      show n.Entrusted t ((n.record x l).credit t) ∨ _
      rw [credit_record]
      rcases hs.credits hsession hkey with ⟨task, hregisters, hname⟩ | ⟨hother, s₀, hs₀, hkey₀⟩
      · obtain rfl := Uuid.str_inj.mp hname
        simp only [hregisters, if_pos]
        obtain ⟨rfl, hhead⟩ := Fleet.registers_eq_some hregisters
        exact .inr ⟨task, hhead, rfl, rfl⟩
      · cases hregisters : n.fleet.registers l with
        | none => exact .inl (.credited hs₀ hkey₀)
        | some task =>
            have hne : t ≠ task.id := fun hid => hother task hregisters (by rw [hid])
            simp only [if_neg hne]
            exact .inl (.credited hs₀ hkey₀)

theorem Tidy.accepted_record (h : n.Tidy) (hc : n.fleet.Coherent) {l : Label} {f : Fleet}
    (hs : Fleet.Step x n.fleet l f) {execution : Token} {j : ℕ}
    (hj : (execution, j) ∈ (n.record x l).accepted) : execution ∈ f.minted := by
  rcases Net.accepted_record hj with hold | ⟨token, delivery, task, rest, rfl, hm, hack, -⟩
  · exact hs.ghosts.1 (h.accepted _ _ hold)
  · have hmint := hs.ghosts.1
    unfold Fleet.acknowledges at hack
    split at hack
    · next hadmitted =>
        obtain rfl := Option.some.inj hack
        cases hs with
        | workerRead hfresh hhead hread =>
            obtain ⟨rfl, rfl⟩ := List.cons.inj (hm.symm.trans hhead)
            have hadmitted' : ({ n.fleet with toWorker := rest } : Fleet).runner.admission x.worker
                task.id task.taskType = .admitted := hadmitted
            simp only [Fleet.workerRead, Fleet.assign, hadmitted']
            exact List.mem_cons_self
    · obtain ⟨r, hr, rfl⟩ := Option.map_eq_some_iff.mp hack
      exact hmint (hc.minted r (Table.get?_eq_some_iff.mp hr).1)
    · cases hack

theorem cancellable_eq_some {f : Fleet} {taskId : Uuid} {execution : Token}
    (h : f.cancellable taskId = some execution) :
    ∃ r ∈ f.runner.running, r.taskId = taskId ∧ r.idempotencyToken = execution := by
  obtain ⟨r, hr, rfl⟩ := Option.map_eq_some_iff.mp h
  obtain ⟨hmem, hid⟩ := Table.get?_eq_some_iff.mp (Option.filter_eq_some_iff.mp hr).1
  exact ⟨r, hmem, hid, rfl⟩

theorem Tidy.hit_record (h : n.Tidy) (hc : n.fleet.Coherent) {l : Label} {f : Fleet}
    (hs : Fleet.Step x n.fleet l f) {execution : Token} {i : ℕ}
    (hi : (execution, i) ∈ (n.record x l).hit) : execution ∈ f.minted := by
  refine hs.ghosts.1 ?_
  rcases Net.hit_record hi with hold | ⟨token, taskId, rest, c, tags, -, -, -, hhit, -⟩
  · exact h.hit _ _ hold
  · obtain ⟨r, hr, -, rfl⟩ := cancellable_eq_some hhit
    exact hc.minted r hr

/-- What is taken is not ahead of its row. -/
theorem Tidy.reached_of_takes (h : n.Tidy) {t : Uuid} {j : ℕ} (ht : n.Takes x t j l) :
    n.fleet.db.Reached t j := by
  obtain ⟨task, htask, rfl, rfl⟩ := ht
  unfold taking at htask
  split at htask
  · split at htask
    · next delivery task' rest hm =>
        split at htask
        · obtain rfl := Option.some.inj htask
          exact h.frames delivery task' (hm ▸ List.mem_cons_self)
        · cases htask
    · cases htask
  · exact h.assigning task (List.mem_of_head? htask)
  · cases htask

/-- **A step of the fleet keeps the books.** -/
theorem Tidy.record (h : n.Tidy) (hreach : (Model.fleet x).Reachable n.fleet)
    {l : Label} {f : Fleet}
    (hs : Fleet.Step x n.fleet l f) : Tidy { n.record x l with fleet := f } := by
  have hqueue := Fleet.Reachable.queue hreach
  have hc := Fleet.Reachable.coherent hreach
  refine ⟨h.tags_record hs, fun _ _ => h.accepted_record hc hs,
    fun _ _ => h.hit_record hc hs, ?_, ?_, ?_⟩
  · intro task htask
    refine hs.reached hqueue ?_
    rcases hs.claims htask with hold | ⟨row, hrow, hid, hattempt⟩
    · exact h.assigning task hold
    · exact ⟨row, hrow, hid, hattempt.ge⟩
  · intro delivery task hm
    refine hs.reached hqueue ?_
    rcases hs.assigns hm with hold | ⟨-, hhead⟩
    · exact h.frames delivery task hold
    · exact h.assigning task (List.mem_of_head? hhead)
  · intro t j hj
    refine hs.reached hqueue ?_
    rcases h.entrusted_record hreach hs hj with hold | htakes
    · exact h.entrusted t j hold
    · exact h.reached_of_takes htakes

/-- What is entrusted is a matter of the fleet and two of the books. -/
theorem Entrusted.congr {t : Uuid} {j : ℕ} (h : n.Entrusted t j) (hfleet : n'.fleet = n.fleet)
    (haccepted : n'.accepted = n.accepted) (hcredit : n'.credit = n.credit) : n'.Entrusted t j := by
  cases h with
  | accepted hr hid hj => exact .accepted (hfleet ▸ hr) hid (haccepted ▸ hj)
  | credited hs hkey => exact hcredit ▸ .credited (hfleet ▸ hs) hkey

/-- **What is entrusted was taken.** -/
theorem Step.entrusted (h : Step x n l n') (htidy : n.Tidy)
    (hreach : (Model.fleet x).Reachable n.fleet)
    {t : Uuid} {j : ℕ} (hj : n'.Entrusted t j) : n.Entrusted t j ∨ n.Takes x t j l := by
  cases h with
  | fleet hstep => exact htidy.entrusted_record hreach (Fleet.step_cases hstep) hj
  | publish => exact .inl (hj.congr rfl rfl rfl)
  | @deliver c rest f hchannel hstep =>
      -- but for its tag, the frame of a push
      have hpushed : Entrusted { n.record x (.pushCancel c.taskId) with fleet := f } t j :=
        hj.congr rfl rfl rfl
      rcases htidy.entrusted_record hreach (Fleet.step_cases hstep) hpushed
        with hold | ⟨task, htask, -⟩
      · exact .inl hold
      · cases htask
  | lose => exact .inl (hj.congr rfl rfl rfl)

theorem Tidy.step (h : n.Tidy) (hreach : (Model.fleet x).Reachable n.fleet) (hs : Step x n l n') :
    n'.Tidy := by
  cases hs with
  | fleet hstep => exact h.record hreach (Fleet.step_cases hstep)
  | publish =>
      exact ⟨h.tags, h.accepted, h.hit, h.assigning, h.frames, fun t j hj =>
        h.entrusted t j (hj.congr rfl rfl rfl)⟩
  | @deliver c rest f hchannel hstep =>
      have hpushed := h.record hreach (Fleet.step_cases hstep)
      refine ⟨?_, hpushed.accepted, hpushed.hit, hpushed.assigning, hpushed.frames, fun t j hj =>
        hpushed.entrusted t j (hj.congr rfl rfl rfl)⟩
      cases Fleet.step_cases hstep with
      | pushCancel hepoch =>
          refine List.rel_append h.tags (.cons (fun c' hc' => ?_) .nil)
          rw [Option.some.inj hc']
  | lose =>
      exact ⟨h.tags, h.accepted, h.hit, h.assigning, h.frames, fun t j hj =>
        h.entrusted t j (hj.congr rfl rfl rfl)⟩

/-- The books of every reachable net. -/
theorem Reachable.tidy (h : (net x).Reachable n) : n.Tidy := by
  refine h.invariant (P := Tidy) ?_ ?_
  · rintro _ ⟨_, ⟨db, -, rfl⟩, rfl⟩
    refine ⟨.nil, fun _ _ h => (by cases h), fun _ _ h => (by cases h), fun _ h => (by cases h),
      fun _ _ h => (by cases h), ?_⟩
    intro t j hj
    cases hj with
    | accepted hr => exact absurd hr (Table.not_mem_empty _)
    | credited hs => cases hs
  · intro n l n' hreach hn hstep
    exact hn.step (Reachable.fleet hreach) (step_cases hstep)

/-! ## What is pending -/

/-- The step is a sweep that takes the attempt back. -/
def Reclaims (n : Net) (t : Uuid) (i : ℕ) (l : NetLabel) : Prop :=
  (∃ now op, l = .fleet (.environment now op)) ∧ ∃ row ∈ n.fleet.db.tasks,
    row.id = t ∧ row.attemptCount = i

theorem Tidy.pending_record (h : n.Tidy) (hreach : (Model.fleet x).Reachable n.fleet) {l : Label}
    {f : Fleet} (hstep : (Model.fleet x).step n.fleet l f) {t : Uuid} {i : ℕ}
    (hi : i ∈ ({ n.record x l with fleet := f } : Net).pending t) :
    i ∈ n.pending t ∨ n.Reclaims t i (.fleet l) := by
  have hs := Fleet.step_cases hstep
  rw [mem_pending] at hi ⊢
  rcases hi with hunder | ⟨execution, hhit, hunsettled⟩
  · rcases underWay_record hunder with hold | ⟨now, op, rfl, hissued⟩
    · exact .inl (.inl hold)
    · exact .inr ⟨⟨now, op, rfl⟩, Fleet.mem_issues hstep.1 hissued⟩
  · rcases Net.hit_record hhit with hold | ⟨token, taskId, rest, c, tags, rfl, hm, htags, hnew, rfl⟩
    · exact .inl (.inr ⟨execution, hold, hs.unsettled (h.hit _ _ hold) hunsettled⟩)
    · -- the cancel that is read was under way, and names the task of the execution
      obtain ⟨r, hr, rfl, rfl⟩ := cancellable_eq_some hnew
      have hbefore := hs.unsettled ((Fleet.Reachable.coherent hreach).minted r hr) hunsettled
      have hid := Fleet.Reachable.unsettled_task hreach hr hbefore
      have hhead := h.tags
      rw [hm, htags] at hhead
      have hname := ToWorker.taskCancel.inj ((List.forall₂_cons.mp hhead).1 c rfl)
      refine .inl (.inl (mem_underWay.mpr (.inr (.inr ?_))))
      rw [htags, ← hid, hname]
      exact List.mem_cons_self

/-- **What is pending was reclaimed.** -/
theorem Step.pending (h : Step x n l n') (htidy : n.Tidy)
    (hreach : (Model.fleet x).Reachable n.fleet)
    {t : Uuid} {i : ℕ} (hi : i ∈ n'.pending t) : i ∈ n.pending t ∨ n.Reclaims t i l := by
  cases h with
  | fleet hstep => exact htidy.pending_record hreach hstep hi
  | @publish k c hc =>
      rw [mem_pending] at hi ⊢
      refine .inl (hi.imp_left fun hunder => ?_)
      rw [mem_underWay] at hunder ⊢
      rcases hunder with howed | hchannel | hsocket
      · exact .inl (List.mem_of_mem_eraseIdx howed)
      · rcases List.mem_append.mp hchannel with hold | hnew
        · exact .inr (.inl hold)
        · rw [List.mem_singleton.mp hnew]
          exact .inl (List.mem_of_getElem? hc)
      · exact .inr (.inr hsocket)
  | @deliver c rest f hchannel hstep =>
      rw [mem_pending] at hi ⊢
      rcases hi with hunder | ⟨execution, hhit, hunsettled⟩
      · refine .inl (.inl ?_)
        rw [mem_underWay] at hunder ⊢
        rw [hchannel]
        rcases hunder with howed | hrest | hsocket
        · exact .inl howed
        · exact .inr (.inl (List.mem_cons_of_mem c hrest))
        · rcases List.mem_append.mp hsocket with hold | hnew
          · exact .inr (.inr hold)
          · obtain rfl := Option.some.inj (List.mem_singleton.mp hnew)
            exact .inr (.inl List.mem_cons_self)
      · have hbefore := (Fleet.step_cases hstep).unsettled (htidy.hit _ _ hhit) hunsettled
        exact .inl (.inr ⟨execution, hhit, hbefore⟩)
  | @lose c rest hchannel =>
      rw [mem_pending] at hi ⊢
      refine .inl (hi.imp_left fun hunder => ?_)
      rw [mem_underWay] at hunder ⊢
      rw [hchannel]
      exact hunder.imp_right (Or.imp_left (List.mem_cons_of_mem c))

end Net

end TaskFleet.Model
