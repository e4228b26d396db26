import TaskFleet.Model.Fleet

/-!
# What the steps of the fleet share

* **the queue** — whatever the worker and its session do to the database is an
  operation of the queue, so the database of a reachable fleet is a reachable
  one (`Reachable.queue`);
* **the executions** — an execution keeps its token, and no two share one;
* **the frames** — at most the newest frame is on the socket before its
  delivery is registered (`Reachable.coherent`).
-/

namespace TaskFleet.Model

open Py

namespace Fleet

variable {x : Setting} {f f' : Fleet} {l : Label}

/-! ## What the compound steps leave alone -/

/-- A report adds its own message at most. -/
theorem of_mem_report {m m' : ToCoordinator} (h : m ∈ (f.report m').toCoordinator) :
    m ∈ f.toCoordinator ∨ m' = m := by
  rcases List.mem_append.mp h with hold | hnew
  · exact .inl hold
  · split at hnew
    · exact .inr (List.mem_singleton.mp hnew).symm
    · cases hnew

/-- An execution that ends leaves the fleet but for the runner, and sends one
report. -/
theorem finish_frame {task : RunningTask} {ending : Ending} (h : f.finish x task ending = some f') :
    ∃ runner' m, f' = { f with runner := runner' }.report m ∧
      runner'.running = (f.runner.endTask task.taskId).running := by
  cases ending with
  | returned result duration =>
      obtain ⟨envelope, -, rfl⟩ := Option.map_eq_some_iff.mp h
      exact ⟨_, _, rfl, rfl⟩
  | raised errorType =>
      obtain rfl := Option.some.inj h
      exact ⟨_, _, rfl, rfl⟩
  | cancelled =>
      simp only [finish] at h
      split at h
      · obtain rfl := Option.some.inj h
        exact ⟨_, _, rfl, rfl⟩
      · cases h

/-- A result that the loop survives reading was decided on. -/
theorem coordRead_result {s : LocalSession} {now : Seconds} {due : Bool} {resultId : Uuid}
    {result : WorkerResult}
    (h : f.coordRead x s now due resultId (.taskResult result) = some f') :
    ∃ envelope, validate x.floats result.payload x.cfg.taskResultMaxBytes = .ok envelope ∧
      f' = { f with
        db := (completeTask f.db now envelope x.workerId resultId).1
        handling := .result envelope (completeTask f.db now envelope x.workerId resultId).2 } := by
  simp only [coordRead] at h
  cases hvalid : validate x.floats result.payload x.cfg.taskResultMaxBytes with
  | error e =>
      rw [hvalid] at h
      cases h
  | ok envelope =>
      simp only [hvalid, Option.ite_none_left_eq_some] at h
      exact ⟨envelope, rfl, (Option.some.inj h.2).symm⟩

/-- The read loop touches the coordinator's side only. -/
theorem coordRead_frame {s : LocalSession} {now : Seconds} {due : Bool} {resultId : Uuid}
    {m : ToCoordinator} (h : f.coordRead x s now due resultId m = some f') :
    ∃ db' session' handling' reported', f' = { f with
      db := db', session := session', handling := handling', reported := reported' } := by
  cases m with
  | taskResult result =>
      obtain ⟨envelope, -, rfl⟩ := coordRead_result h
      exact ⟨_, _, _, _, rfl⟩
  | _ =>
      obtain rfl := Option.some.inj h
      exact ⟨_, _, _, _, rfl⟩

/-- The message is one the read loop acts on at once. -/
def immediate : ToCoordinator → Bool
  | .taskAck _ _ _ | .capacity _ _ => true
  | _ => false

/-- Any other message changes the database and what is being handled. -/
theorem coordRead_deferred {s : LocalSession} {now : Seconds} {due : Bool} {resultId : Uuid}
    {m : ToCoordinator} (hm : immediate m = false)
    (h : f.coordRead x s now due resultId m = some f') :
    ∃ db' handling', f' = { f with db := db', handling := handling' } := by
  cases m with
  | taskAck => cases hm
  | capacity => cases hm
  | taskResult result =>
      obtain ⟨envelope, -, rfl⟩ := coordRead_result h
      exact ⟨_, _, rfl⟩
  | _ =>
      obtain rfl := Option.some.inj h
      exact ⟨_, _, rfl⟩

theorem conclude_frame {s : LocalSession} {h : Handling} (hc : f.conclude s h = some f') :
    ∃ session' handling' reported', f' = { f with
      session := session', handling := handling', reported := reported' } := by
  cases h with
  | failed | result =>
      obtain rfl := Option.some.inj hc
      exact ⟨_, _, _, rfl⟩
  | idle | answering => cases hc

/-- The worker touches its own side only. -/
theorem workerRead_frame (x : Setting) (f : Fleet) (token : Token) (m : ToWorker) :
    ∃ link' runner' toCoordinator' minted' started', f.workerRead x token m = { f with
      link := link', runner := runner', toCoordinator := toCoordinator', minted := minted'
      started := started' } := by
  cases m with
  | taskAssign delivery task =>
      simp only [workerRead, assign]
      split <;> exact ⟨_, _, _, _, _, rfl⟩
  | _ => exact ⟨_, _, _, _, _, rfl⟩

/-! ## The queue -/

/-- The database changed by one operation of the queue, or not at all. -/
def QueueMove (x : Setting) (db db' : Db) : Prop :=
  db' = db ∨ ∃ e, (queue x.cfg x.schemas).step db e db'

/-- A transaction is such a change. -/
theorem QueueMove.of_op {db : Db} {now : Seconds} (op : Op) (hadm : op.Admissible db) :
    QueueMove x db (apply x.cfg x.schemas db now op).1 :=
  .inr ⟨_, queue_step hadm⟩

theorem QueueMove.renewIfDue {db : Db} {now : Seconds} {due : Bool} {s : LocalSession}
    {taskId : String} : QueueMove x db (renewIfDue x.cfg db now due s taskId) := by
  unfold Model.renewIfDue
  split
  · have hmove : QueueMove x db (apply x.cfg x.schemas db now (.renewLease taskId s.workerId)).1 :=
      .of_op _ trivial
    simpa only [apply] using hmove
  · exact .inl rfl

theorem coordRead_queueMove {s : LocalSession} {now : Seconds} {due : Bool} {resultId : Uuid}
    {m : ToCoordinator} (hfresh : f.db.results.get? resultId = none)
    (h : f.coordRead x s now due resultId m = some f') : QueueMove x f.db f'.db := by
  cases m with
  | taskAck taskId accepted reasonCode =>
      obtain rfl := Option.some.inj h
      dsimp only
      split
      · exact .renewIfDue
      · exact .inl rfl
  | taskStarted taskId =>
      obtain rfl := Option.some.inj h
      exact QueueMove.of_op (.start taskId.str x.workerId) trivial
  | taskProgress taskId =>
      obtain rfl := Option.some.inj h
      exact .renewIfDue
  | capacity taskId execution =>
      obtain rfl := Option.some.inj h
      exact .inl rfl
  | taskFailed taskId errorType correlationId execution =>
      obtain rfl := Option.some.inj h
      exact QueueMove.of_op (.fail taskId.str x.workerId errorType correlationId) trivial
  | taskResult result =>
      obtain ⟨envelope, -, rfl⟩ := coordRead_result h
      exact QueueMove.of_op (.complete envelope x.workerId resultId) hfresh

/-- **The fleet drives the queue.** -/
theorem Step.queueMove (h : Step x f l f') : QueueMove x f.db f'.db := by
  cases h with
  | environment hadm => exact .of_op _ hadm
  | @recover now s hs =>
      exact QueueMove.of_op (.renewWorkerLeases x.workerId) trivial
  | @claim now skip s db' rows hs hidle hfree hdequeue =>
      refine .inr ⟨⟨now, .dequeue x.workerId (min s.freeCredits x.cfg.taskDequeueMaxBatch)
        x.cfg.taskDequeueMaxBatch (some s.supportedTaskTypes) skip, .claimed rows⟩, trivial, ?_⟩
      simp only [apply, hdequeue]
  | @workerRead token m rest hfresh hm hread =>
      obtain ⟨link', runner', toCoordinator', minted', started', heq⟩ :=
        workerRead_frame x { f with toWorker := rest } token m
      rw [heq]
      exact .inl rfl
  | finish htask hended hfinish =>
      obtain ⟨runner', m, rfl, -⟩ := finish_frame hfinish
      exact .inl rfl
  | @coordRead now due resultId s m rest _ hfresh hs hidle hm hread =>
      exact coordRead_queueMove (f := { f with toCoordinator := rest }) hfresh hread
  | conclude hs hconclude =>
      obtain ⟨session', handling', reported', rfl⟩ := conclude_frame hconclude
      exact .inl rfl
  | _ => exact .inl rfl

/-- Whatever holds of every reachable database holds of the fleet's. -/
theorem Reachable.queue (h : (fleet x).Reachable f) : (queue x.cfg x.schemas).Reachable f.db := by
  refine h.invariant (P := fun f => (Model.queue x.cfg x.schemas).Reachable f.db) ?_ ?_
  · rintro _ ⟨db, hdb, rfl⟩
    exact (System.Run.nil hdb).reachable
  · intro f l f' _ ih hstep
    rcases (step_cases hstep).queueMove with heq | ⟨e, he⟩
    · rwa [heq]
    · obtain ⟨es, hrun⟩ := ih
      exact (hrun.snoc he).reachable

/-! ## The executions -/

/-- The entry is the same execution, whatever its flags say. -/
def SameExecution (r r' : RunningTask) : Prop :=
  r'.taskId = r.taskId ∧ r'.idempotencyToken = r.idempotencyToken

/-- The entry with its two flags as they are now. -/
def Flagged (r r' : RunningTask) : Prop :=
  r' = { r with cancel := r'.cancel, ended := r'.ended }

theorem Flagged.refl (r : RunningTask) : Flagged r r := rfl

theorem Flagged.same {r r' : RunningTask} (h : Flagged r r') : SameExecution r r' := by
  rw [h]
  exact ⟨rfl, rfl⟩

theorem Flagged.attempt {r r' : RunningTask} (h : Flagged r r') : r'.attempt = r.attempt := by
  rw [h]

theorem mem_handleCancel {r : TaskRunner} {taskId : Uuid} {t' : RunningTask}
    (h : t' ∈ (r.handleCancel taskId).running) : ∃ t ∈ r.running, Flagged t t' := by
  obtain ⟨t, ht, rfl⟩ := (Table.mem_updateWhere RunningTask.setCancel_taskId).mp h
  refine ⟨t, ht, ?_⟩
  split <;> rfl

theorem mem_endTask {r : TaskRunner} {taskId : Uuid} {t' : RunningTask}
    (h : t' ∈ (r.endTask taskId).running) : ∃ t ∈ r.running, Flagged t t' := by
  obtain ⟨t, ht, rfl⟩ := (Table.mem_updateWhere RunningTask.setEnded_taskId).mp h
  refine ⟨t, ht, ?_⟩
  split <;> rfl

theorem admission_eq_admitted {wc : WorkerConfig} {r : TaskRunner} {taskId : Uuid}
    {taskType : TaskType}
    (h : r.admission wc taskId taskType = .admitted) : r.running.get? taskId = none := by
  unfold TaskRunner.admission at h
  split at h
  · cases h
  split at h
  · cases h
  next hrunning => exact Option.not_isSome_iff_eq_none.mp hrunning

/-- The execution a frame starts. -/
structure Starts (f : Fleet) (l : Label) (f' : Fleet) (r' : RunningTask) (delivery : Nat)
    (task : ClaimedTask) : Prop where
  label : l = .workerRead r'.idempotencyToken
  frame : f.toWorker.head? = some (.taskAssign delivery task)
  taskId : r'.taskId = task.id
  fresh : r'.idempotencyToken ∉ f.minted
  minted : f'.minted = r'.idempotencyToken :: f.minted
  started : f'.started = insert (r'.idempotencyToken, task.id.str) f.started

/-- **Executions come from frames.** What runs after a step ran before, or was
started by the frame just read, which was admitted, with the attempt it carries. -/
theorem Step.running_flagged (h : Step x f l f') {r' : RunningTask} (hr' : r' ∈ f'.runner.running) :
    (∃ r ∈ f.runner.running, Flagged r r') ∨
      ∃ delivery task, Starts f l f' r' delivery task ∧
        f.runner.admission x.worker task.id task.taskType = .admitted ∧
        r'.attempt = task.attemptCount := by
  have hsame : ∀ {r}, r ∈ f.runner.running → ∃ r₀ ∈ f.runner.running, Flagged r₀ r :=
    fun hr => ⟨_, hr, .refl _⟩
  cases h with
  | @workerRead token m rest hfresh hm hread =>
      cases m with
      | helloAck => exact .inl (hsame hr')
      | taskResultAck => exact .inl (hsame hr')
      | taskCancel => exact .inl (mem_handleCancel hr')
      | taskAssign delivery task =>
          cases hadmission : f.runner.admission x.worker task.id task.taskType with
          -- an assignment that is not admitted starts nothing
          | unsupportedType | duplicate | atCapacity =>
              simp only [Fleet.workerRead, assign, hadmission] at hr'
              exact .inl (hsame hr')
          | admitted =>
              have hnone := Table.get?_eq_none_iff.mp (admission_eq_admitted hadmission)
              simp only [Fleet.workerRead, assign, hadmission] at hr' ⊢
              rcases (Table.mem_insert hnone).mp hr' with hold | rfl
              · exact .inl (hsame hold)
              · exact .inr ⟨delivery, task, ⟨rfl, by rw [hm]; rfl, rfl, hfresh, rfl, rfl⟩,
                  hadmission, rfl⟩
  | finish htask hended hfinish =>
      obtain ⟨runner', m, rfl, hrunning⟩ := finish_frame hfinish
      exact .inl (mem_endTask (hrunning ▸ hr'))
  | release htask hended => exact .inl (hsame (Table.mem_deleteWhere.mp hr').1)
  | coordRead hfresh hs hidle hm hread =>
      obtain ⟨db', session', handling', reported', rfl⟩ := coordRead_frame hread
      exact .inl (hsame hr')
  | conclude hs hconclude =>
      obtain ⟨session', handling', reported', rfl⟩ := conclude_frame hconclude
      exact .inl (hsame hr')
  | _ => exact .inl (hsame hr')

theorem Step.running (h : Step x f l f') {r' : RunningTask} (hr' : r' ∈ f'.runner.running) :
    (∃ r ∈ f.runner.running, SameExecution r r') ∨
      ∃ delivery task, Starts f l f' r' delivery task := by
  rcases h.running_flagged hr' with ⟨r, hr, hflagged⟩ | ⟨delivery, task, hstarts, -⟩
  · exact .inl ⟨r, hr, hflagged.same⟩
  · exact .inr ⟨delivery, task, hstarts⟩

/-- The ghosts only grow, except where a `hello` starts them afresh. -/
theorem Step.ghosts (h : Step x f l f') :
    f.minted ⊆ f'.minted ∧ (f' = f.connect ∨
      f'.declared = f.declared ∧ f.started ⊆ f'.started ∧ f.reported ⊆ f'.reported) := by
  have hrefl : ∀ g : Fleet, f.minted ⊆ f.minted ∧ (g = f.connect ∨
      f.declared = f.declared ∧ f.started ⊆ f.started ∧ f.reported ⊆ f.reported) :=
    fun g => ⟨List.Subset.refl _, .inr ⟨rfl, le_refl _, le_refl _⟩⟩
  cases h with
  | connect => exact ⟨List.Subset.refl _, .inl rfl⟩
  | @workerRead token m rest hfresh hm hread =>
      cases m with
      | taskAssign delivery task =>
          simp only [Fleet.workerRead, assign]
          split
          · exact hrefl _
          · exact hrefl _
          · exact hrefl _
          · exact ⟨List.subset_cons_self _ _, .inr ⟨rfl, Finset.subset_insert _ _, le_refl _⟩⟩
      | _ => exact hrefl _
  | finish htask hended hfinish =>
      obtain ⟨runner', m, rfl, -⟩ := finish_frame hfinish
      exact hrefl _
  | @coordRead now due resultId s m rest _ hfresh hs hidle hm hread =>
      cases m with
      -- the only message whose report needs no transaction
      | capacity taskId execution =>
          obtain rfl := Option.some.inj hread
          exact ⟨List.Subset.refl _, .inr ⟨rfl, le_refl _, Finset.subset_insert _ _⟩⟩
      | taskResult result =>
          obtain ⟨envelope, -, rfl⟩ := coordRead_result hread
          exact hrefl _
      | _ =>
          obtain rfl := Option.some.inj hread
          exact hrefl _
  | conclude hs hconclude =>
      generalize f.handling = handling at hconclude
      cases handling with
      | failed | result =>
          obtain rfl := Option.some.inj hconclude
          exact ⟨List.Subset.refl _, .inr ⟨rfl, le_refl _, Finset.subset_insert _ _⟩⟩
      | idle | answering => cases hconclude
  | _ => exact hrefl _

/-- What holds of the executions and the frames of every reachable fleet. -/
structure Coherent (f : Fleet) : Prop where
  minted : ∀ r ∈ f.runner.running, r.idempotencyToken ∈ f.minted
  /-- A token is one execution. -/
  distinct : ∀ r ∈ f.runner.running, ∀ r' ∈ f.runner.running,
    r.idempotencyToken = r'.idempotencyToken → r = r'
  /-- An execution was declared, or started by this session, or has reported. -/
  known : ∀ r ∈ f.runner.running, r.idempotencyToken ∈ f.declared ∨
    (r.idempotencyToken, r.taskId.str) ∈ f.started ∨ r.idempotencyToken ∈ f.reported
  /-- A frame is of a registered delivery, or of the one about to be. -/
  frames : ∀ n task, .taskAssign n task ∈ f.toWorker →
    n < f.registered ∨ n = f.registered ∧ f.sent = true ∧ f.assigning.head? = some task

theorem Coherent.minted_step (hf : f.Coherent) (h : Step x f l f') :
    ∀ r ∈ f'.runner.running, r.idempotencyToken ∈ f'.minted := by
  intro r' hr'
  rcases h.running hr' with ⟨r, hr, -, htoken⟩ | ⟨n, task, hstarts⟩
  · rw [htoken]
    exact h.ghosts.1 (hf.minted r hr)
  · rw [hstarts.minted]
    exact List.mem_cons_self

theorem Coherent.distinct_step (hf : f.Coherent) (h : Step x f l f') :
    ∀ r ∈ f'.runner.running, ∀ r' ∈ f'.runner.running,
      r.idempotencyToken = r'.idempotencyToken → r = r' := by
  intro r hr r' hr' htoken
  refine Table.eq_of_key hr hr' ?_
  rcases h.running hr with ⟨r₀, hr₀, hid, htok⟩ | ⟨n, task, hstarts⟩ <;>
    rcases h.running hr' with ⟨r₀', hr₀', hid', htok'⟩ | ⟨n', task', hstarts'⟩
  · rw [hid, hid', hf.distinct r₀ hr₀ r₀' hr₀' (by rw [← htok, htoken, htok'])]
  · refine absurd ?_ hstarts'.fresh
    rw [← htoken, htok]
    exact hf.minted r₀ hr₀
  · refine absurd ?_ hstarts.fresh
    rw [htoken, htok']
    exact hf.minted r₀' hr₀'
  · have hframe := hstarts.frame.symm.trans hstarts'.frame
    simp only [Option.some.injEq, ToWorker.taskAssign.injEq] at hframe
    rw [hstarts.taskId, hstarts'.taskId, hframe.2]

theorem Coherent.known_step (hf : f.Coherent) (h : Step x f l f') :
    ∀ r ∈ f'.runner.running, r.idempotencyToken ∈ f'.declared ∨
      (r.idempotencyToken, r.taskId.str) ∈ f'.started ∨ r.idempotencyToken ∈ f'.reported := by
  intro r' hr'
  rcases h.ghosts.2 with rfl | ⟨hdeclared, hstarted, hreported⟩
  · exact .inl (List.mem_toFinset.mpr (List.mem_map_of_mem hr'))
  · rcases h.running hr' with ⟨r, hr, hid, htoken⟩ | ⟨n, task, hstarts⟩
    · rw [hid, htoken, hdeclared]
      rcases hf.known r hr with hk | hk | hk
      · exact .inl hk
      · exact .inr (.inl (hstarted hk))
      · exact .inr (.inr (hreported hk))
    · rw [hstarts.started, hstarts.taskId]
      exact .inr (.inl (Finset.mem_insert_self _ _))

theorem Coherent.frames_step (hf : f.Coherent) (h : Step x f l f') :
    ∀ n task, .taskAssign n task ∈ f'.toWorker →
      n < f'.registered ∨ n = f'.registered ∧ f'.sent = true ∧ f'.assigning.head? = some task := by
  intro n task hmem
  -- a message that is not an assignment adds no frame
  have hother : ∀ {m : ToWorker}, (∀ n task, m ≠ .taskAssign n task) →
      .taskAssign n task ∈ f.toWorker ++ [m] → .taskAssign n task ∈ f.toWorker := by
    intro m hm hmem
    rcases List.mem_append.mp hmem with hold | hnew
    · exact hold
    · exact absurd (List.mem_singleton.mp hnew).symm (hm n task)
  cases h with
  | connect => cases hmem
  | disconnect => cases hmem
  | welcome => exact hf.frames n task (hother (fun _ _ => ToWorker.noConfusion) hmem)
  | pushCancel => exact hf.frames n task (hother (fun _ _ => ToWorker.noConfusion) hmem)
  | answer => exact hf.frames n task (hother (fun _ _ => ToWorker.noConfusion) hmem)
  | claim hs hidle =>
      rcases hf.frames n task hmem with hlt | ⟨-, -, hhead⟩
      · exact .inl hlt
      · rw [hidle] at hhead
        cases hhead
  | send hassigning hsent =>
      rcases List.mem_append.mp hmem with hold | hnew
      · rcases hf.frames n task hold with hlt | ⟨-, htrue, -⟩
        · exact .inl hlt
        · rw [hsent] at htrue
          cases htrue
      · obtain ⟨rfl, rfl⟩ := ToWorker.taskAssign.inj (List.mem_singleton.mp hnew)
        exact .inr ⟨rfl, rfl, by rw [hassigning]; rfl⟩
  | registerDelivery =>
      rcases hf.frames n task hmem with hlt | ⟨rfl, -, -⟩
      · exact .inl (Nat.lt_succ_of_lt hlt)
      · exact .inl (Nat.lt_succ_self _)
  | @workerRead token m rest hfresh hm hread =>
      obtain ⟨link', runner', toCoordinator', minted', started', heq⟩ :=
        workerRead_frame x { f with toWorker := rest } token m
      rw [heq] at hmem ⊢
      exact hf.frames n task (hm ▸ .tail _ hmem)
  | finish htask hended hfinish =>
      obtain ⟨runner', m, rfl, -⟩ := finish_frame hfinish
      exact hf.frames n task hmem
  | coordRead hfresh hs hidle hm hread =>
      obtain ⟨db', session', handling', reported', rfl⟩ := coordRead_frame hread
      exact hf.frames n task hmem
  | conclude hs hconclude =>
      obtain ⟨session', handling', reported', rfl⟩ := conclude_frame hconclude
      exact hf.frames n task hmem
  | _ => exact hf.frames n task hmem

/-- Every reachable fleet is coherent. -/
theorem Reachable.coherent (h : (fleet x).Reachable f) : f.Coherent := by
  refine h.invariant (P := Coherent) ?_ ?_
  · rintro _ ⟨db, -, rfl⟩
    constructor
    · intro r hr
      exact absurd hr (Table.not_mem_empty r)
    · intro r hr
      exact absurd hr (Table.not_mem_empty r)
    · intro r hr
      exact absurd hr (Table.not_mem_empty r)
    · intro n task hm
      cases hm
  · intro f l f' _ hf hstep
    have hs := step_cases hstep
    exact ⟨hf.minted_step hs, hf.distinct_step hs, hf.known_step hs, hf.frames_step hs⟩

end Fleet

end TaskFleet.Model
