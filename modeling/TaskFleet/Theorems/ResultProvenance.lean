import TaskFleet.Theorems.AttemptAgreement
import TaskFleet.Theorems.ResultDurability

/-!
# Where a stored result comes from

Between the return of an executor and the row that `get_task` reads, a result is put into an
envelope, kept in `pending_results`, sent any number of times, validated and stored. Along a
run the executions that returned are a log (`returnedIn`), and `Traced` says that nothing
else gets in on the way:

* **envelopes** — what is pending or on the wire was made of one of them;
* **executions** — each of them returned once;
* **completions** — what is submitted on the worker's behalf is such an envelope, as
  `validate` reads it, or comes from outside the session.
-/

namespace TaskFleet.Model

open Py

/-- An execution that returned. -/
structure Returned where
  task : RunningTask
  result : Json
  duration : PyFloat

/-- The execution it was. -/
def Returned.token (o : Returned) : Token := o.task.idempotencyToken

/-- The envelope the worker made of it. -/
def Returned.envelope? (x : Setting) (o : Returned) : Option WorkerResult :=
  o.task.result? x.floats x.worker.maxResultBytes o.result o.duration

/-- The coordinator reads `envelope` off what the worker made of it. -/
def Returned.ReadAs (x : Setting) (o : Returned) (envelope : Envelope) : Prop :=
  ∃ r, o.envelope? x = some r ∧
    validate x.floats r.payload x.cfg.taskResultMaxBytes = .ok envelope

/-! ## What the two sides do to a value -/

/-- The worker sends the value, or drops it and says so. -/
theorem result?_result {fl : FloatOps} {maxResultBytes : ℕ} {task : RunningTask} {result : Json}
    {duration : PyFloat} {r : WorkerResult}
    (h : task.result? fl maxResultBytes result duration = some r) :
    r.result = if r.truncated then .null else result := by
  simp only [RunningTask.result?] at h
  split at h
  · rw [← Option.some.inj h]
    simp only [buildResultEnvelope]
    split <;> rfl
  · cases h

/-- The coordinator stores what was sent, or drops it and says so. -/
theorem validate_payload_result {fl : FloatOps} {r : WorkerResult} {maxBytes : Int}
    {envelope : Envelope} (h : validate fl r.payload maxBytes = .ok envelope) :
    envelope.truncated = true ∧ envelope.result = .null ∨
      envelope.truncated = r.truncated ∧ envelope.result = r.result := by
  have hseal : validate fl r.payload maxBytes = (r.readBack fl).seal fl maxBytes := by
    rw [validate, readBody_payload]
    exact pure_bind (m := Except ValidateError) _ _
  rw [hseal, Body.seal, if_neg (by rw [encodable_readBack]; exact Bool.noConfusion)] at h
  dsimp only at h
  split at h
  · rw [← Except.ok.inj h]
    exact .inl ⟨rfl, rfl⟩
  · rw [← Except.ok.inj h]
    exact .inr ⟨rfl, rfl⟩

/-- **End to end.** What is read names the execution, and shows its value unless it says
that the value was dropped. -/
theorem Returned.ReadAs.shows {x : Setting} {o : Returned} {envelope : Envelope}
    (h : o.ReadAs x envelope) :
    envelope.taskId = o.task.taskId.str ∧ envelope.idempotencyToken = o.token ∧
      envelope.attemptNumber = o.task.attempt ∧
      envelope.result = if envelope.truncated then .null else o.result := by
  obtain ⟨r, hmade, hread⟩ := h
  obtain ⟨htaskId, htoken, hattempt⟩ := Fleet.result?_names hmade
  obtain ⟨e, he, htaskId', htoken', hattempt'⟩ :=
    validate_payload x.floats r x.cfg.taskResultMaxBytes
  obtain rfl := Except.ok.inj (he.symm.trans hread)
  refine ⟨htaskId'.trans htaskId, htoken'.trans htoken, hattempt'.trans hattempt, ?_⟩
  rcases validate_payload_result hread with ⟨htruncated, hnull⟩ | ⟨htruncated, hsame⟩
  · rw [htruncated, if_pos rfl, hnull]
  · rw [htruncated, hsame]
    exact result?_result hmade

namespace Fleet

/-- The execution the step sees return. -/
def returnedBy (x : Setting) (f : Fleet) : Label → Option Returned
  | .finish taskId (.returned result duration) =>
      (f.runner.running.get? taskId).bind fun task =>
        (task.result? x.floats x.worker.maxResultBytes result duration).map fun _ =>
          ⟨task, result, duration⟩
  | _ => none

/-- The executions that returned along the labels, oldest first. -/
def returnedIn (x : Setting) (f : Fleet) (ls : List Label) : List Returned :=
  System.observed (step x) (returnedBy x) f ls

variable {x : Setting} {f f' : Fleet} {l : Label} {o : Returned}

/-! ## Returning once -/

theorem returnedBy_eq_some (h : f.returnedBy x l = some o) :
    l = .finish o.task.taskId (.returned o.result o.duration) ∧ o.task ∈ f.runner.running ∧
      ∃ r, o.envelope? x = some r := by
  unfold returnedBy at h
  split at h
  · obtain ⟨task, htask, hmade⟩ := Option.bind_eq_some_iff.mp h
    obtain ⟨r, hr, rfl⟩ := Option.map_eq_some_iff.mp hmade
    obtain ⟨hmem, rfl⟩ := Table.get?_eq_some_iff.mp htask
    exact ⟨rfl, hmem, r, hr⟩
  · cases h

/-- What is recorded is the envelope of what returns. -/
theorem recorded_returnedBy {t : String} {r : WorkerResult} (h : f.recorded x l = some (t, r)) :
    ∃ o, f.returnedBy x l = some o ∧ o.envelope? x = some r := by
  unfold recorded at h
  split at h
  · next taskId result duration =>
      obtain ⟨task, htask, hmade⟩ := Option.bind_eq_some_iff.mp h
      obtain ⟨envelope, henvelope, heq⟩ := Option.map_eq_some_iff.mp hmade
      obtain ⟨-, rfl⟩ := Prod.mk.inj heq
      refine ⟨⟨task, result, duration⟩, ?_, henvelope⟩
      simp only [returnedBy, htask, Option.bind_some, henvelope, Option.map_some]
  · cases h

/-- What still executes did so before, or was started with a new token. -/
theorem Step.unended (h : Step x f l f') {r' : RunningTask} (hr' : r' ∈ f'.runner.running)
    (hopen : r'.ended = false) :
    (∃ r ∈ f.runner.running, SameExecution r r' ∧ r.ended = false) ∨
      r'.idempotencyToken ∉ f.minted := by
  have hsame : ∀ {r}, r ∈ f.runner.running → r.ended = false →
      ∃ r₀ ∈ f.runner.running, SameExecution r₀ r ∧ r₀.ended = false :=
    fun hr hopen => ⟨_, hr, ⟨rfl, rfl⟩, hopen⟩
  cases h with
  | @workerRead token m rest hfresh hm hread =>
      cases m with
      | helloAck => exact .inl (hsame hr' hopen)
      | taskResultAck => exact .inl (hsame hr' hopen)
      | taskCancel taskId =>
          obtain ⟨r, hr, rfl⟩ := (Table.mem_updateWhere RunningTask.setCancel_taskId).mp hr'
          refine .inl ⟨r, hr, ?_⟩
          split at hopen
          · next hid =>
              rw [if_pos hid]
              exact ⟨⟨rfl, rfl⟩, hopen⟩
          · next hid =>
              rw [if_neg hid]
              exact ⟨⟨rfl, rfl⟩, hopen⟩
      | taskAssign delivery task =>
          cases hadmission : f.runner.admission x.worker task.id task.taskType with
          | unsupportedType | duplicate | atCapacity =>
              simp only [Fleet.workerRead, assign, hadmission] at hr'
              exact .inl (hsame hr' hopen)
          | admitted =>
              have hnone := Table.get?_eq_none_iff.mp (admission_eq_admitted hadmission)
              simp only [Fleet.workerRead, assign, hadmission] at hr'
              rcases (Table.mem_insert hnone).mp hr' with hold | rfl
              · exact .inl (hsame hold hopen)
              · exact .inr hfresh
  | @finish taskId ending task f' htask hended hfinish =>
      obtain ⟨runner', m, rfl, hrunning⟩ := finish_frame hfinish
      have hmem : r' ∈ (f.runner.endTask task.taskId).running := hrunning ▸ hr'
      obtain ⟨r, hr, rfl⟩ := (Table.mem_updateWhere RunningTask.setEnded_taskId).mp hmem
      split at hopen
      · cases hopen
      · next hid =>
          rw [if_neg hid]
          exact .inl (hsame hr hopen)
  | release htask hended => exact .inl (hsame (Table.mem_deleteWhere.mp hr').1 hopen)
  | coordRead hfresh hs hidle hm hread =>
      obtain ⟨db', session', handling', reported', rfl⟩ := coordRead_frame hread
      exact .inl (hsame hr' hopen)
  | conclude hs hconclude =>
      obtain ⟨session', handling', reported', rfl⟩ := conclude_frame hconclude
      exact .inl (hsame hr' hopen)
  | _ => exact .inl (hsame hr' hopen)

/-- An execution that returns has not ended before, and has ended after. -/
theorem Step.returns (h : Step x f l f') (ho : f.returnedBy x l = some o) :
    o.task ∈ f.runner.running ∧ o.task.ended = false ∧
      ∀ r' ∈ f'.runner.running, r'.taskId = o.task.taskId → r'.ended = true := by
  obtain ⟨rfl, hmem, -⟩ := returnedBy_eq_some ho
  cases h with
  | @finish taskId ending task f' htask hended hfinish =>
      obtain ⟨hin, hid⟩ := Table.get?_eq_some_iff.mp htask
      obtain rfl := Table.eq_of_key hin hmem hid
      obtain ⟨runner', m, rfl, hrunning⟩ := finish_frame hfinish
      refine ⟨hin, hended, fun r' hr' hsame => ?_⟩
      have hin' : r' ∈ (f.runner.endTask o.task.taskId).running := hrunning ▸ hr'
      obtain ⟨r, hr, rfl⟩ := (Table.mem_updateWhere RunningTask.setEnded_taskId).mp hin'
      by_cases hid' : r.taskId = o.task.taskId
      · rw [if_pos (decide_eq_true hid')]
        rfl
      · rw [if_neg (by simpa using hid')] at hsame
        exact absurd hsame hid'

/-! ## Submitting -/

/-- What a step may submit: an operation of somebody else's, or a result that is on the
wire, as `validate` reads it. -/
def Submits (x : Setting) (f : Fleet) (l : Label) (op : Op) : Prop :=
  ∀ envelope w resultId, op = .complete envelope w resultId →
    (∃ now, l = .environment now op) ∨ ∃ r, .taskResult r ∈ f.toCoordinator ∧
      validate x.floats r.payload x.cfg.taskResultMaxBytes = .ok envelope

/-- The database changed by an operation the step may submit, or not at all. -/
def SubmitMove (x : Setting) (f : Fleet) (l : Label) (db' : Db) : Prop :=
  db' = f.db ∨ ∃ e, (queue x.cfg x.schemas).step f.db e db' ∧ Submits x f l e.op

/-- An operation that completes nothing may be submitted. -/
theorem Submits.of_other {op : Op} (h : ∀ envelope w resultId, op ≠ .complete envelope w resultId) :
    Submits x f l op :=
  fun envelope w resultId hop => absurd hop (h envelope w resultId)

theorem SubmitMove.of_op {now : Seconds} (op : Op) (hadm : op.Admissible f.db)
    (hsubmits : Submits x f l op) : SubmitMove x f l (apply x.cfg x.schemas f.db now op).1 :=
  .inr ⟨_, queue_step hadm, hsubmits⟩

theorem SubmitMove.renewIfDue {now : Seconds} {due : Bool} {s : LocalSession} {taskId : String} :
    SubmitMove x f l (renewIfDue x.cfg f.db now due s taskId) := by
  unfold Model.renewIfDue
  split
  · have hmove : SubmitMove x f l
      (apply x.cfg x.schemas f.db now (.renewLease taskId s.workerId)).1 :=
      .of_op _ trivial (.of_other fun _ _ _ hop => Op.noConfusion hop)
    simpa only [apply] using hmove
  · exact .inl rfl

/-- **One step** submits nothing else. -/
theorem Step.submitMove (h : Step x f l f') : SubmitMove x f l f'.db := by
  cases h with
  | environment hadm => exact .of_op _ hadm fun _ _ _ _ => .inl ⟨_, rfl⟩
  | @recover now s hs =>
      exact SubmitMove.of_op (.renewWorkerLeases x.workerId) trivial
        (.of_other fun _ _ _ hop => Op.noConfusion hop)
  | @claim now skip s db' rows hs hidle hfree hdequeue =>
      refine .inr ⟨⟨now, .dequeue x.workerId (min s.freeCredits x.cfg.taskDequeueMaxBatch)
        x.cfg.taskDequeueMaxBatch (some s.supportedTaskTypes) skip, .claimed rows⟩, ⟨trivial, ?_⟩,
        .of_other fun _ _ _ hop => Op.noConfusion hop⟩
      simp only [apply, hdequeue]
  | @workerRead token m rest hfresh hm hread =>
      obtain ⟨link', runner', toCoordinator', minted', started', heq⟩ :=
        workerRead_frame x { f with toWorker := rest } token m
      rw [heq]
      exact .inl rfl
  | finish htask hended hfinish =>
      obtain ⟨runner', m, rfl, -⟩ := finish_frame hfinish
      exact .inl rfl
  | @coordRead now due resultId s m rest _ hfresh hs hidle hm hread =>
      cases m with
      | taskAck taskId accepted reasonCode =>
          obtain rfl := Option.some.inj hread
          dsimp only
          split
          · exact .renewIfDue
          · exact .inl rfl
      | taskStarted taskId =>
          obtain rfl := Option.some.inj hread
          exact SubmitMove.of_op (.start taskId.str x.workerId) trivial
            (.of_other fun _ _ _ hop => Op.noConfusion hop)
      | taskProgress taskId =>
          obtain rfl := Option.some.inj hread
          exact .renewIfDue
      | capacity taskId execution =>
          obtain rfl := Option.some.inj hread
          exact .inl rfl
      | taskFailed taskId errorType correlationId execution =>
          obtain rfl := Option.some.inj hread
          exact SubmitMove.of_op (.fail taskId.str x.workerId errorType correlationId) trivial
            (.of_other fun _ _ _ hop => Op.noConfusion hop)
      | taskResult result =>
          obtain ⟨envelope, hvalid, rfl⟩ := coordRead_result hread
          refine SubmitMove.of_op (.complete envelope x.workerId resultId) hfresh ?_
          intro envelope' w resultId' hop
          obtain ⟨rfl, -, -⟩ := Op.complete.inj hop
          exact .inr ⟨result, hm ▸ List.mem_cons_self, hvalid⟩
  | conclude hs hconclude =>
      obtain ⟨session', handling', reported', rfl⟩ := conclude_frame hconclude
      exact .inl rfl
  | _ => exact .inl rfl

/-! ## Along a run -/

/-- The start `a` is the one that returned as `o`. -/
structure Ran (a : Accepted) (o : Returned) : Prop where
  token : a.token = o.token
  taskId : a.task.id = o.task.taskId
  attempt : a.task.attemptCount = o.task.attempt

/-- What the labels `ls`, their starts and their returns say about the fleet. -/
structure Traced (x : Setting) (ls : List Label) (starts : List Accepted) (log : List Returned)
    (f : Fleet) : Prop where
  ran : ∀ o ∈ log, o.token ∈ f.minted ∧ ∃ a ∈ starts, Ran a o
  /-- An execution returns once. -/
  once : (log.map Returned.token).Nodup
  settled : ∀ o ∈ log, ∀ r ∈ f.runner.running, r.idempotencyToken = o.token → r.ended = true
  pending : ∀ t r, f.runner.pendingResults.lookup t = some r → ∃ o ∈ log, o.envelope? x = some r
  sent : ∀ r, .taskResult r ∈ f.toCoordinator → ∃ o ∈ log, o.envelope? x = some r
  /-- The completions so far are of the log, or come from outside. -/
  submitted : ∃ es, (queue x.cfg x.schemas).Run es f.db ∧
    ∀ e ∈ es, ∀ envelope w resultId, e.op = .complete envelope w resultId →
      (∃ now, .environment now e.op ∈ ls) ∨ ∃ o ∈ log, o.ReadAs x envelope

variable {ls : List Label} {starts : List Accepted} {log : List Returned}

theorem mem_snoc_returnedBy {o : Returned} :
    o ∈ log ++ (f.returnedBy x l).toList ↔ o ∈ log ∨ f.returnedBy x l = some o := by
  rw [List.mem_append, Option.mem_toList]

theorem Traced.ran_step (hf : Traced x ls starts log f) (hc : f.Coherent) (hl : Logged starts f)
    (h : Step x f l f') : ∀ o ∈ log ++ (f.returnedBy x l).toList,
      o.token ∈ f'.minted ∧ ∃ a ∈ starts ++ (f.startedBy x l).toList, Ran a o := by
  intro o ho
  rcases mem_snoc_returnedBy.mp ho with hold | hnew
  · obtain ⟨hminted, a, ha, hran⟩ := hf.ran o hold
    exact ⟨h.ghosts.1 hminted, a, List.mem_append_left _ ha, hran⟩
  · obtain ⟨hmem, -, -⟩ := h.returns hnew
    obtain ⟨a, ha, htoken, hattempt⟩ := hl.running o.task hmem
    obtain ⟨hin, hid⟩ := mem_of_latest ha
    exact ⟨h.ghosts.1 (hc.minted o.task hmem), a, List.mem_append_left _ hin, htoken, hid, hattempt⟩

theorem Traced.once_step (hf : Traced x ls starts log f) (h : Step x f l f') :
    ((log ++ (f.returnedBy x l).toList).map Returned.token).Nodup := by
  cases hreturned : f.returnedBy x l with
  | none =>
      rw [Option.toList_none, List.append_nil]
      exact hf.once
  | some o =>
      rw [Option.toList_some, List.map_append, List.map_singleton, ← List.concat_eq_append,
        List.nodup_concat]
      refine ⟨fun hmem => ?_, hf.once⟩
      obtain ⟨o', ho', htoken⟩ := List.mem_map.mp hmem
      obtain ⟨hin, hopen, -⟩ := h.returns hreturned
      have hended := hf.settled o' ho' o.task hin htoken.symm
      rw [hopen] at hended
      cases hended

theorem Traced.settled_step (hf : Traced x ls starts log f) (hc : f.Coherent) (h : Step x f l f') :
    ∀ o ∈ log ++ (f.returnedBy x l).toList, ∀ r ∈ f'.runner.running,
      r.idempotencyToken = o.token → r.ended = true := by
  intro o ho r' hr' htoken
  by_contra hopen
  rw [Bool.not_eq_true] at hopen
  have hminted : o.token ∈ f.minted := by
    rcases mem_snoc_returnedBy.mp ho with hold | hnew
    · exact (hf.ran o hold).1
    · exact hc.minted o.task (h.returns hnew).1
  rcases h.unended hr' hopen with ⟨r, hr, ⟨hid, htok⟩, hopen'⟩ | hfresh
  · rw [htok] at htoken
    rcases mem_snoc_returnedBy.mp ho with hold | hnew
    · rw [hf.settled o hold r hr htoken] at hopen'
      cases hopen'
    · -- the same token is the same execution, which has ended now
      obtain ⟨hmem, -, hended⟩ := h.returns hnew
      have hsame := hc.distinct r hr o.task hmem htoken
      rw [hended r' hr' (hid.trans (congrArg RunningTask.taskId hsame))] at hopen
      cases hopen
  · rw [htoken] at hfresh
    exact hfresh hminted

theorem Traced.recorded {t : String} {r : WorkerResult} (hr : f.recorded x l = some (t, r)) :
    ∃ o ∈ log ++ (f.returnedBy x l).toList, o.envelope? x = some r := by
  obtain ⟨o, ho, hmade⟩ := recorded_returnedBy hr
  exact ⟨o, mem_snoc_returnedBy.mpr (.inr ho), hmade⟩

theorem Traced.pending_step (hf : Traced x ls starts log f) (h : Step x f l f') {t : String}
    {r : WorkerResult} (hr : f'.runner.pendingResults.lookup t = some r) :
    ∃ o ∈ log ++ (f.returnedBy x l).toList, o.envelope? x = some r := by
  have hgrows : (∃ o ∈ log, o.envelope? x = some r) →
      ∃ o ∈ log ++ (f.returnedBy x l).toList, o.envelope? x = some r := by
    rintro ⟨o, ho, hmade⟩
    exact ⟨o, List.mem_append_left _ ho, hmade⟩
  cases h.pendingMove with
  | same hanswered hrecorded hpending =>
      rw [hpending] at hr
      exact hgrows (hf.pending t r hr)
  | answered hanswered hrecorded hpending =>
      rw [hpending, Dict.lookup_erase] at hr
      split at hr
      · cases hr
      · exact hgrows (hf.pending t r hr)
  | recorded hanswered hrecorded hpending =>
      rw [hpending, Dict.lookup_set] at hr
      split at hr
      · obtain rfl := Option.some.inj hr
        exact Traced.recorded hrecorded
      · rw [lookup_room (Dict.mem_keys_of_lookup hr)] at hr
        exact hgrows (hf.pending t r hr)

theorem Traced.submitted_step (hf : Traced x ls starts log f) (h : Step x f l f') :
    ∃ es, (queue x.cfg x.schemas).Run es f'.db ∧
      ∀ e ∈ es, ∀ envelope w resultId, e.op = .complete envelope w resultId →
        (∃ now, .environment now e.op ∈ ls ++ [l]) ∨
          ∃ o ∈ log ++ (f.returnedBy x l).toList, o.ReadAs x envelope := by
  obtain ⟨es, hrun, hes⟩ := hf.submitted
  have hold : ∀ e ∈ es, ∀ envelope w resultId, e.op = .complete envelope w resultId →
      (∃ now, .environment now e.op ∈ ls ++ [l]) ∨
        ∃ o ∈ log ++ (f.returnedBy x l).toList, o.ReadAs x envelope := by
    intro e he envelope w resultId hop
    rcases hes e he envelope w resultId hop with ⟨now, hout⟩ | ⟨o, ho, hread⟩
    · exact .inl ⟨now, List.mem_append_left _ hout⟩
    · exact .inr ⟨o, List.mem_append_left _ ho, hread⟩
  rcases h.submitMove with hsame | ⟨e, hstep, hsubmits⟩
  · rw [hsame]
    exact ⟨es, hrun, hold⟩
  · refine ⟨es ++ [e], hrun.snoc hstep, fun e' he' => ?_⟩
    rcases List.mem_append.mp he' with hin | hnew
    · exact hold e' hin
    · intro envelope w resultId hop
      rw [List.mem_singleton.mp hnew] at hop ⊢
      rcases hsubmits envelope w resultId hop with ⟨now, rfl⟩ | ⟨r, hsent, hvalid⟩
      · exact .inl ⟨now, List.mem_append_right _ List.mem_cons_self⟩
      · obtain ⟨o, ho, hmade⟩ := hf.sent r hsent
        exact .inr ⟨o, List.mem_append_left _ ho, r, hmade, hvalid⟩

/-- **One step.** -/
theorem Traced.step (hf : Traced x ls starts log f) (hc : f.Coherent) (hl : Logged starts f)
    (h : Step x f l f') : Traced x (ls ++ [l]) (starts ++ (f.startedBy x l).toList)
      (log ++ (f.returnedBy x l).toList) f' := by
  refine ⟨hf.ran_step hc hl h, hf.once_step h, hf.settled_step hc h,
    fun t r hr => hf.pending_step h hr, fun r hr => ?_, hf.submitted_step h⟩
  rcases h.sentResult hr with hold | ⟨t, hpending⟩ | ⟨t, hrecorded⟩
  · obtain ⟨o, ho, hmade⟩ := hf.sent r hold
    exact ⟨o, List.mem_append_left _ ho, hmade⟩
  · obtain ⟨o, ho, hmade⟩ := hf.pending t r hpending
    exact ⟨o, List.mem_append_left _ ho, hmade⟩
  · exact Traced.recorded hrecorded

/-- **Every run.** -/
theorem trace_sourced {f₀ : Fleet} (hinit : (fleet x).init f₀) (h : (fleet x).Trace f₀ ls f) :
    Traced x ls (startedIn x f₀ ls) (returnedIn x f₀ ls) f := by
  have hnext : ∀ {f l f'}, (fleet x).step f l f' → Fleet.step x f l = some f' :=
    fun hstep => hstep.2
  induction h with
  | nil =>
      obtain ⟨db, hdb, rfl⟩ := hinit
      constructor
      · intro o ho
        cases ho
      · exact List.nodup_nil
      · intro o ho
        cases ho
      · intro t r hr
        cases hr
      · intro r hr
        cases hr
      · exact ⟨[], .nil hdb, fun e he => absurd he List.not_mem_nil⟩
  | @snoc ls g f' l htrace hstep ih =>
      rw [startedIn, returnedIn, htrace.observed_snoc hnext hstep,
        htrace.observed_snoc hnext hstep]
      exact ih.step (Reachable.coherent ⟨ls, f₀, hinit, htrace⟩) (trace_logged hinit htrace)
        (step_cases hstep)

/-- What is shown of a row is the body it points at. -/
theorem exists_of_shown {db : Db} {t : Task} (ht : t ∈ db.tasks) {envelope : Envelope} {size : ℕ}
    {time : Seconds} (h : shownResult db t.id.str = some (some (envelope, size, time))) :
    ∃ r ∈ db.results, t.resultId = some r.id ∧ r.payload = envelope := by
  rw [shownResult, getTask, Uuid.parse_str, Option.bind_some, Table.get?_of_mem ht] at h
  cases hjoin : joinedResult db t with
  | none => simp [Task.detail, hjoin] at h
  | some r =>
      obtain ⟨rid, hpointer, hget⟩ := Option.bind_eq_some_iff.mp hjoin
      obtain ⟨hr, rfl⟩ := Table.get?_eq_some_iff.mp hget
      simp only [Option.map_some, Task.detail, hjoin, Option.some.injEq, Prod.mk.injEq] at h
      exact ⟨r, hr, hpointer, h.1⟩

/-- **Nothing is stored that no execution returned.** In every run, what `get_task` shows as
the result of a task that this worker holds was submitted from outside its session, or it is
of one execution that the worker started for this task, at the attempt the row is at: an
execution that returned once, and whose value is shown as it was returned, unless the
envelope says that it was too large to be sent. -/
theorem shown_result_returned {f₀ : Fleet} (hinit : (fleet x).init f₀)
    (h : (fleet x).Trace f₀ ls f) {t : Task} (ht : t ∈ f.db.tasks)
    (howner : t.assignedWorkerId = some x.workerId) {envelope : Envelope} {size : ℕ}
    {time : Seconds} (hshown : shownResult f.db t.id.str = some (some (envelope, size, time))) :
    (∃ now resultId, .environment now (.complete envelope x.workerId resultId) ∈ ls) ∨
    ∃ o ∈ returnedIn x f₀ ls, ∃ a ∈ startedIn x f₀ ls,
      a.task.id = t.id ∧ a.task.attemptCount = t.attemptCount ∧
      a.token = envelope.idempotencyToken ∧ o.token = envelope.idempotencyToken ∧
      (∀ o' ∈ returnedIn x f₀ ls, o'.token = o.token → o' = o) ∧
      envelope.result = if envelope.truncated then .null else o.result := by
  have hf := trace_sourced hinit h
  obtain ⟨es, hrun, hes⟩ := hf.submitted
  obtain ⟨r, hr, hpointer, rfl⟩ := exists_of_shown ht hshown
  obtain ⟨-, r', hr', hid, hstored⟩ := (Run.ledger hrun).pointer t ht r.id hpointer
  obtain rfl := Table.eq_of_key hr' hr hid
  obtain ⟨e, he, w, hop, -, hassigned⟩ := hstored.submitted
  obtain rfl := Option.some.inj (hassigned.symm.trans howner)
  rcases hes e he _ _ _ hop with ⟨now, hout⟩ | ⟨o, ho, hread⟩
  · rw [hop] at hout
    exact .inl ⟨now, _, hout⟩
  · obtain ⟨htaskId, htoken, hattempt, hresult⟩ := hread.shows
    obtain ⟨-, a, ha, hran⟩ := hf.ran o ho
    refine .inr ⟨o, ho, a, ha, ?_, ?_, hran.token.trans htoken.symm, htoken.symm, ?_, hresult⟩
    · exact hran.taskId.trans (Uuid.str_inj.mp (htaskId.symm.trans hstored.taskId))
    · exact hran.attempt.trans (hattempt.symm.trans hstored.attempt)
    · exact fun o' ho' hsame => List.inj_on_of_nodup_map hf.once ho' ho hsame

end Fleet

namespace Demo

/-- The answer of the task. -/
def isAnswer : Json → Bool
  | .int n => n = 42
  | _ => false

theorem eq_of_isAnswer {result : Json} (h : isAnswer result = true) : result = .int 42 := by
  cases result with
  | int n => exact congrArg Json.int (of_decide_eq_true h)
  | _ => cases h

/-- A result is submitted, and not by the worker under watch. -/
def submitsElsewhere : Label → Bool
  | .environment _ (.complete _ _ _) => true
  | _ => false

end Demo

/-- The task of the small deployment is executed once, and what `get_task` shows of it is
the answer of that execution. -/
theorem shown_result_returned_answer :
    let ls : List Label := Demo.executing ++
      [.finish Demo.task (.returned (.int 42) (.finite 1)), .coordRead 3 false Demo.resultId]
    ∃ f envelope size time, (fleet Demo.setting).Run ls f ∧
      shownResult f.db Demo.task.str = some (some (envelope, size, time)) ∧
      envelope.idempotencyToken = Demo.token ∧ envelope.result = .int 42 := by
  intro ls
  let f₀ : Fleet := .initial Demo.setting .empty
  have hplayed : ((Fleet.play Demo.setting (fun _ _ => True) f₀ ls).bind fun f =>
      (f.db.tasks.get? Demo.task).bind fun t => (shownResult f.db t.id.str).bind fun shown =>
        shown.map fun r => decide (t.assignedWorkerId = some Demo.worker) &&
          decide (r.1.truncated = false) && decide (r.1.idempotencyToken = Demo.token) &&
            (Fleet.returnedIn Demo.setting f₀ ls).all fun o => Demo.isAnswer o.result) =
      some true := by
    decide +kernel
  obtain ⟨f, hplay, hplayed⟩ := Option.bind_eq_some_iff.mp hplayed
  obtain ⟨t, ht, hplayed⟩ := Option.bind_eq_some_iff.mp hplayed
  obtain ⟨shown, hshown, hplayed⟩ := Option.bind_eq_some_iff.mp hplayed
  obtain ⟨⟨envelope, size, time⟩, rfl, hfacts⟩ := Option.map_eq_some_iff.mp hplayed
  simp only [Bool.and_eq_true, decide_eq_true_eq, List.all_eq_true] at hfacts
  obtain ⟨⟨⟨howner, hwhole⟩, htoken⟩, hanswers⟩ := hfacts
  obtain ⟨ht, htid⟩ := Table.get?_eq_some_iff.mp ht
  have hinit : (fleet Demo.setting).init f₀ := ⟨.empty, ⟨rfl, rfl, rfl⟩, rfl⟩
  have htrace : (fleet Demo.setting).Trace f₀ ls f :=
    (Fleet.play_trace (Fleet.drawn_of_noReclaim rfl) hplay).of_guarded
  have hinside : (ls.all fun l => !Demo.submitsElsewhere l) = true := rfl
  refine ⟨f, envelope, size, time, ⟨f₀, hinit, htrace⟩, htid ▸ hshown, htoken, ?_⟩
  rcases Fleet.shown_result_returned hinit htrace ht howner hshown with
    ⟨now, resultId, hout⟩ | ⟨o, ho, a, -, -, -, -, -, -, hresult⟩
  · exact Bool.noConfusion (List.all_eq_true.mp hinside _ hout)
  · rw [hresult, hwhole, if_neg Bool.noConfusion]
    exact Demo.eq_of_isAnswer (hanswers o ho)

end TaskFleet.Model
