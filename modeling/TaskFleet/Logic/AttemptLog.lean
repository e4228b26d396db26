import TaskFleet.Logic.ResultFlow

/-!
# Which assignment an execution belongs to

Along a run the assignments that a worker acknowledges with `accepted: true`
and those it starts are two logs (`acceptedIn`, `startedIn`), the second a part
of the first: a re-delivery of a task that is running is acknowledged and not
started. `Logged` says what the log of the starts knows about the fleet:

* **executions** — what runs is the last start of its task, at the attempt that
  start was assigned;
* **results** — an envelope, pending or on the wire, is of one start and names
  its attempt;
* **tokens** — no two starts share one.
-/

namespace TaskFleet.Model

open Py

/-- An assignment a worker has accepted. -/
structure Accepted where
  task : ClaimedTask
  /-- The token of the execution, if it starts one. -/
  token : Token

/-- The envelope is a result of the execution it started. -/
structure Accepted.Made (a : Accepted) (e : WorkerResult) : Prop where
  token : e.idempotencyToken = a.token
  taskId : e.taskId = a.task.id.str
  attempt : e.attemptNumber = a.task.attemptCount

/-- The last of them for the task `t`. -/
def latest (log : List Accepted) (t : Uuid) : Option Accepted :=
  (log.filter fun a => a.task.id = t).getLast?

theorem latest_snoc (log : List Accepted) (a : Accepted) (t : Uuid) :
    latest (log ++ [a]) t = if a.task.id = t then some a else latest log t := by
  unfold latest
  by_cases hid : a.task.id = t
  · rw [List.filter_append, List.filter_singleton, if_pos hid, decide_eq_true hid]
    simp
  · rw [List.filter_append, List.filter_singleton, if_neg hid, decide_eq_false hid]
    simp

theorem mem_of_latest {log : List Accepted} {t : Uuid} {a : Accepted} (h : latest log t = some a) :
    a ∈ log ∧ a.task.id = t := by
  obtain ⟨hin, hid⟩ := List.mem_filter.mp (List.mem_of_getLast? h)
  exact ⟨hin, of_decide_eq_true hid⟩

namespace Fleet

/-- The assignment the step acknowledges with `accepted: true`. -/
def acceptedBy (x : Setting) (f : Fleet) : Label → Option Accepted
  | .workerRead token =>
      match f.toWorker with
      | .taskAssign _ task :: _ =>
          if f.runner.admission x.worker task.id task.taskType ∈ [.duplicate, .admitted] then
            some ⟨task, token⟩
          else none
      | _ => none
  | _ => none

/-- The assignment the step starts an execution of. -/
def startedBy (x : Setting) (f : Fleet) (l : Label) : Option Accepted :=
  (f.acceptedBy x l).filter fun a =>
    f.runner.admission x.worker a.task.id a.task.taskType = .admitted

/-- The assignments accepted along the labels, oldest first. -/
def acceptedIn (x : Setting) (f : Fleet) (ls : List Label) : List Accepted :=
  System.observed (step x) (acceptedBy x) f ls

/-- The assignments started along the labels, oldest first. -/
def startedIn (x : Setting) (f : Fleet) (ls : List Label) : List Accepted :=
  System.observed (step x) (startedBy x) f ls

variable {x : Setting} {f f' : Fleet} {l : Label} {a : Accepted}

/-- What is accepted is acknowledged on the socket. -/
theorem Step.acks (h : Step x f l f') (ha : f.acceptedBy x l = some a) :
    .taskAck a.task.id true "" ∈ f'.toCoordinator := by
  cases h with
  | @workerRead token m rest hfresh hm hread =>
      simp only [acceptedBy, hm] at ha
      split at ha
      · next delivery task tail heq =>
          obtain ⟨rfl, rfl⟩ := List.cons.inj heq
          split at ha
          · next hadmission =>
              obtain rfl := Option.some.inj ha
              have hup : f.link = .up := of_decide_eq_true hread
              simp only [Fleet.workerRead, assign]
              rcases List.mem_cons.mp hadmission with hduplicate | hadmitted
              · rw [hduplicate]
                simp [report, hup]
              · rw [List.mem_singleton.mp hadmitted]
                simp [report, hup]
          · cases ha
      · cases ha
  | _ => cases ha

/-- A start is an assignment that was admitted. -/
theorem startedBy_eq_some (h : f.startedBy x l = some a) :
    l = .workerRead a.token ∧ (∃ delivery, f.toWorker.head? = some (.taskAssign delivery a.task)) ∧
      f.runner.admission x.worker a.task.id a.task.taskType = .admitted := by
  obtain ⟨haccepted, hadmitted⟩ := Option.filter_eq_some_iff.mp h
  unfold acceptedBy at haccepted
  split at haccepted
  · split at haccepted
    · next hm =>
        split at haccepted
        · obtain rfl := Option.some.inj haccepted
          exact ⟨rfl, ⟨_, by rw [hm]; rfl⟩, of_decide_eq_true hadmitted⟩
        · cases haccepted
    · cases haccepted
  · cases haccepted

/-- An admitted frame is a start. -/
theorem Starts.startedBy {r' : RunningTask} {delivery : Nat} {task : ClaimedTask}
    (h : Starts f l f' r' delivery task)
    (hadmitted : f.runner.admission x.worker task.id task.taskType = .admitted) :
    f.startedBy x l = some ⟨task, r'.idempotencyToken⟩ := by
  obtain ⟨rest, hm⟩ := List.head?_eq_some_iff.mp h.frame
  rw [Fleet.startedBy, h.label, acceptedBy, hm]
  simp [hadmitted]

/-- What the log of the starts knows about the fleet. -/
structure Logged (log : List Accepted) (f : Fleet) : Prop where
  minted : ∀ a ∈ log, a.token ∈ f.minted
  /-- A token is one start. -/
  distinct : (log.map Accepted.token).Nodup
  running : ∀ r ∈ f.runner.running, ∃ a, latest log r.taskId = some a ∧
    a.token = r.idempotencyToken ∧ a.task.attemptCount = r.attempt
  pending : ∀ t e, f.runner.pendingResults.lookup t = some e → ∃ a ∈ log, a.Made e
  sent : ∀ e, .taskResult e ∈ f.toCoordinator → ∃ a ∈ log, a.Made e

theorem mem_snoc_startedBy {log : List Accepted} {b : Accepted} :
    b ∈ log ++ (f.startedBy x l).toList ↔ b ∈ log ∨ f.startedBy x l = some b := by
  rw [List.mem_append, Option.mem_toList]

variable {log : List Accepted}

theorem Logged.running_step (hf : Logged log f) (h : Step x f l f') :
    ∀ r ∈ f'.runner.running, ∃ a, latest (log ++ (f.startedBy x l).toList) r.taskId = some a ∧
      a.token = r.idempotencyToken ∧ a.task.attemptCount = r.attempt := by
  intro r' hr'
  rcases h.running_flagged hr'
    with ⟨r, hr, hflagged⟩ | ⟨delivery, task, hstarts, hadmitted, hattempt⟩
  · obtain ⟨a, ha, htoken, hattempt⟩ := hf.running r hr
    refine ⟨a, ?_, htoken.trans hflagged.same.2.symm, hattempt.trans hflagged.attempt.symm⟩
    rw [hflagged.same.1]
    cases hstarted : f.startedBy x l with
    | none =>
        rw [Option.toList_none, List.append_nil, ha]
    | some b =>
        -- an admitted task is not running, so the start is of another one
        have hother : b.task.id ≠ r.taskId := by
          intro hid
          have hnone := admission_eq_admitted (startedBy_eq_some hstarted).2.2
          exact Table.get?_eq_none_iff.mp hnone r hr hid.symm
        rw [Option.toList_some, latest_snoc, if_neg hother, ha]
  · refine ⟨⟨task, r'.idempotencyToken⟩, ?_, rfl, hattempt.symm⟩
    rw [hstarts.startedBy hadmitted, Option.toList_some, latest_snoc, if_pos hstarts.taskId.symm]

/-- A result that is recorded is of the last start of its task. -/
theorem Logged.made (hf : Logged log f) {t : String} {e : WorkerResult}
    (h : f.recorded x l = some (t, e)) : ∃ a ∈ log, a.Made e := by
  obtain ⟨r, hr, -, htaskId, htoken, hattempt⟩ := recorded_names h
  obtain ⟨a, ha, hatoken, haattempt⟩ := hf.running r hr
  obtain ⟨hin, hid⟩ := mem_of_latest ha
  exact ⟨a, hin, htoken.trans hatoken.symm, htaskId.trans (congrArg Uuid.str hid.symm),
    hattempt.trans haattempt.symm⟩

theorem Logged.pending_step (hf : Logged log f) (h : Step x f l f') {t : String} {e : WorkerResult}
    (he : f'.runner.pendingResults.lookup t = some e) : ∃ a ∈ log, a.Made e := by
  cases h.pendingMove with
  | same hanswered hrecorded hpending =>
      rw [hpending] at he
      exact hf.pending t e he
  | answered hanswered hrecorded hpending =>
      rw [hpending, Dict.lookup_erase] at he
      split at he
      · cases he
      · exact hf.pending t e he
  | recorded hanswered hrecorded hpending =>
      rw [hpending, Dict.lookup_set] at he
      split at he
      · obtain rfl := Option.some.inj he
        exact hf.made hrecorded
      · rw [lookup_room (Dict.mem_keys_of_lookup he)] at he
        exact hf.pending t e he

theorem Logged.sent_step (hf : Logged log f) (h : Step x f l f') {e : WorkerResult}
    (he : .taskResult e ∈ f'.toCoordinator) : ∃ a ∈ log, a.Made e := by
  rcases h.sentResult he with hold | ⟨t, hpending⟩ | ⟨t, hrecorded⟩
  · exact hf.sent e hold
  · exact hf.pending t e hpending
  · exact hf.made hrecorded

/-- A start takes a token that is new. -/
theorem startedBy_mints (h : Step x f l f') (ha : f.startedBy x l = some a) :
    a.token ∉ f.minted ∧ a.token ∈ f'.minted := by
  obtain ⟨rfl, ⟨delivery, hhead⟩, hadmitted⟩ := startedBy_eq_some ha
  cases h with
  | @workerRead token m rest hfresh hm hread =>
      rw [hm] at hhead
      obtain rfl := Option.some.inj hhead
      refine ⟨hfresh, ?_⟩
      simp only [Fleet.workerRead, assign, hadmitted]
      exact List.mem_cons_self

/-- **One step** adds to the log what it starts. -/
theorem Logged.step (hf : Logged log f) (h : Step x f l f') :
    Logged (log ++ (f.startedBy x l).toList) f' := by
  have hgrows : ∀ {e : WorkerResult}, (∃ a ∈ log, a.Made e) →
      ∃ a ∈ log ++ (f.startedBy x l).toList, a.Made e := by
    rintro e ⟨a, ha, hmade⟩
    exact ⟨a, List.mem_append_left _ ha, hmade⟩
  refine ⟨fun a ha => ?_, ?_, hf.running_step h, fun t e he => hgrows (hf.pending_step h he),
    fun e he => hgrows (hf.sent_step h he)⟩
  · rcases mem_snoc_startedBy.mp ha with hold | hnew
    · exact h.ghosts.1 (hf.minted a hold)
    · exact (startedBy_mints h hnew).2
  · cases hstarted : f.startedBy x l with
    | none =>
        rw [Option.toList_none, List.append_nil]
        exact hf.distinct
    | some b =>
        rw [Option.toList_some, List.map_append, List.map_singleton, ← List.concat_eq_append,
          List.nodup_concat]
        refine ⟨fun hmem => ?_, hf.distinct⟩
        obtain ⟨a, ha, htoken⟩ := List.mem_map.mp hmem
        exact (startedBy_mints h hstarted).1 (htoken ▸ hf.minted a ha)

/-- **Every run** is logged. -/
theorem trace_logged {f₀ : Fleet} {ls : List Label} (hinit : (fleet x).init f₀)
    (h : (fleet x).Trace f₀ ls f) : Logged (startedIn x f₀ ls) f := by
  have hnext : ∀ {f l f'}, (fleet x).step f l f' → Fleet.step x f l = some f' :=
      fun hstep => hstep.2
  refine h.observed_invariant (I := Logged) hnext ?_ ?_ hinit
  · rintro _ ⟨db, -, rfl⟩
    constructor
    · intro a ha
      cases ha
    · exact List.nodup_nil
    · intro r hr
      exact absurd hr (Table.not_mem_empty r)
    · intro t e he
      cases he
    · intro e he
      cases he
  · intro log g l g' _ hg hstep
    exact hg.step (step_cases hstep)

end Fleet

end TaskFleet.Model
