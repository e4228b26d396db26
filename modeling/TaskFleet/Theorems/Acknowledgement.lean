import TaskFleet.Logic.ClaimHistory
import TaskFleet.Logic.Ledger
import TaskFleet.Model.Assignment

/-!
# Acknowledgements are true and final

A worker drops its only copy of a result on any answer, so the answer has to
be right when it is given and has to stay right.

* **true** — a result is accepted exactly when the task is then settled with
  its token (`completeTask_accepts_iff`);
* **final** — a refusal of an honest submission puts the task past it: either
  the task has ended without this token, or its attempt has moved on
  (`refusal_passes`). Neither is ever undone (`Passed.never_accepts`).
-/

namespace TaskFleet.Model

open Py Sql

/-- The task is completed, and the stored result carries the token. -/
def Settled (db : Db) (id : Uuid) (token : Token) : Prop :=
  ∃ t ∈ db.tasks, t.id = id ∧ t.status = .completed ∧
    ∃ r ∈ db.results, t.resultId = some r.id ∧ r.payload.idempotencyToken = token

/-- Whatever was submitted for the task with this token was submitted for
attempt `n`. -/
def TokenOf (es : List Event) (id : Uuid) (token : Token) (n : ℕ) : Prop :=
  ∀ e ∈ es, ∀ envelope w resultId, e.op = .complete envelope w resultId →
    Uuid.parse envelope.taskId = some id → envelope.idempotencyToken = token →
    envelope.attemptNumber = n

/-- A result for attempt `n` of the task that carries `token` has no chance
any more. -/
inductive Passed (db : Db) (id : Uuid) (token : Token) (n : ℕ) : Prop
  /-- The task ended with another result or with none. -/
  | ended (t : Task) (ht : t ∈ db.tasks) (hid : t.id = id) (hterm : t.status.isTerminal = true)
      (hother : ¬ Settled db id token)
  /-- The attempt was taken back. -/
  | behind (t : Task) (ht : t ∈ db.tasks) (hid : t.id = id) (hlt : n < t.attemptCount)

section

variable {cfg : Config} {schemas : Schemas} {db db' : Db} {es fs : List Event}

/-- The outcome for a task that ended says whether it is settled with the
token. -/
theorem terminalResultOutcome_iff (h : (queue cfg schemas).Run es db) {t : Task} (ht : t ∈ db.tasks)
    (token : Token) :
    terminalResultOutcome db t.resultId token = .duplicate ↔ Settled db t.id token := by
  unfold terminalResultOutcome
  constructor
  · intro hdup
    split at hdup
    · cases hdup
    · next stored hget =>
        split at hdup
        · next htoken =>
            obtain ⟨rid, hrid, hget⟩ := Option.bind_eq_some_iff.mp hget
            obtain ⟨hmem, rfl⟩ := Table.get?_eq_some_iff.mp hget
            exact ⟨t, ht, rfl, ((Run.ledger h).pointer t ht _ hrid).1, stored, hmem, hrid, htoken⟩
        · cases hdup
  · rintro ⟨u, hu, hid, -, r, hr, hrid, htoken⟩
    obtain rfl := Table.eq_of_key hu ht hid
    rw [hrid, Option.bind_some, Table.get?_of_mem hr]
    simp [htoken]

/-- A task that has not ended is not settled. -/
theorem not_settled_of_not_terminal {t : Task} (ht : t ∈ db.tasks)
    (hterm : t.status.isTerminal = false) (token : Token) : ¬ Settled db t.id token := by
  rintro ⟨u, hu, hid, hstatus, -⟩
  obtain rfl := Table.eq_of_key hu ht hid
  rw [hstatus] at hterm
  cases hterm

/-- **Accepted means settled.** The database takes a result, or already had
it, exactly when the task is then settled with its token. -/
theorem completeTask_accepts_iff (h : (queue cfg schemas).Run es db) {envelope : Envelope}
    {id resultId : Uuid} (hid : Uuid.parse envelope.taskId = some id)
    (hfresh : db.results.get? resultId = none) (now : Seconds) (w : Uuid) :
    ((completeTask db now envelope w resultId).2 = .transitioned ∨
      (completeTask db now envelope w resultId).2 = .duplicate) ↔
    Settled (completeTask db now envelope w resultId).1 id envelope.idempotencyToken := by
  cases hget : db.tasks.get? id with
  | none =>
      have hnone : completeTask db now envelope w resultId = (db, .notFound) := by
        simp only [completeTask, hid, completeTaskAt, hget]
      rw [hnone]
      constructor
      · rintro (hout | hout) <;> cases hout
      · rintro ⟨t, ht, rfl, -⟩
        exact absurd rfl (Table.get?_eq_none_iff.mp hget t ht)
  | some row =>
    obtain ⟨hmem, rfl⟩ := Table.get?_eq_some_iff.mp hget
    have hcase : CompleteCase db now row envelope w resultId
        (completeTask db now envelope w resultId) := by
      rw [completeTask_eq_completeRow hmem hid]
      exact completeRow_case db now row envelope w resultId
    generalize completeTask db now envelope w resultId = out at hcase
    cases hcase with
    -- an ended task says `DUPLICATE` exactly when it stored this token
    | terminal hterm =>
        show (terminalResultOutcome _ _ _ = _ ∨ terminalResultOutcome _ _ _ = _) ↔ _
        rw [← terminalResultOutcome_iff h hmem]
        constructor
        · rintro (hout | hout)
          · exact absurd hout (terminalResultOutcome_ne (by decide))
          · exact hout
        · exact .inr
    -- the refusals leave the task as it was, and it had not ended
    | fenced hterm hstale hheld =>
        simp only [reduceCtorEq, or_self, false_iff]
        intro hset
        refine not_settled_of_not_terminal hmem hterm envelope.idempotencyToken ?_
        simpa only [Settled, recordFence_tasks, recordFence_results] using hset
    | notOwner hterm hstale hheld =>
        simp only [reduceCtorEq, or_self, false_iff]
        exact not_settled_of_not_terminal hmem hterm _
    | illegal hterm hlive howner hattempt =>
        simp only [reduceCtorEq, or_self, false_iff]
        exact not_settled_of_not_terminal hmem hterm _
    | raised hlive howner hattempt hrefused =>
        simp only [reduceCtorEq, or_self, false_iff]
        exact not_settled_of_not_terminal hmem (TaskState.not_isTerminal_of_isLive hlive) _
    | stored hlive howner hattempt htaken =>
        refine ⟨fun _ => ?_, fun _ => .inl rfl⟩
        refine ⟨_, Db.mem_updateTask Task.complete_id hmem rfl, rfl, rfl,
          ⟨resultId, envelope, envelope.sizeBytes, now⟩, ?_, rfl, rfl⟩
        exact (Table.mem_insert (Table.get?_eq_none_iff.mp hfresh)).mpr (.inr rfl)

/-- The three refusals, read off the acknowledgement. -/
theorem outcome_of_text {taskId : String} {outcome : Outcome}
    (h : (ResultAck.decided taskId outcome).outcome ∈ ["fenced", "superseded", "not_owner"]) :
    outcome ∈ ([.fenced, .superseded, .notOwner] : List Outcome) := by
  change outcome.text ∈ _ at h
  revert h
  cases outcome <;> decide

/-- **A refusal passes.** An honest submission that is refused was for a task
that ended otherwise, or for an attempt that has been taken back. -/
theorem refusal_passes (h : (queue cfg schemas).Run es db) {envelope : Envelope} {id w : Uuid}
    (hid : Uuid.parse envelope.taskId = some id) (hclaim : Claimed es id envelope.attemptNumber w)
    (now : Seconds) (resultId : Uuid)
    (hout : (completeTask db now envelope w resultId).2 ∈
      ([.fenced, .superseded, .notOwner] : List Outcome)) :
    Passed (completeTask db now envelope w resultId).1 id envelope.idempotencyToken
      envelope.attemptNumber := by
  rcases completeTask_cases db now envelope w resultId with hnone | ⟨row, hrow, hparse, hcase⟩
  · rw [hnone] at hout
    simp at hout
  · obtain rfl : row.id = id := Option.some.inj (hparse.symm.trans hid)
    have hmem := (Table.get?_eq_some_iff.mp hrow).1
    generalize completeTask db now envelope w resultId = out at hcase hout
    cases hcase with
    | terminal hterm =>
        refine .ended row hmem rfl hterm fun hset => ?_
        rw [show (db, terminalResultOutcome db row.resultId envelope.idempotencyToken).2 =
          .duplicate
          from (terminalResultOutcome_iff h hmem _).mpr hset] at hout
        simp at hout
    | fenced hterm hstale hheld =>
        refine .behind row (by rw [recordFence_tasks]; exact hmem) rfl ?_
        refine Nat.lt_of_le_of_ne (Run.claimed_le h hmem hclaim) fun heq => ?_
        -- the current attempt was claimed by the sender, so the row would name it
        rw [heq] at hclaim
        rcases (reachable_shape h.reachable row hmem).cases with hq | hlive | hended
        · exact absurd (Run.claimed_lt_of_queued h hmem hq hclaim) (Nat.lt_irrefl _)
        · exact hstale ⟨(Run.holder_iff h hmem hlive w).mpr hclaim, heq⟩
        · rw [hended] at hterm
          cases hterm
    | notOwner hterm hstale hheld =>
        rw [(Run.everHeld_iff h hmem hterm w).mpr ⟨_, hclaim⟩] at hheld
        cases hheld
    | illegal => simp at hout
    | raised => simp at hout
    | stored => simp at hout

/-- A stored result came from one submission, whenever one looks. -/
theorem StoredFor.payload_eq (h : (queue cfg schemas).Run fs db) {t t' : Task} {r r' : TaskResult}
    (hst : StoredFor es t r) (hsub : ∀ e ∈ es, e ∈ fs) (hst' : StoredFor fs t' r')
    (hid : t'.id = t.id) : r.payload = r'.payload := by
  obtain ⟨e, he, w, hop, hreply, -⟩ := hst.submitted
  obtain ⟨e', he', w', hop', hreply', -⟩ := hst'.submitted
  have hparse : Uuid.parse r.payload.taskId = some t.id := by
    rw [hst.taskId, Uuid.parse_str]
  have hparse' : Uuid.parse r'.payload.taskId = some t.id := by
    rw [hst'.taskId, hid, Uuid.parse_str]
  have hsame := Run.completion_unique h (hsub e he) he'
    (show e.completes t.id = true by simp [Event.completes, hop, hreply, Reply.done, hparse])
    (show e'.completes t.id = true by simp [Event.completes, hop', hreply', Reply.done, hparse'])
  rw [hsame, hop'] at hop
  simp only [Op.complete.injEq] at hop
  exact hop.1.symm

/-- **What has passed is never accepted**, whatever happens in between. -/
theorem Passed.never_accepts {envelope : Envelope} {id : Uuid}
    (hpass : Passed db id envelope.idempotencyToken envelope.attemptNumber)
    (h : (queue cfg schemas).Run es db) (htrace : (queue cfg schemas).Trace db fs db')
    (htoken : TokenOf (es ++ fs) id envelope.idempotencyToken envelope.attemptNumber)
    (hid : Uuid.parse envelope.taskId = some id) (now : Seconds) (w resultId : Uuid) :
    (completeTask db' now envelope w resultId).2 ≠ .transitioned ∧
      (completeTask db' now envelope w resultId).2 ≠ .duplicate := by
  have hrun' := h.extend htrace
  -- what settled the task, if anything did, was submitted for its attempt
  have hattempt : ∀ t' ∈ db'.tasks, t'.id = id → Settled db' id envelope.idempotencyToken →
      envelope.attemptNumber = t'.attemptCount := by
    rintro t' ht' rfl ⟨u, hu, huid, -, r, hr, hrid, hrtoken⟩
    obtain rfl := Table.eq_of_key hu ht' huid
    obtain ⟨-, r', hr', hrid', hst⟩ := (Run.ledger hrun').pointer u hu _ hrid
    obtain rfl := Table.eq_of_key hr' hr hrid'
    obtain ⟨e, he, w', hop, -, -⟩ := hst.submitted
    rw [← hst.attempt]
    exact (htoken e he r'.payload w' r'.id hop (by rw [hst.taskId, Uuid.parse_str]) hrtoken).symm
  cases hpass with
  | ended t ht htid hterm hother =>
      obtain ⟨t', ht', htid', hstatus, -, hresult⟩ := Trace.terminal_row htrace ht hterm
      have hid' : Uuid.parse envelope.taskId = some t'.id := by rw [htid', htid, hid]
      have hcase := completeRow_case db' now t' envelope w resultId
      rw [← completeTask_eq_completeRow ht' hid'] at hcase
      have hterm' : t'.status.isTerminal = true := by rw [hstatus, hterm]
      have hother' : ¬ Settled db' t'.id envelope.idempotencyToken := by
        rintro ⟨u, hu, huid, -, r', hr', hrid', hrtoken⟩
        obtain rfl := Table.eq_of_key hu ht' huid
        rcases hresult with hsame | hnone
        · obtain ⟨hdone, r, hr, hrid, hst⟩ :=
            (Run.ledger h).pointer t ht _ (hsame.symm.trans hrid')
          obtain ⟨-, r₂, hr₂, hrid₂, hst'⟩ := (Run.ledger hrun').pointer u hu _ hrid'
          obtain rfl := Table.eq_of_key hr₂ hr' hrid₂
          have hpay := hst.payload_eq hrun' (fun e he => List.mem_append_left fs he) hst' htid'
          exact hother ⟨t, ht, htid, hdone, r, hr, by rw [hrid, ← hsame, hrid'],
            by rw [hpay]; exact hrtoken⟩
        · rw [hnone] at hrid'
          cases hrid'
      generalize completeTask db' now envelope w resultId = out at hcase
      cases hcase with
      | terminal =>
          exact ⟨terminalResultOutcome_ne (by decide), fun hdup =>
            hother' ((terminalResultOutcome_iff hrun' ht' _).mp hdup)⟩
      | raised hlive => rw [TaskState.not_isTerminal_of_isLive hlive] at hterm'; cases hterm'
      | stored hlive => rw [TaskState.not_isTerminal_of_isLive hlive] at hterm'; cases hterm'
      | fenced hstatus' => rw [hterm'] at hstatus'; cases hstatus'
      | notOwner hstatus' => rw [hterm'] at hstatus'; cases hstatus'
      | illegal hstatus' => rw [hterm'] at hstatus'; cases hstatus'
  | behind t ht htid hlt =>
      obtain ⟨t', ht', htid', hle⟩ := Trace.row_attempt h.reachable htrace ht
      have hid' : Uuid.parse envelope.taskId = some t'.id := by rw [htid', htid, hid]
      have hcase := completeRow_case db' now t' envelope w resultId
      rw [← completeTask_eq_completeRow ht' hid'] at hcase
      generalize completeTask db' now envelope w resultId = out at hcase
      cases hcase with
      | terminal =>
          refine ⟨terminalResultOutcome_ne (by decide), fun hdup => ?_⟩
          have := hattempt t' ht' (htid'.trans htid)
            (by rw [← htid, ← htid']; exact (terminalResultOutcome_iff hrun' ht' _).mp hdup)
          omega
      | raised hlive howner hattempt' => omega
      | stored hlive howner hattempt' => omega
      | fenced => simp
      | notOwner => simp
      | illegal => simp

/-- **Acknowledgements are true and final.** Whatever run led here and whatever
session the submission came over: if the answer is `accepted`, the payload
named a task that is now completed with the payload's token stored. If an
honest submission (its attempt was claimed for its sender, its token belongs
to that attempt) is refused as fenced, superseded or not owned, then no
further operations lead to a state in which a resubmission of it is accepted,
over whatever session. -/
theorem acknowledgements_true_and_final (h : (queue cfg schemas).Run es db) {fl : FloatOps}
    {s s' : LocalSession} {payload : List (String × Json)} {now : Seconds} {due : Bool}
    {resultId : Uuid} {ack : ResultAck} (hfresh : db.results.get? resultId = none)
    (hack : handleTaskResult cfg fl db now due s payload resultId = some (db', s', ack)) :
    (ack.accepted = true → ∃ envelope id,
      validate fl payload cfg.taskResultMaxBytes = .ok envelope ∧
      Uuid.parse envelope.taskId = some id ∧ ack.taskId = envelope.taskId ∧
      Json.get payload "idempotency_token" = .str envelope.idempotencyToken.val ∧
      Settled db' id envelope.idempotencyToken) ∧
    (∀ envelope id, validate fl payload cfg.taskResultMaxBytes = .ok envelope →
      Uuid.parse envelope.taskId = some id → Claimed es id envelope.attemptNumber s.workerId →
      ack.accepted = false → ack.outcome ∈ ["fenced", "superseded", "not_owner"] →
      ∀ fs later, (queue cfg schemas).Trace db' fs later →
        TokenOf (es ++ fs) id envelope.idempotencyToken envelope.attemptNumber →
        ∀ r now₂ due₂ resultId₂ db₂ r₂ ack₂,
          handleTaskResult cfg fl later now₂ due₂ r payload resultId₂ = some (db₂, r₂, ack₂) →
          ack₂.accepted = false) := by
  refine ⟨fun hacc => ?_, ?_⟩
  · obtain ⟨envelope, hvalid, rfl, hout⟩ := handleTaskResult_accepted hack hacc
    obtain ⟨id, -, hid⟩ := envelope.exists_taskId
    obtain ⟨-, hanswer⟩ := Prod.mk.inj (handleTaskResult_of_valid hvalid hack)
    refine ⟨envelope, id, hvalid, hid, ?_, (validate_reads hvalid).token, ?_⟩
    · rw [(Prod.mk.inj hanswer).2]
      rfl
    · exact (completeTask_accepts_iff h hid hfresh now s.workerId).mp hout
  · intro envelope id hvalid hid hclaim hrefused houtcome fs later htrace htoken r
      now₂ due₂ resultId₂
      db₂ r₂ ack₂ hack₂
    obtain ⟨rfl, hanswer⟩ := Prod.mk.inj (handleTaskResult_of_valid hvalid hack)
    obtain ⟨-, rfl⟩ := Prod.mk.inj hanswer
    -- the submission is itself an operation of the queue
    have hstep : (queue cfg schemas).step db _ _ := complete_step hfresh now envelope s.workerId
    have hpass := refusal_passes h hid hclaim now resultId (outcome_of_text houtcome)
    have htoken' : ∀ reply,
        TokenOf ((es ++ [⟨now, .complete envelope s.workerId resultId, reply⟩]) ++
        fs) id envelope.idempotencyToken envelope.attemptNumber := by
      intro reply e he
      rw [List.append_assoc, List.mem_append, List.mem_append, List.mem_singleton] at he
      rcases he with hold | rfl | hnew
      · exact htoken e (List.mem_append_left _ hold)
      · rintro envelope' w' rid' hop - -
        simp only [Op.complete.injEq] at hop
        rw [hop.1]
      · exact htoken e (List.mem_append_right _ hnew)
    obtain ⟨hno, hno'⟩ := hpass.never_accepts (h.snoc hstep) htrace (htoken' _) hid now₂ r.workerId
      resultId₂
    by_contra hacc
    obtain ⟨envelope', hvalid', -, hout⟩ :=
      handleTaskResult_accepted hack₂ (Bool.eq_true_of_not_eq_false hacc)
    obtain rfl := Except.ok.inj (hvalid.symm.trans hvalid')
    exact hout.elim hno hno'

end

namespace Demo

def session : LocalSession := .open {} worker 1 (some 4) (some 0) ["sleep"]

/-- The payload a worker submits for attempt 0. -/
def payload : List (String × Json) :=
  [("task_id", .str task.str), ("status", .str "COMPLETED"), ("attempt_number", .int 0),
    ("session_epoch", .int 1), ("idempotency_token", .str "first"), ("duration_seconds", .int 1),
    ("result", .null), ("truncated", .bool false)]

end Demo

theorem Demo.payload_read : ∃ envelope,
    validate Demo.floats Demo.payload ({} : Config).taskResultMaxBytes = .ok envelope ∧
      envelope.taskId = Demo.task.str ∧ envelope.attemptNumber = 0 := by
  have hread : ((validate Demo.floats Demo.payload ({} : Config).taskResultMaxBytes).toOption.map
      fun envelope => (envelope.taskId, envelope.attemptNumber)) = some (Demo.task.str, 0) := by
    decide +kernel
  obtain ⟨envelope, hvalid, hnamed⟩ := Option.map_eq_some_iff.mp hread
  obtain ⟨htask, hattempt⟩ := Prod.mk.inj hnamed
  refine ⟨envelope, ?_, htask, hattempt⟩
  cases hresult : validate Demo.floats Demo.payload ({} : Config).taskResultMaxBytes with
  | error e =>
      rw [hresult] at hvalid
      cases hvalid
  | ok envelope' =>
      rw [hresult] at hvalid
      rw [Option.some.inj hvalid]

/-- The first worker had attempt 0, also when it has lost it. -/
theorem Demo.reclaimed_claimed :
    Claimed (play {} Demo.schemas .empty Demo.reclaimed).1 Demo.task 0 Demo.worker := by
  obtain ⟨t, ht, hid, hlive, hattempt, hholder⟩ :
      ∃ t ∈ (play {} Demo.schemas .empty Demo.claimed).2.tasks.rows, t.id = Demo.task ∧
        t.status.isLive = true ∧ t.attemptCount = 0 ∧ t.assignedWorkerId = some Demo.worker := by
    decide +kernel
  have hclaimed := Run.claimed_of_live (play_run Demo.claimed_playable) ht hlive hholder
  rw [hid, hattempt] at hclaimed
  exact hclaimed.later

/-- The claimed task's result is accepted. -/
theorem Demo.claimed_accepted : ∃ db' s' ack, handleTaskResult {} Demo.floats
    (play {} Demo.schemas .empty Demo.claimed).2 5 false Demo.session Demo.payload Demo.resultId =
      some (db', s', ack) ∧ ack.accepted = true := by
  have haccepted : ((handleTaskResult {} Demo.floats (play {} Demo.schemas .empty Demo.claimed).2 5
      false Demo.session Demo.payload Demo.resultId).map fun r => r.2.2.accepted) = some true := by
    decide +kernel
  obtain ⟨⟨db', s', ack⟩, hack, hacc⟩ := Option.map_eq_some_iff.mp haccepted
  exact ⟨db', s', ack, hack, hacc⟩

/-- That of a worker that has lost the task is fenced. -/
theorem Demo.reclaimed_fenced : ∃ db' s' ack, handleTaskResult {} Demo.floats
    (play {} Demo.schemas .empty Demo.reclaimed).2 45 false Demo.session Demo.payload
      Demo.resultId = some (db', s', ack) ∧ ack.accepted = false ∧ ack.outcome = "fenced" := by
  have hfenced : ((handleTaskResult {} Demo.floats (play {} Demo.schemas .empty Demo.reclaimed).2 45
      false Demo.session Demo.payload Demo.resultId).map fun r =>
        (r.2.2.accepted, r.2.2.outcome)) = some (false, "fenced") := by
    decide +kernel
  obtain ⟨⟨db', s', ack⟩, hack, hrefused⟩ := Option.map_eq_some_iff.mp hfenced
  obtain ⟨hacc, hout⟩ := Prod.mk.inj hrefused
  exact ⟨db', s', ack, hack, hacc, hout⟩

/-- The accepted result settles the task. The fenced one stays refused when the task has gone to
another worker. -/
theorem acknowledgements_true_and_final_demo :
    (∃ db' s' ack envelope id, handleTaskResult {} Demo.floats
        (play {} Demo.schemas .empty Demo.claimed).2 5 false
          Demo.session Demo.payload Demo.resultId = some (db', s', ack) ∧
      validate Demo.floats Demo.payload ({} : Config).taskResultMaxBytes = .ok envelope ∧
      Uuid.parse envelope.taskId = some id ∧ Settled db' id envelope.idempotencyToken) ∧
    ∃ db' s' ack, handleTaskResult {} Demo.floats
        (play {} Demo.schemas .empty Demo.reclaimed).2 45 false
          Demo.session Demo.payload Demo.resultId = some (db', s', ack) ∧
      ack.outcome = "fenced" ∧ ∀ db₂ r₂ ack₂, handleTaskResult {} Demo.floats
        (play {} Demo.schemas db' [(190, .dequeue Demo.otherWorker 1 100 none [])]).2 191 false
          Demo.session Demo.payload Demo.resultId = some (db₂, r₂, ack₂) →
        ack₂.accepted = false := by
  have hfresh : ∀ calls : List (Seconds × Op),
      ((play {} Demo.schemas .empty calls).2.results.get? Demo.resultId).isNone = true →
        (play {} Demo.schemas .empty calls).2.results.get? Demo.resultId = none :=
    fun _ => Option.isNone_iff_eq_none.mp
  constructor
  · obtain ⟨db', s', ack, hack, hacc⟩ := Demo.claimed_accepted
    obtain ⟨envelope, id, hvalid, hid, -, -, hset⟩ :=
      (acknowledgements_true_and_final (play_run Demo.claimed_playable)
        (hfresh _ (by decide +kernel)) hack).1 hacc
    exact ⟨db', s', ack, envelope, id, hack, hvalid, hid, hset⟩
  · obtain ⟨db', s', ack, hack, hacc, hout⟩ := Demo.reclaimed_fenced
    obtain ⟨envelope, hvalid, htask, hattempt⟩ := Demo.payload_read
    have hid : Uuid.parse envelope.taskId = some Demo.task := htask ▸ Uuid.parse_str _
    have hplay : Playable {} Demo.schemas db' [(190, .dequeue Demo.otherWorker 1 100 none [])] :=
      ⟨trivial, trivial⟩
    refine ⟨db', s', ack, hack, hout, fun db₂ r₂ ack₂ hack₂ => ?_⟩
    refine (acknowledgements_true_and_final (play_run Demo.reclaimed_playable)
      (hfresh _ (by decide +kernel)) hack).2 envelope Demo.task hvalid hid
      (hattempt ▸ Demo.reclaimed_claimed) hacc (by rw [hout]; simp) _ _ (play_trace hplay)
      ?_ _ _ _ _ _ _ _ hack₂
    -- no other result is submitted
    intro e he envelope' w resultId hop
    rcases List.mem_append.mp he with hold | hnew
    · have hmem := play_op_mem hold
      rw [hop] at hmem
      simp [Demo.reclaimed, Demo.claimed] at hmem
    · have hmem := play_op_mem hnew
      rw [hop] at hmem
      simp at hmem

end TaskFleet.Model
