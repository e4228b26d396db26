import TaskFleet.Logic.Ledger
import TaskFleet.Model.TaskViews

/-!
# How long a result is kept

An accepted completion writes a body and the pointer to it. Whatever is called afterwards,
the two stay as they were written until a purge finds the body older than its retention;
then both go, in one transaction. So what `get_task` shows of a completed task depends on
nothing but the purges since (`result_durable`).
-/

namespace TaskFleet.Model

open Py Sql

section

variable {cfg : Config} {schemas : Schemas} {db db' : Db} {e : Event} {es : List Event}

/-- The event is a purge that removes a body submitted at `submittedAt`. -/
def Event.outdates (submittedAt : Seconds) (e : Event) : Bool :=
  match e.op with
  | .purge retentionDays => 0 < retentionDays && submittedAt < e.now - 86400 * retentionDays
  | _ => false

/-- The row `id` is completed and points at the body `r`. -/
structure Held (id : Uuid) (r : TaskResult) (db : Db) : Prop where
  row : ∃ t ∈ db.tasks, t.id = id ∧ t.status = .completed ∧ t.resultId = some r.id
  body : r ∈ db.results

/-- The row `id` is completed and points nowhere. -/
def Gone (id : Uuid) (db : Db) : Prop :=
  ∃ t ∈ db.tasks, t.id = id ∧ t.status = .completed ∧ t.resultId = none

/-- A body that is there stays until a purge outdates it. -/
theorem Held.body_step {id : Uuid} {r : TaskResult} (h : Held id r db)
    (hs : (queue cfg schemas).step db e db') :
    r ∈ db'.results ↔ e.outdates r.submittedAt = false := by
  rw [step_results hs]
  unfold Event.resultsAfter Event.outdates
  cases hop : e.op with
  | complete envelope w resultId =>
      by_cases hdone : e.reply.done = true
      · simpa [hdone] using Table.mem_insert_of_mem h.body
      · simpa [hdone] using h.body
  | purge retentionDays =>
      by_cases hoff : retentionDays ≤ 0
      · simpa [hop, hoff] using h.body
      · have hon : 0 < retentionDays := Int.not_le.mp hoff
        simp [hoff, hon, Table.mem_deleteWhere, h.body, pastRetention]
  | _ => simpa [hop] using h.body

/-- **One step** keeps the result, or is the purge that removes it. -/
theorem Held.step {id : Uuid} {r : TaskResult} (h : Held id r db)
    (hrun : (queue cfg schemas).Run es db) (hs : (queue cfg schemas).step db e db') :
    if e.outdates r.submittedAt then Gone id db' else Held id r db' := by
  obtain ⟨t, ht, rfl, hstatus, hpointer⟩ := h.row
  obtain ⟨t', ht', hrow, hid⟩ := (step_rows hs).forward t ht
  have hcases := hrow.of_terminal (by rw [hstatus]; rfl)
  have hledger := Run.ledger (hrun.snoc hs)
  have hbody := h.body_step hs
  cases hout : e.outdates r.submittedAt with
  | true =>
      rw [if_pos rfl]
      rcases hcases with rfl | ⟨days, -, rfl⟩
      · -- a pointer that stays leads to a body, which would be this one
        obtain ⟨-, r', hr', hrid, -⟩ := hledger.pointer t' ht' r.id hpointer
        have hmem : r' ∈ db.results ∨ ∃ envelope w, e.op = .complete envelope w r.id := by
          have hr'' := hr'
          rw [step_results hs, Event.resultsAfter] at hr''
          unfold Event.outdates at hout
          cases hop : e.op with
          | purge retentionDays =>
              simp only [hop] at hr''
              split at hr''
              · exact .inl hr''
              · exact .inl (Table.mem_deleteWhere.mp hr'').1
          | _ => rw [hop] at hout; cases hout
        rcases hmem with hold | ⟨envelope, w, hop⟩
        · rw [Table.eq_of_key hold h.body hrid] at hr'
          rw [hbody.mp hr'] at hout
          cases hout
        · rw [Event.outdates, hop] at hout
          cases hout
      · exact ⟨t.clearResult, ht', rfl, hstatus, rfl⟩
  | false =>
      rw [if_neg (by decide)]
      have hkept := hbody.mpr hout
      rcases hcases with rfl | ⟨days, -, rfl⟩
      · exact ⟨⟨t', ht', rfl, hstatus, hpointer⟩, hkept⟩
      · -- a body that stays is pointed at, by no other row
        obtain ⟨u, hu, hupointer⟩ := hledger.onto r hkept
        rcases (step_rows hs).backward u hu with ⟨v, hv, hvrow, hvid⟩ | ⟨hfresh, -⟩
        · rcases hvrow.resultId hupointer with hsame | ⟨envelope, w, hop, -, -, -, -, rfl⟩
          · have hvt := (Run.ledger hrun).injective hv ht hsame hpointer
            rw [hvt] at hvid
            have huclear : u = t.clearResult := Table.eq_of_key hu ht' hvid
            rw [huclear] at hupointer
            cases hupointer
          · -- a fresh body does not have the id of one that is there
            have hadm := hs.1
            rw [hop] at hadm
            exact absurd rfl (Table.get?_eq_none_iff.mp hadm r h.body)
        · obtain ⟨req, taskType, parameters, -, -, heq⟩ := hfresh
          rw [heq] at hupointer
          cases hupointer

/-- What is gone stays gone. -/
theorem Gone.step {id : Uuid} (h : Gone id db) (hs : (queue cfg schemas).step db e db') :
    Gone id db' := by
  obtain ⟨t, ht, rfl, hstatus, hpointer⟩ := h
  obtain ⟨t', ht', hrow, hid⟩ := (step_rows hs).forward t ht
  rcases hrow.of_terminal (by rw [hstatus]; rfl) with rfl | ⟨days, -, rfl⟩
  · exact ⟨t', ht', rfl, hstatus, hpointer⟩
  · exact ⟨t.clearResult, ht', rfl, hstatus, rfl⟩

/-- **A whole trace.** -/
theorem Held.trace {past : List Event} {id : Uuid} {r : TaskResult}
    (hrun : (queue cfg schemas).Run past db) (h : Held id r db)
    (htrace : (queue cfg schemas).Trace db es db') :
    if es.any (Event.outdates r.submittedAt) then Gone id db' else Held id r db' := by
  induction htrace with
  | nil => exact h
  | @snoc es u v e hfirst hs ih =>
      have hlast : (es ++ [e]).any (Event.outdates r.submittedAt) =
          (es.any (Event.outdates r.submittedAt) || e.outdates r.submittedAt) := by
        rw [List.any_append, List.any_cons, List.any_nil, Bool.or_false]
      rw [hlast]
      cases hany : es.any (Event.outdates r.submittedAt) with
      | true =>
          rw [hany, if_pos rfl] at ih
          rw [Bool.true_or, if_pos rfl]
          exact ih.step hs
      | false =>
          rw [hany, if_neg (by decide)] at ih
          rw [Bool.false_or]
          exact ih.step (hrun.extend hfirst) hs

/-- What an accepted completion leaves. -/
theorem kept_of_complete (hs : (queue cfg schemas).step db e db') {envelope : Envelope}
    {w resultId : Uuid} (hop : e.op = .complete envelope w resultId)
    (hreply : e.reply = .moved .transitioned) :
    ∃ id, Uuid.parse envelope.taskId = some id ∧
      Held id (storedResult e.now envelope resultId) db' := by
  obtain ⟨hadm, happly⟩ := hs
  rw [hop] at hadm happly
  simp only [apply, Prod.mk.injEq, hreply, Reply.moved.injEq] at happly
  obtain ⟨rfl, hmoved⟩ := happly
  obtain ⟨row, hrow, hid, -, -, -, hdb⟩ := completeTask_stored hmoved
  refine ⟨row.id, hid, ⟨⟨row.complete e.now resultId, ?_, rfl, rfl, rfl⟩, ?_⟩⟩
  · rw [hdb]
    exact Db.mem_updateTask Task.complete_id hrow rfl
  · have hfresh : ∀ r ∈ db.results, r.id ≠ (storedResult e.now envelope resultId).id :=
      Table.get?_eq_none_iff.mp hadm
    rw [hdb]
    exact (Table.mem_insert hfresh).mpr (.inr rfl)

/-- What `get_task` shows of the body of a task. -/
def shownResult (db : Db) (taskId : String) : Option (Option (Envelope × Nat × Seconds)) :=
  (getTask db taskId).map fun detail =>
    match detail.resultPayload, detail.resultSizeBytes, detail.resultSubmittedAt with
    | some payload, some sizeBytes, some submittedAt => some (payload, sizeBytes, submittedAt)
    | _, _, _ => none

theorem Held.shown {id : Uuid} {r : TaskResult} (h : Held id r db) {taskId : String}
    (hid : Uuid.parse taskId = some id) :
    shownResult db taskId = some (some (r.payload, r.sizeBytes, r.submittedAt)) := by
  obtain ⟨t, ht, rfl, -, hpointer⟩ := h.row
  rw [shownResult, getTask, hid, Option.bind_some, Table.get?_of_mem ht]
  simp only [Option.map_some, Task.detail, joinedResult, hpointer, Option.bind_some,
    Table.get?_of_mem h.body]

theorem Gone.shown {id : Uuid} (h : Gone id db) {taskId : String}
    (hid : Uuid.parse taskId = some id) : shownResult db taskId = some none := by
  obtain ⟨t, ht, rfl, -, hpointer⟩ := h
  rw [shownResult, getTask, hid, Option.bind_some, Table.get?_of_mem ht]
  simp only [Option.map_some, Task.detail, joinedResult, hpointer, Option.bind_none,
    Option.map_none]

/-- **Durability.** Once a completion was accepted, at any time and in any state, `get_task`
shows its envelope, size and time in every later state, whatever was called since, until a
purge with a positive retention finds it too old; from then on it shows a task without a
result, forever. A resubmission with the same token is answered `DUPLICATE` exactly as long
as the body is there, and `SUPERSEDED` after that. -/
theorem result_durable {past : List Event} (hpast : (queue cfg schemas).Run past db)
    (hs : (queue cfg schemas).step db e db') {envelope : Envelope} {w resultId : Uuid}
    (hop : e.op = .complete envelope w resultId) (hreply : e.reply = .moved .transitioned)
    {db'' : Db} (htrace : (queue cfg schemas).Trace db' es db'') :
    let purged := es.any (Event.outdates e.now)
    shownResult db'' envelope.taskId =
      some (if purged then none else some (envelope, envelope.sizeBytes, e.now)) ∧
    ∀ (again : Envelope) (now : Seconds) (v rid : Uuid), again.taskId = envelope.taskId →
      again.idempotencyToken = envelope.idempotencyToken →
      completeTask db'' now again v rid = (db'', if purged then .superseded else .duplicate) := by
  intro purged
  obtain ⟨id, hid, hkept⟩ := kept_of_complete hs hop hreply
  have hafter := hkept.trace (hpast.snoc hs) htrace
  have hstored : (storedResult e.now envelope resultId).submittedAt = e.now := rfl
  rw [hstored] at hafter
  -- a completed row answers from what it points at
  have hanswer : ∀ {t : Task} (again : Envelope) (now : Seconds) (v rid : Uuid),
      t ∈ db''.tasks → t.id = id → t.status = .completed → again.taskId = envelope.taskId →
      completeTask db'' now again v rid =
        (db'', terminalResultOutcome db'' t.resultId again.idempotencyToken) := by
    intro t again now v rid ht htid hstatus htask
    rw [completeTask_eq_completeRow ht (by rw [htask, hid, htid]), completeRow, hstatus]
    rfl
  cases hpurged : purged with
  | true =>
      have hpurged' : es.any (Event.outdates e.now) = true := hpurged
      rw [hpurged', if_pos rfl] at hafter
      refine ⟨hafter.shown hid, ?_⟩
      intro again now v rid htask htoken
      obtain ⟨t, ht, htid, hstatus, hpointer⟩ := hafter
      rw [hanswer again now v rid ht htid hstatus htask, hpointer]
      rfl
  | false =>
      have hpurged' : es.any (Event.outdates e.now) = false := hpurged
      rw [hpurged', if_neg (by decide)] at hafter
      refine ⟨hafter.shown hid, ?_⟩
      intro again now v rid htask htoken
      obtain ⟨t, ht, htid, hstatus, hpointer⟩ := hafter.row
      rw [hanswer again now v rid ht htid hstatus htask, hpointer, terminalResultOutcome,
        Option.bind_some, Table.get?_of_mem hafter.body, htoken]
      simp [storedResult]

end

/-- A purge after six days leaves the result of the small deployment, one after twelve
takes it away. -/
def Demo.purges : List (Seconds × Op) := [(518400, .purge 7), (1036800, .purge 7)]

theorem result_durable_purged :
    let db := (play {} Demo.schemas .empty Demo.claimed).2
    let done := completeTask db 5 (Demo.envelope 0 Demo.token) Demo.worker Demo.resultId
    shownResult (play {} Demo.schemas done.1 (Demo.purges.take 1)).2 Demo.task.str =
        some (some (Demo.envelope 0 Demo.token, 180, 5)) ∧
      shownResult (play {} Demo.schemas done.1 Demo.purges).2 Demo.task.str = some none := by
  intro db done
  have hpast := play_run Demo.claimed_playable
  have hfresh : db.results.get? Demo.resultId = none :=
    Option.isNone_iff_eq_none.mp (by decide +kernel)
  have hstep : (queue {} Demo.schemas).step db
      ⟨5, .complete (Demo.envelope 0 Demo.token) Demo.worker Demo.resultId, .moved done.2⟩ done.1 :=
    complete_step hfresh 5 (Demo.envelope 0 Demo.token) Demo.worker
  have hmoved : Reply.moved done.2 = .moved .transitioned := by
    rw [show done.2 = .transitioned by decide +kernel]
  have hplay : ∀ calls : List (Seconds × Op), Playable {} Demo.schemas done.1 calls →
      (queue {} Demo.schemas).Trace done.1 (play {} Demo.schemas done.1 calls).1
        (play {} Demo.schemas done.1 calls).2 := fun _ h => play_trace h
  have hkept := (result_durable hpast hstep rfl hmoved
    (hplay (Demo.purges.take 1) ⟨trivial, trivial⟩)).1
  have hgone := (result_durable hpast hstep rfl hmoved
    (hplay Demo.purges ⟨trivial, trivial, trivial⟩)).1
  have hearly : (play {} Demo.schemas done.1 (Demo.purges.take 1)).1.any
      (Event.outdates 5) = false := by decide +kernel
  have hlate : (play {} Demo.schemas done.1 Demo.purges).1.any (Event.outdates 5) = true := by
    decide +kernel
  constructor
  · rw [hearly] at hkept
    exact hkept
  · rw [hlate] at hgone
    exact hgone

end TaskFleet.Model
