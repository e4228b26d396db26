import TaskFleet.Logic.TaskLease

/-!
# The result ledger

`tasks.result_id` and `task_results` as one ledger: which row points at which
body, and who put it there. The invariant relates the two tables to the whole
history of the run, because the submitting worker is in no column of the body;
it is in the call that stored it.
-/

namespace TaskFleet.Model

open Py Sql

/-- Whether the event is a completion of the task `id` that was accepted. -/
def Event.completes (id : Uuid) (e : Event) : Bool :=
  match e.op with
  | .complete envelope _ _ => e.reply.done && Uuid.parse envelope.taskId = some id
  | _ => false

theorem ReclaimedTask.isAccept_label (r : ReclaimedTask) : r.label.isAccept = false := by
  unfold ReclaimedTask.label
  split
  · rfl
  · split <;> rfl

/-- The acceptances of a task's lease are its accepted completions. -/
theorem isAccept_label (id : Uuid) (e : Event) : (e.label id).isAccept = e.completes id := by
  cases hop : e.op with
  | complete envelope w resultId =>
      simp only [Event.label, Event.completes, hop]
      split
      · next h => simp [h.1, h.2, Lease.Event.isAccept]
      · next h =>
          rw [not_and] at h
          cases hdone : e.reply.done with
          | false => rfl
          | true => simp [h hdone, Lease.Event.isAccept]
  | reclaim batch skip draw =>
      simp only [Event.label, Event.completes, hop]
      split
      · exact ReclaimedTask.isAccept_label _
      · rfl
  | _ =>
      simp only [Event.label, Event.completes, hop]
      first
        | rfl
        | (split <;> rfl)

/-- The body `r` is the result of the row `t`, submitted by its holder for its
current attempt. -/
structure StoredFor (es : List Event) (t : Task) (r : TaskResult) : Prop where
  taskId : r.payload.taskId = t.id.str
  attempt : r.payload.attemptNumber = t.attemptCount
  submitted : ∃ e ∈ es, ∃ w, e.op = .complete r.payload w r.id ∧
    e.reply = .moved .transitioned ∧ t.assignedWorkerId = some w

/-- The two tables of a ledger agree. -/
structure Ledger (es : List Event) (db : Db) : Prop where
  /-- Only completed rows carry a pointer, and it leads to their own body. -/
  pointer : ∀ t ∈ db.tasks, ∀ rid, t.resultId = some rid →
    t.status = .completed ∧ ∃ r ∈ db.results, r.id = rid ∧ StoredFor es t r
  /-- Every body is pointed at. -/
  onto : ∀ r ∈ db.results, ∃ t ∈ db.tasks, t.resultId = some r.id

section

variable {cfg : Config} {schemas : Schemas} {db db' : Db} {e : Event} {es : List Event}

/-- At most one completion of a task is accepted. -/
theorem completes_at_most_once (h : (queue cfg schemas).Run es db) (id : Uuid) :
    (es.filter (Event.completes id)).length ≤ 1 := by
  have honce := Lease.Run.accept_once (Run.lease h id)
  rw [List.filter_map, List.length_map] at honce
  have hsame : Lease.Event.isAccept ∘ Event.label id = Event.completes id := by
    funext e
    exact isAccept_label id e
  rwa [hsame] at honce

/-- Two accepted completions of a task are one. -/
theorem Run.completion_unique (h : (queue cfg schemas).Run es db) {id : Uuid} {e e' : Event}
    (he : e ∈ es) (he' : e' ∈ es) (hc : e.completes id = true) (hc' : e'.completes id = true) :
    e = e' := by
  have hlen := completes_at_most_once h id
  have hmem : e ∈ es.filter (Event.completes id) := List.mem_filter.mpr ⟨he, hc⟩
  have hmem' : e' ∈ es.filter (Event.completes id) := List.mem_filter.mpr ⟨he', hc'⟩
  match hfilter : es.filter (Event.completes id) with
  | [] => rw [hfilter] at hmem; cases hmem
  | [x] =>
      rw [hfilter, List.mem_singleton] at hmem hmem'
      rw [hmem, hmem']
  | _ :: _ :: _ => rw [hfilter] at hlen; simp at hlen

/-- Two rows never point at one body. -/
theorem Ledger.injective (h : Ledger es db) {t u : Task} (ht : t ∈ db.tasks) (hu : u ∈ db.tasks)
    {rid : Uuid} (htr : t.resultId = some rid) (hur : u.resultId = some rid) : t = u := by
  obtain ⟨-, r, hr, hid, hst⟩ := h.pointer t ht rid htr
  obtain ⟨-, r', hr', hid', hsu⟩ := h.pointer u hu rid hur
  obtain rfl := Table.eq_of_key hr hr' (hid.trans hid'.symm)
  exact Table.eq_of_key ht hu (Uuid.str_inj.mp (hst.taskId.symm.trans hsu.taskId))

theorem StoredFor.later {t : Task} {r : TaskResult} (h : StoredFor es t r) :
    StoredFor (es ++ [e]) t r := by
  obtain ⟨f, hf, w, hop⟩ := h.submitted
  exact ⟨h.taskId, h.attempt, f, List.mem_append_left _ hf, w, hop⟩

/-- A pointer that a step leaves or puts on a row: an old one, or the one a
completion has just written. -/
theorem RowStep.resultId {t t' : Task} (h : RowStep cfg db e t t') {rid : Uuid}
    (hr : t'.resultId = some rid) : t.resultId = some rid ∨
      ∃ envelope w, e.op = .complete envelope w rid ∧ e.reply = .moved .transitioned ∧
        Uuid.parse envelope.taskId = some t.id ∧ t.assignedWorkerId = some w ∧
        envelope.attemptNumber = t.attemptCount ∧ t' = t.complete e.now rid := by
  cases h with
  | complete hop hreply hid howner hlive hattempt =>
      cases hr
      exact .inr ⟨_, _, hop, hreply, hid, howner, hattempt, rfl⟩
  | purge => cases hr
  | _ => exact .inl hr

/-- A purge keeps the ledger: bodies and pointers go together. -/
theorem Ledger.purge (h : Ledger es db) {retentionDays : Int}
    (hs : (queue cfg schemas).step db e db') (hop : e.op = .purge retentionDays) :
    Ledger (es ++ [e]) db' := by
  obtain ⟨-, happly⟩ := hs
  rw [hop] at happly
  simp only [apply, Prod.mk.injEq] at happly
  obtain ⟨hdb, -⟩ := happly
  rw [purgeExpiredResults_fst] at hdb
  subst hdb
  refine ⟨fun t' ht' rid hrid => ?_, fun r hr => ?_⟩
  · obtain ⟨t, ht, rfl⟩ := (Table.mem_updateWhere Task.clearResult_id).mp ht'
    cases hp : pointsInto (purged e.now retentionDays) db.results t with
    | true => simp [hp, Task.clearResult] at hrid
    | false =>
        simp only [hp, Bool.false_eq_true, if_false] at hrid ⊢
        obtain ⟨hc, r, hr, hid, hst⟩ := h.pointer t ht rid hrid
        refine ⟨hc, r, Table.mem_deleteWhere.mpr ⟨hr, ?_⟩, hid, hst.later⟩
        -- a deleted body would have cleared the pointer
        by_contra hdel
        have : pointsInto (purged e.now retentionDays) db.results t = true :=
          pointsInto_iff.mpr ⟨r, hr, by rw [hrid, hid], by simpa using hdel⟩
        rw [hp] at this
        cases this
  · obtain ⟨hr, hkeep⟩ := Table.mem_deleteWhere.mp hr
    obtain ⟨t, ht, htr⟩ := h.onto r hr
    have hp : ¬ pointsInto (purged e.now retentionDays) db.results t = true := by
      intro hp
      obtain ⟨r', hr', hid', hdel⟩ := pointsInto_iff.mp hp
      rw [htr, Option.some.injEq] at hid'
      rw [Table.eq_of_key hr hr' hid'] at hkeep
      rw [hkeep] at hdel
      cases hdel
    refine ⟨_, Table.mem_updateWhere_of_mem Task.clearResult_id ht, ?_⟩
    rw [if_neg hp]
    exact htr

/-- **One step keeps the ledger.** -/
theorem Ledger.step (h : Ledger es db) (hs : (queue cfg schemas).step db e db') :
    Ledger (es ++ [e]) db' := by
  by_cases hpurge : ∃ days, e.op = .purge days
  · obtain ⟨days, hop⟩ := hpurge
    exact h.purge hs hop
  have hresults := step_results hs
  -- away from a purge no body goes
  have hgrow : ∀ r ∈ db.results, r ∈ db'.results := by
    intro r hr
    rw [hresults]
    unfold Event.resultsAfter
    split
    · split
      · exact Table.mem_insert_of_mem hr
      · exact hr
    · next days hop => exact absurd ⟨days, hop⟩ hpurge
    · exact hr
  refine ⟨fun t' ht' rid hrid => ?_, fun r hr => ?_⟩
  · rcases (step_rows hs).backward t' ht' with ⟨t, ht, hrow, -⟩ | ⟨⟨_, _, _, -, -, heq⟩, -⟩
    · rcases hrow.resultId hrid with hold | ⟨envelope, w, hop, hreply, hid, howner, hattempt, rfl⟩
      · obtain ⟨hc, r, hr, hrid', hst⟩ := h.pointer t ht rid hold
        rcases hrow.of_terminal (by rw [hc]; rfl) with rfl | ⟨days, hop, -⟩
        · exact ⟨hc, r, hgrow r hr, hrid', hst.later⟩
        · exact absurd ⟨days, hop⟩ hpurge
      · have hnew : storedResult e.now envelope rid ∈ db'.results := by
          have hfresh : ∀ x ∈ db.results, x.id ≠ (storedResult e.now envelope rid).id := by
            have := hs.1
            rw [hop] at this
            exact Table.get?_eq_none_iff.mp this
          rw [hresults]
          simp only [Event.resultsAfter, hop, hreply, Reply.done, decide_true, if_true]
          exact (Table.mem_insert hfresh).mpr (.inr rfl)
        exact ⟨rfl, _, hnew, rfl, Body.taskId_of_parse hid, hattempt, e, by simp, w, hop, hreply,
          howner⟩
    · rw [heq] at hrid
      cases hrid
  · rw [hresults] at hr
    have hold : ∀ r ∈ db.results, ∃ t ∈ db'.tasks, t.resultId = some r.id := by
      intro r hr
      obtain ⟨t, ht, htr⟩ := h.onto r hr
      obtain ⟨t', ht', hrow, -⟩ := (step_rows hs).forward t ht
      rcases hrow.of_terminal (by rw [(h.pointer t ht r.id htr).1]; rfl) with rfl | ⟨days, hop, -⟩
      · exact ⟨t', ht', htr⟩
      · exact absurd ⟨days, hop⟩ hpurge
    unfold Event.resultsAfter at hr
    split at hr
    · next envelope w rid hop =>
        split at hr
        · next hdone =>
            have hfresh : ∀ x ∈ db.results, x.id ≠ (storedResult e.now envelope rid).id := by
              have := hs.1
              rw [hop] at this
              exact Table.get?_eq_none_iff.mp this
            rcases (Table.mem_insert hfresh).mp hr with hmem | rfl
            · exact hold r hmem
            · obtain ⟨-, happly⟩ := hs
              rw [hop] at happly
              simp only [apply, Prod.mk.injEq] at happly
              obtain ⟨rfl, hreply⟩ := happly
              rw [← hreply] at hdone
              obtain ⟨row, hrow, -, -, -, -, hdb⟩ :=
                completeTask_stored (by simpa [Reply.done] using hdone)
              rw [hdb]
              exact ⟨_, Db.mem_updateTask Task.complete_id hrow rfl, rfl⟩
        · exact hold r hr
    · next days hop => exact absurd ⟨days, hop⟩ hpurge
    · exact hold r hr

/-- **Every run keeps the ledger.** -/
theorem Run.ledger (h : (queue cfg schemas).Run es db) : Ledger es db := by
  refine h.invariant (I := Ledger) ?_ ?_
  · rintro db ⟨htasks, hresults, -⟩
    refine ⟨fun t ht => ?_, fun r hr => ?_⟩
    · rw [htasks] at ht
      exact absurd ht (Table.not_mem_empty t)
    · rw [hresults] at hr
      exact absurd hr (Table.not_mem_empty r)
  · intro es db e db' _ ih hs
    exact ih.step hs

end

end TaskFleet.Model
