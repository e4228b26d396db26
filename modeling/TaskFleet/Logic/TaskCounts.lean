import TaskFleet.Logic.ClaimHistory

/-!
# How often a task is handed out and taken back

A `dequeue` and a sweep answer with the rows they wrote, each at most once. So
the answers of a run can be counted: of one task, the attempts handed out are
`0, 1, …` in this order (`Run.claims_numbered`), and it was taken back
`attempt_count` times (`Run.reclaims_length`).
-/

namespace TaskFleet.Model

open Py Sql

/-- Every row the dequeues of the history handed out, oldest first. -/
def handed (es : List Event) : List ClaimedTask := es.flatMap fun e => e.reply.claims

/-- Every row the sweeps of the history took back, oldest first. -/
def takenBack (es : List Event) : List ReclaimedTask := es.flatMap fun e => e.reply.reclaims

/-- The attempts of the task `id` that were handed out, oldest first. -/
def claimNumbers (id : Uuid) (es : List Event) : List ℕ :=
  ((handed es).filter fun r => r.id = id).map ClaimedTask.attemptCount

/-- The event reports the task started, and the report is written. -/
def Event.starts (id : Uuid) (e : Event) : Bool :=
  match e.op with
  | .start taskId _ => e.reply.done && decide (Uuid.parse taskId = some id)
  | _ => false

section

variable {cfg : Config} {schemas : Schemas} {db db' : Db} {e : Event} {es : List Event}

/-- A selection of rows has each row once. -/
theorem nodup_selection {tasks : Tasks} {p : Task → Bool} {r : Task → Task → Prop} [DecidableRel r]
    {n : ℕ} : ((((tasks.rows.filter p).insertionSort r).take n).map Task.id).Nodup := by
  have hperm := List.perm_insertionSort r (tasks.rows.filter p)
  have hsorted : (((tasks.rows.filter p).insertionSort r).map Task.id).Nodup :=
    (hperm.map Task.id).nodup_iff.mpr (tasks.nodup.sublist (List.filter_sublist.map Task.id))
  exact hsorted.sublist ((List.take_sublist _ _).map Task.id)

/-- Only a `dequeue` hands rows out. -/
theorem step_claims (hs : (queue cfg schemas).step db e db') : e.reply.claims = [] ∨
    ∃ w limit maxBatch taskTypes skip, e.op = .dequeue w limit maxBatch taskTypes skip ∧
      e.reply.claims = (claimedRows cfg db e.now w limit taskTypes skip).map
        fun t => (t.claim cfg db.policies e.now w).claimed := by
  obtain ⟨-, happly⟩ := hs
  obtain ⟨now, op, reply⟩ := e
  cases op with
  | dequeue w limit maxBatch taskTypes skip =>
      simp only [apply] at happly
      split at happly
      · next rows hok =>
          cases happly
          exact .inr ⟨w, limit, maxBatch, taskTypes, skip, rfl, (dequeue_eq_ok hok).2⟩
      · cases happly
        exact .inl rfl
  | enqueue | reclaim | setPolicy | clearPolicy =>
      simp only [apply] at happly
      split at happly <;> (cases happly; exact .inl rfl)
  | _ =>
      simp only [apply, Prod.mk.injEq] at happly
      obtain ⟨-, rfl⟩ := happly
      exact .inl rfl

/-- A row that is handed out is granted. -/
theorem label_of_mem_claims (hs : (queue cfg schemas).step db e db') {r : ClaimedTask} {id : Uuid}
    (hr : r ∈ e.reply.claims) (hid : r.id = id) : ∃ w, e.label id = .grant w r.attemptCount := by
  rcases step_claims hs with hnone | ⟨w, _, _, _, _, hop, -⟩
  · rw [hnone] at hr
    cases hr
  · exact ⟨w, label_of_claims hs ⟨⟨_, _, _, _, hop⟩, r, hr, hid, rfl⟩⟩

/-- Only a sweep takes rows back. -/
theorem step_reclaims (hs : (queue cfg schemas).step db e db') : e.reply.reclaims = [] ∨
    ∃ batch skip draw, e.op = .reclaim batch skip draw ∧
      e.reply.reclaims = (expiredRows db e.now batch skip).map
        (Task.reclaimed cfg db.policies e.now draw) := by
  obtain ⟨-, happly⟩ := hs
  obtain ⟨now, op, reply⟩ := e
  cases op with
  | reclaim batch skip draw =>
      simp only [apply] at happly
      split at happly
      · next rows hok =>
          cases happly
          exact .inr ⟨batch, skip, draw, rfl, (reclaimExpiredLeases_eq_ok hok).2⟩
      · cases happly
        exact .inl rfl
  | enqueue | dequeue | setPolicy | clearPolicy =>
      simp only [apply] at happly
      split at happly <;> (cases happly; exact .inl rfl)
  | _ =>
      simp only [apply, Prod.mk.injEq] at happly
      obtain ⟨-, rfl⟩ := happly
      exact .inl rfl

/-- A row taken from a holder is a lease taken back. -/
theorem ReclaimedTask.isTaken_label {r : ReclaimedTask} {w : Uuid}
    (h : r.previousWorkerId = some w) : r.label.isTaken = true := by
  simp only [ReclaimedTask.label, h]
  split <;> rfl

/-- An answer without rows takes nothing back. -/
theorem isTaken_label_eq_false {id : Uuid} (h : e.reply.reclaims = []) :
    (e.label id).isTaken = false := by
  cases hop : e.op with
  | reclaim =>
      simp only [Event.label, hop, h]
      rfl
  | _ =>
      simp only [Event.label, hop]
      first
        | rfl
        | (split <;> rfl)

/-- The rows of one answer under one id: what the event means to the task. -/
theorem claims_filter (hs : (queue cfg schemas).step db e db') (id : Uuid) :
    (e.reply.claims.filter fun r => r.id = id).map ClaimedTask.attemptCount =
      (e.label id).granted.toList.map Prod.fst := by
  rcases step_claims hs with hnone | ⟨w, limit, maxBatch, taskTypes, skip, hop, hrows⟩
  · have hlabel : (e.label id).granted = none := by
      cases hl : e.label id with
      | grant w n =>
          obtain ⟨-, r, hr, -⟩ := claims_of_label hl
          rw [hnone] at hr
          cases hr
      | _ => rfl
    rw [hnone, hlabel]
    rfl
  · have hnodup : (e.reply.claims.map ClaimedTask.id).Nodup := by
      rw [hrows, List.map_map]
      exact nodup_selection
    rw [Table.filter_eq_toList_find? hnodup]
    simp only [Event.label, hop]
    cases hfind : e.reply.claims.find? fun r => r.id = id with
    | none => rfl
    | some r => rfl

/-- The same of a sweep. -/
theorem reclaims_filter (hreach : (queue cfg schemas).Reachable db)
    (hs : (queue cfg schemas).step db e db') (id : Uuid) :
    (e.reply.reclaims.filter fun r => r.id = id).length =
      ([e.label id].filter Lease.Event.isTaken).length := by
  rcases step_reclaims hs with hnone | ⟨batch, skip, draw, hop, hrows⟩
  · have hlabel : (e.label id).isTaken = false := isTaken_label_eq_false hnone
    rw [hnone, List.filter_cons_of_neg (by simpa using hlabel)]
    rfl
  · have hnodup : (e.reply.reclaims.map ReclaimedTask.id).Nodup := by
      rw [hrows, List.map_map]
      exact nodup_selection
    rw [Table.filter_eq_toList_find? hnodup]
    simp only [Event.label, hop]
    cases hfind : e.reply.reclaims.find? fun r => r.id = id with
    | none => rfl
    | some r =>
        have hr := List.mem_of_find?_eq_some hfind
        rw [hrows] at hr
        obtain ⟨t, ht, rfl⟩ := List.mem_map.mp hr
        obtain ⟨hmem, hwhere⟩ := mem_expiredRows ht
        obtain ⟨w, hw⟩ := (reachable_shape hreach t hmem).holder (expired_holds.mp hwhere).1
        rw [List.filter_cons_of_pos (ReclaimedTask.isTaken_label hw)]
        rfl

theorem claimNumbers_snoc (id : Uuid) : claimNumbers id (es ++ [e]) =
    claimNumbers id es ++ (e.reply.claims.filter fun r => r.id = id).map
      ClaimedTask.attemptCount := by
  simp [claimNumbers, handed]

/-- The attempts handed out are the grants of the lease. -/
theorem Run.claimNumbers_eq (h : (queue cfg schemas).Run es db) (id : Uuid) :
    claimNumbers id es = (Lease.grants (es.map (Event.label id))).map Prod.fst := by
  refine h.invariant (I := fun es _ =>
    claimNumbers id es = (Lease.grants (es.map (Event.label id))).map Prod.fst) (fun _ _ => rfl) ?_
  intro es db e db' _ ih hs
  rw [claimNumbers_snoc, ih, claims_filter hs, List.map_append, List.map_singleton,
    Lease.grants_snoc, List.map_append]

/-- **Claims are numbered** from zero, without a gap and in this order. -/
theorem Run.claims_numbered (h : (queue cfg schemas).Run es db) (id : Uuid) :
    ∃ k, claimNumbers id es = List.range k ∧ Lease.Numbered (es.map (Event.label id))
      (db.lease id) k := by
  obtain ⟨k, hk⟩ := Lease.Run.numbered (Run.lease h id)
  exact ⟨k, (Run.claimNumbers_eq h id).trans hk.tokens, hk⟩

/-- A task was taken back as often as `attempt_count` says. -/
theorem Run.reclaims_length (h : (queue cfg schemas).Run es db) {t : Task} (ht : t ∈ db.tasks) :
    ((takenBack es).filter fun r => r.id = t.id).length = t.attemptCount := by
  have htoken : (db.lease t.id).token = t.attemptCount := by
    rw [Db.lease_of_mem ht]
    rfl
  rw [← htoken, ← Lease.Run.taken_length (Run.lease h t.id)]
  refine h.invariant (I := fun es _ => ((takenBack es).filter fun r => r.id = t.id).length =
    ((es.map (Event.label t.id)).filter Lease.Event.isTaken).length) (fun _ _ => rfl) ?_
  intro es db e db' hrun ih hs
  rw [takenBack, List.flatMap_append, List.filter_append, List.length_append, ← takenBack, ih,
    List.flatMap_singleton, reclaims_filter hrun.reachable hs, List.map_append, List.filter_append,
    List.length_append, List.map_singleton]

/-- A report that is written is one of its task. -/
theorem starts_of_start {taskId : String} {w id : Uuid} (hop : e.op = .start taskId w)
    (hreply : e.reply = .moved .transitioned) (hid : Uuid.parse taskId = some id) :
    e.starts id = true := by
  simp [Event.starts, hop, hreply, hid, Reply.done]

/-- A start that is written moves an assigned row of the table. -/
theorem step_started (hs : (queue cfg schemas).step db e db') {id : Uuid}
    (hstarts : e.starts id = true) : ∃ t ∈ db.tasks, t.id = id ∧ t.status = .assigned ∧
      t.mark cfg db.policies e.now .running ∈ db'.tasks := by
  obtain ⟨-, happly⟩ := hs
  cases hop : e.op with
  | start taskId w =>
      simp only [Event.starts, hop, Bool.and_eq_true, decide_eq_true_eq] at hstarts
      obtain ⟨hdone, hid⟩ := hstarts
      simp only [hop, apply, markStatus, hid, Prod.mk.injEq] at happly
      obtain ⟨hdb, hreply⟩ := happly
      rcases markStatusAt_cases cfg db e.now id w .running with
        ⟨t, hrow, -, hedge, hmark⟩ | ⟨outcome, hne, hmark⟩
      · obtain ⟨ht, hkey⟩ := Table.get?_eq_some_iff.mp hrow
        rw [hmark] at hdb
        refine ⟨t, ht, hkey, running_mem_allowed.mp hedge, ?_⟩
        rw [← hdb]
        exact Db.mem_updateTask Task.mark_id ht hkey
      · rw [hmark] at hreply
        rw [← hreply] at hdone
        exact absurd (of_decide_eq_true hdone) hne
  | _ =>
      simp only [Event.starts, hop] at hstarts
      cases hstarts

/-- A row that was handed out. -/
theorem RowStep.of_grant {t t' : Task} (h : RowStep cfg db e t t') {w : Uuid} {n : ℕ}
    (hgrant : e.label t.id = .grant w n) : ∃ v, t' = t.claim cfg db.policies e.now v := by
  cases h with
  | claim hop hwhere hl => exact ⟨_, rfl⟩
  | reclaim hop hwhere hl =>
      rw [hl] at hgrant
      unfold ReclaimedTask.label at hgrant
      split at hgrant
      · cases hgrant
      · split at hgrant <;> cases hgrant
  | keep hl => rw [hl] at hgrant; cases hgrant
  | start hop hreply hid howner hstatus hl => rw [hl] at hgrant; cases hgrant
  | fail hop hreply hid howner hlive hl => rw [hl] at hgrant; cases hgrant
  | complete hop hreply hid howner hlive hattempt hl => rw [hl] at hgrant; cases hgrant
  | renew hwhere hl => rw [hl] at hgrant; cases hgrant
  | shorten hwhere hl => rw [hl] at hgrant; cases hgrant
  | cancel hop hid hstatus hl => rw [hl] at hgrant; cases hgrant
  | purge hop hwhere hl => rw [hl] at hgrant; cases hgrant

/-- A row the sweep took back. -/
theorem RowStep.of_taken {t t' : Task} (h : RowStep cfg db e t t')
    (htaken : (e.label t.id).isTaken = true) : (expired e.now t).holds = true ∧
      ∃ draw, t' = t.reclaim cfg db.policies e.now draw := by
  cases h with
  | reclaim hop hwhere hl => exact ⟨hwhere, _, rfl⟩
  | keep hl => rw [hl] at htaken; cases htaken
  | claim hop hwhere hl => rw [hl] at htaken; cases htaken
  | start hop hreply hid howner hstatus hl => rw [hl] at htaken; cases htaken
  | fail hop hreply hid howner hlive hl => rw [hl] at htaken; cases htaken
  | complete hop hreply hid howner hlive hattempt hl => rw [hl] at htaken; cases htaken
  | renew hwhere hl => rw [hl] at htaken; cases htaken
  | shorten hwhere hl => rw [hl] at htaken; cases htaken
  | cancel hop hid hstatus hl => rw [hl] at htaken; cases htaken
  | purge hop hwhere hl => rw [hl] at htaken; cases htaken

/-- Of a task without a row nothing was handed out. -/
theorem Run.claimNumbers_of_absent (h : (queue cfg schemas).Run es db) {id : Uuid}
    (hnone : db.tasks.get? id = none) : claimNumbers id es = [] := by
  obtain ⟨k, hnumbers, hk⟩ := Run.claims_numbered h id
  have hlease : db.lease id = ⟨.absent, 0⟩ := by
    rw [Db.lease, hnone]
  rw [hlease] at hk
  rw [hnumbers, hk.waiting (.inl rfl), List.range_zero]

end

end TaskFleet.Model
