import TaskFleet.Model.Replicas
import TaskFleet.Logic.Records

/-!
# Concurrent transactions run one at a time

The four row-locking calls of the queue meet the conditions of the row-lock
library (`replicas_lawful`): each reads and writes only what belongs to the
rows it locked. So any interleaving is serial in commit order, and a serial
step of the store is a step of `queue` (`serial_step`): the atomic functions
of `TaskQueue` are what the concurrent transactions amount to.
-/

namespace TaskFleet.Model

open Py Sql

/-- Two databases agree on everything that belongs to the rows `ids`. -/
structure Agree (ids : List Uuid) (db db' : Db) : Prop where
  rows : db'.tasks.rows.filter (fun t => ids.contains t.id) =
    db.tasks.rows.filter fun t => ids.contains t.id
  attempts : ∀ id ∈ ids, db'.attempts.filter (fun a => a.taskId = id) =
    db.attempts.filter fun a => a.taskId = id
  bodies : ∀ t ∈ db.tasks, t.id ∈ ids → ∀ rid, t.resultId = some rid →
    db'.results.get? rid = db.results.get? rid
  policies : db'.policies = db.policies

section

variable {cfg : Config} {schemas : Schemas} {db db' : Db} {held ids : List Uuid}

theorem Agree.get? (h : Agree held db db') {id : Uuid} (hid : id ∈ held) :
    db'.tasks.get? id = db.tasks.get? id := by
  rw [Table.get?_eq_find?_filter _ hid, Table.get?_eq_find?_filter _ hid]
  exact congrArg _ h.rows

theorem Agree.lockedRows (h : Agree held db db') (hids : ∀ id ∈ ids, id ∈ held)
    (order : Task → Task → Prop) [DecidableRel order] :
    lockedRows db' order ids = lockedRows db order ids := by
  have hfilter : ∀ l : List Task, l.filter (fun t => ids.contains t.id) =
      (l.filter fun t => held.contains t.id).filter fun t => ids.contains t.id := by
    intro l
    rw [List.filter_filter]
    refine List.filter_congr fun t _ => ?_
    by_cases hmem : t.id ∈ ids
    · simp [hmem, hids t.id hmem]
    · simp [hmem]
  unfold Model.lockedRows
  rw [hfilter db'.tasks.rows, h.rows, ← hfilter db.tasks.rows]

/-- What the history table says of a locked task is the same. -/
theorem Agree.any_attempts (h : Agree held db db') {id : Uuid} (hid : id ∈ held)
    (p : TaskAttempt → Bool) :
    (db'.attempts.any fun a => a.taskId = id && p a) = db.attempts.any fun a =>
    a.taskId = id && p a := by
  rw [← List.any_filter, ← List.any_filter, h.attempts id hid]

theorem Agree.everHeld (h : Agree held db db') {id : Uuid} (hid : id ∈ held) (w : Uuid)
    (assigned : Option Uuid) : everHeld db' id w assigned = everHeld db id w assigned := by
  have := h.any_attempts hid fun a => decide (a.workerId = some w)
  simp only [Model.everHeld, Bool.decide_and]
  rw [this]

theorem Agree.terminalResultOutcome (h : Agree held db db') {t : Task} (ht : t ∈ db.tasks)
    (hid : t.id ∈ held) (token : Token) :
    terminalResultOutcome db' t.resultId token = terminalResultOutcome db t.resultId token := by
  unfold Model.terminalResultOutcome
  cases hres : t.resultId with
  | none => rfl
  | some rid =>
      rw [Option.bind_some, Option.bind_some, h.bodies t ht hid rid hres]

/-- What an `INSERT … WHERE NOT EXISTS` adds. -/
theorem recordAttemptOnce_drop (db : Db) (a : TaskAttempt) :
    (db.recordAttemptOnce a).attempts.drop db.attempts.length =
      if db.attempts.any fun b => b.taskId = a.taskId ∧ b.workerId = a.workerId ∧
        b.attemptNumber = a.attemptNumber ∧ b.outcome = a.outcome then [] else [a] := by
  unfold Db.recordAttemptOnce
  split
  · exact List.drop_length
  · exact List.drop_left

theorem Agree.recordFence (h : Agree held db db') {t : Task} (hid : t.id ∈ held) (now : Seconds)
    (envelope : Envelope) (w : Uuid) (isAssignee : Bool) :
    (recordFence db' now t envelope w isAssignee).attempts.drop db'.attempts.length =
      (recordFence db now t envelope w isAssignee).attempts.drop db.attempts.length := by
  unfold Model.recordFence
  split
  · rw [recordAttemptOnce_drop, recordAttemptOnce_drop]
    have := h.any_attempts hid fun b => decide (b.workerId = some w ∧
      b.attemptNumber = envelope.attemptNumber ∧ b.outcome = .fenced)
    simp only [Bool.decide_and] at this ⊢
    rw [this]
  · rw [List.drop_length, List.drop_length]

/-- The answer to a refused result, with the attempt row it leaves. -/
theorem completeWrites_of_ne {now : Seconds} {row : Task} {envelope : Envelope} {w resultId : Uuid}
    (h : (completeRow db now row envelope w resultId).2 ≠ .transitioned) :
    completeWrites db now row envelope w resultId =
      { attempts := (completeRow db now row envelope w resultId).1.attempts.drop db.attempts.length
        reply := .moved (completeRow db now row envelope w resultId).2 } := by
  simp only [completeWrites]

theorem completeWrites_of_eq {now : Seconds} {row : Task} {envelope : Envelope} {w resultId : Uuid}
    (h : (completeRow db now row envelope w resultId).2 = .transitioned) :
    completeWrites db now row envelope w resultId =
      { updated := [row.complete now resultId]
        result := some ⟨resultId, envelope, envelope.sizeBytes, now⟩
        reply := .moved .transitioned } := by
  simp only [completeWrites, h]

/-- `complete_task` decides from what belongs to its row. -/
theorem Agree.completeWrites (h : Agree held db db') {t : Task} (ht : t ∈ db.tasks)
    (hid : t.id ∈ held) (now : Seconds) (envelope : Envelope) (w resultId : Uuid) :
    completeWrites db' now t envelope w resultId = completeWrites db now t envelope w resultId := by
  have hboth : (completeRow db' now t envelope w resultId).2 =
      (completeRow db now t envelope w resultId).2 ∧
      ((completeRow db now t envelope w resultId).2 ≠ .transitioned →
        (completeRow db' now t envelope w resultId).1.attempts.drop db'.attempts.length =
          (completeRow db now t envelope w resultId).1.attempts.drop db.attempts.length) := by
    simp only [completeRow, h.terminalResultOutcome ht hid, h.everHeld hid]
    generalize walk t.status _ = walked
    cases hterm : t.status.isTerminal with
    | true => simp only [if_true, List.drop_length, implies_true, and_self]
    | false =>
        simp only [Bool.false_eq_true, if_false]
        by_cases hstale : ¬ t.assignedWorkerId = some w ∨ envelope.attemptNumber ≠ t.attemptCount
        · simp only [hstale, if_true]
          cases hheld : Model.everHeld db t.id w t.assignedWorkerId with
          | true =>
              simp only [if_true]
              exact ⟨trivial, fun _ => h.recordFence hid now envelope w _⟩
          | false => simp [List.drop_length]
        · simp only [hstale, if_false]
          cases walked with
          | error e => exact ⟨rfl, fun _ => by rw [List.drop_length, List.drop_length]⟩
          | ok s =>
              cases henvelope : envelope.storable with
              | true => exact ⟨rfl, fun hne => absurd rfl hne⟩
              | false => exact ⟨rfl, fun _ => by simp only [if_true, List.drop_length]⟩
  by_cases hout : (completeRow db now t envelope w resultId).2 = .transitioned
  · rw [completeWrites_of_eq hout, completeWrites_of_eq (hboth.1.trans hout)]
  · rw [completeWrites_of_ne hout, completeWrites_of_ne (hboth.1 ▸ hout), hboth.1, hboth.2 hout]

/-- What a transaction writes depends on the rows it locked. -/
theorem Agree.exec (h : Agree held db db') (hids : ∀ id ∈ ids, id ∈ held) (call : Call) :
    call.exec cfg schemas db ids = call.exec cfg schemas db' ids := by
  have hhead : ids.head?.bind db'.tasks.get? = ids.head?.bind db.tasks.get? := by
    cases ids with
    | nil => rfl
    | cons id rest => exact h.get? (hids id (.head _))
  cases call with
  | enqueue now id req => rfl
  | dequeue now w limit maxBatch taskTypes =>
      simp only [Call.exec, h.lockedRows hids, h.policies]
  | reclaim now batch draw => simp only [Call.exec, h.lockedRows hids, h.policies]
  | complete now envelope w resultId =>
      simp only [Call.exec, hhead]
      split
      · next row hrow =>
          obtain ⟨id, hid, hget⟩ := Option.bind_eq_some_iff.mp hrow
          obtain ⟨hmem, rfl⟩ := Table.get?_eq_some_iff.mp hget
          exact (h.completeWrites hmem (hids _ (List.mem_of_mem_head? hid)) now envelope w
            resultId).symm
      · rfl
  | cancel now taskId => simp only [Call.exec, hhead]

/-! ## Writes stay on the locked rows -/

/-- Writes that concern the rows `ids` and fresh keys only. -/
structure Writes.Within (w : Writes) (db : Db) (ids : List Uuid) : Prop where
  inserted : ∀ t, w.inserted = some t → db.tasks.get? t.id = none
  updated : ∀ t ∈ w.updated, t.id ∈ ids
  result : ∀ r, w.result = some r → ∀ t ∈ db.tasks, t.resultId ≠ some r.id
  attempts : ∀ a ∈ w.attempts, a.taskId ∈ ids

theorem mem_lockedRows {order : Task → Task → Prop} [DecidableRel order] {t : Task} :
    t ∈ lockedRows db order ids ↔ t ∈ db.tasks ∧ t.id ∈ ids := by
  simp [lockedRows, Table.mem_iff]

/-- The rows a completion records name its own task. -/
theorem completeWrites_within {now : Seconds} {row : Task} {envelope : Envelope} {w resultId : Uuid}
    (hfresh : ∀ t ∈ db.tasks, t.resultId ≠ some resultId) (hid : row.id ∈ ids) :
    (completeWrites db now row envelope w resultId).Within db ids := by
  by_cases hout : (completeRow db now row envelope w resultId).2 = .transitioned
  · rw [completeWrites_of_eq hout]
    refine ⟨by simp, ?_, ?_, by simp⟩
    · intro t ht
      rw [List.mem_singleton.mp ht]
      exact hid
    · rintro r ⟨⟩
      exact hfresh
  · rw [completeWrites_of_ne hout]
    refine ⟨by simp, by simp, by simp, ?_⟩
    have hcase := completeRow_case db now row envelope w resultId
    generalize completeRow db now row envelope w resultId = out at hcase hout
    cases hcase with
    | fenced hstatus hstale hheld =>
        intro a ha
        rcases recordFence_eq db now row envelope w (row.assignedWorkerId = some w) with
          h | ⟨b, htask, -, -, -, h⟩
        · rw [h, List.drop_length] at ha
          cases ha
        · simp only [h, List.drop_left, List.mem_singleton] at ha
          rw [ha, htask]
          exact hid
    | stored => exact absurd rfl hout
    | _ => simp

theorem Call.exec_within {call : Call} (hadm : call.Admissible db) :
    (call.exec cfg schemas db ids).Within db ids := by
  -- what a transaction writes belongs to a row it locked, or to one it creates
  cases call with
  | enqueue now id req =>
      simp only [Call.exec]
      split
      · refine ⟨?_, by simp, by simp, by simp⟩
        rintro t ⟨⟩
        exact hadm
      · exact ⟨by simp, by simp, by simp, by simp⟩
  | dequeue now w limit maxBatch taskTypes =>
      refine ⟨by simp [Call.exec], ?_, by simp [Call.exec], by simp [Call.exec]⟩
      intro t' ht'
      obtain ⟨t, ht, rfl⟩ := List.mem_map.mp ht'
      exact (mem_lockedRows.mp ht).2
  | reclaim now batch draw =>
      refine ⟨by simp [Call.exec], ?_, by simp [Call.exec], ?_⟩
      · intro t' ht'
        obtain ⟨t, ht, rfl⟩ := List.mem_map.mp ht'
        exact (mem_lockedRows.mp ht).2
      · intro a ha
        simp only [Call.exec, List.map_map, List.mem_map] at ha
        obtain ⟨t, ht, rfl⟩ := ha
        exact (mem_lockedRows.mp ht).2
  | complete now envelope w resultId =>
      simp only [Call.exec]
      split
      · next row hrow =>
          obtain ⟨id, hid, hget⟩ := Option.bind_eq_some_iff.mp hrow
          obtain ⟨-, rfl⟩ := Table.get?_eq_some_iff.mp hget
          exact completeWrites_within hadm.2 (List.mem_of_mem_head? hid)
      · exact ⟨by simp, by simp, by simp, by simp⟩
  | cancel now taskId =>
      simp only [Call.exec]
      split
      · next row hrow =>
          obtain ⟨id, hid, hget⟩ := Option.bind_eq_some_iff.mp hrow
          obtain ⟨-, rfl⟩ := Table.get?_eq_some_iff.mp hget
          split
          · exact ⟨by simp, by simp, by simp, by simp⟩
          · refine ⟨by simp, ?_, by simp, by simp⟩
            intro t ht
            rw [List.mem_singleton.mp ht]
            exact List.mem_of_mem_head? hid
      · exact ⟨by simp, by simp, by simp, by simp⟩

/-- Installing writes leaves alone what belongs to other rows. -/
theorem Writes.Within.agree {w : Writes} (h : w.Within db ids) (hdisjoint : ∀ id ∈ ids, id ∉ held)
    (hheld : ∀ id ∈ held, HasRow db id) : Agree held db (install db w) := by
  refine ⟨?_, fun id hid => ?_, fun t ht hid rid hres => ?_, rfl⟩
  · have hover : ∀ t : Tasks, (t.overwrite w.updated).rows.filter (fun t => held.contains t.id) =
        t.rows.filter fun t => held.contains t.id := fun t =>
      Table.filter_overwrite fun r hr hmem => hdisjoint _ (h.updated r hr) hmem
    simp only [install]
    rw [hover]
    split
    · next t hins =>
        have hfresh := h.inserted t hins
        have hnot : t.id ∉ held := by
          intro hmem
          obtain ⟨u, hu, huid⟩ := hheld t.id hmem
          exact Table.get?_eq_none_iff.mp hfresh u hu huid
        unfold Table.insert
        split
        · rfl
        · simp [List.filter_append, hnot]
    · rfl
  · have hnone : w.attempts.filter (fun a => a.taskId = id) = [] := by
      rw [List.filter_eq_nil_iff]
      intro a ha hid'
      exact hdisjoint _ (of_decide_eq_true hid' ▸ h.attempts a ha) hid
    simp only [install, List.filter_append, hnone, List.append_nil]
  · simp only [install]
    split
    · next r hr => exact Table.get?_insert_of_ne fun heq => h.result r hr t ht (heq ▸ hres)
    · rfl

/-- No commit loses a row. -/
theorem install_hasRow {id : Uuid} (w : Writes) (h : HasRow db id) : HasRow (install db w) id := by
  obtain ⟨t, ht, rfl⟩ := h
  refine ⟨_, Table.mem_overwrite.mpr ⟨t, ?_, rfl⟩, Table.key_newest w.updated t⟩
  cases w.inserted with
  | some t' => exact Table.mem_insert_of_mem ht
  | none => exact ht

/-- **The queue's transactions meet the conditions of the library.** -/
theorem replicas_lawful : Locks.Lawful (replicas cfg schemas) Agree where
  scan_nodup := by
    rintro call db ids ⟨rows, hperm, -, rfl⟩
    refine (hperm.map Task.id).nodup_iff.mpr ?_
    exact db.tasks.nodup.sublist (List.filter_sublist.map Task.id)
  scan_present := by
    rintro call db ids ⟨rows, hperm, -, rfl⟩ id hid
    obtain ⟨t, ht, rfl⟩ := List.mem_map.mp hid
    exact ⟨t, (List.mem_filter.mp (hperm.mem_iff.mp ht)).1, rfl⟩
  passes_congr := by
    intro held db db' h id hid call
    simp only [replicas, h.get? hid]
  exec_congr := fun h _ hids call => h.exec hids call
  install_agree := fun hadm hdisjoint hheld => (Call.exec_within hadm).agree hdisjoint hheld
  install_present := fun w h => install_hasRow w h

/-! ## A serial step is a step of the queue -/

/-- The rows other transactions hold, as far as a scan that chose `ids` can
tell. -/
def heldElsewhere (db : Db) (ids : List Uuid) : List Uuid :=
  (db.tasks.rows.map Task.id).filter fun id => !ids.contains id

/-- With the others' rows skipped, a scan finds the chosen ones. -/
theorem filter_skip {p : Task → Bool} (hpasses : ∀ id ∈ ids, (db.tasks.get? id).any p = true) :
    (db.tasks.rows.filter fun t => p t && !(heldElsewhere db ids).contains t.id) =
      db.tasks.rows.filter fun t => ids.contains t.id := by
  refine List.filter_congr fun t ht => ?_
  have hskip : (heldElsewhere db ids).contains t.id = !ids.contains t.id := by
    by_cases hid : t.id ∈ ids
    · simp [heldElsewhere, hid]
    · simp only [heldElsewhere, List.contains_eq_mem, List.mem_filter, hid, decide_false,
        Bool.not_false, and_true]
      exact decide_eq_true (List.mem_map_of_mem ht)
  rw [hskip, Bool.not_not]
  by_cases hid : t.id ∈ ids
  · have hp := hpasses t.id hid
    rw [Table.get?_of_mem (show t ∈ db.tasks from ht)] at hp
    simp only [Option.any_some] at hp
    simp [hid, hp]
  · simp [hid]

/-- No more rows are locked and chosen than ids were. -/
theorem length_lockedRows_le (order : Task → Task → Prop) [DecidableRel order] :
    (lockedRows db order ids).length ≤ ids.length := by
  rw [lockedRows, List.length_insertionSort, ← List.length_map Task.id]
  refine List.Nodup.length_le_of_subset ?_ ?_
  · exact db.tasks.nodup.sublist (List.filter_sublist.map Task.id)
  · intro id hid
    obtain ⟨t, ht, rfl⟩ := List.mem_map.mp hid
    simpa using (List.mem_filter.mp ht).2

theorem claimedRows_eq {now : Seconds} {w : Uuid} {limit : Int} {taskTypes : Option (List String)}
    (hpasses : ∀ id ∈ ids, (db.tasks.get? id).any
      (fun t => (claimable cfg now w taskTypes t).holds) = true)
        (hlimit : ids.length ≤ limit.toNat) :
    claimedRows cfg db now w limit taskTypes (heldElsewhere db ids) =
      lockedRows db queueOrder ids := by
  rw [claimedRows, filter_skip hpasses]
  exact List.take_of_length_le ((length_lockedRows_le queueOrder).trans hlimit)

theorem expiredRows_eq {now : Seconds} {batch : Int}
    (hpasses : ∀ id ∈ ids, (db.tasks.get? id).any (fun t => (expired now t).holds) = true)
    (hlimit : ids.length ≤ batch.toNat) :
    expiredRows db now batch (heldElsewhere db ids) = lockedRows db leaseOrder ids := by
  rw [expiredRows, filter_skip hpasses]
  exact List.take_of_length_le ((length_lockedRows_le leaseOrder).trans hlimit)

/-- Writing the locked rows back is the `UPDATE` of them. -/
theorem overwrite_lockedRows {order : Task → Task → Prop} [DecidableRel order] {f : Task → Task}
    (hf : ∀ t, (f t).id = t.id) :
    db.tasks.overwrite ((lockedRows db order ids).map f) =
      db.tasks.updateWhere (fun t => t.id ∈ (lockedRows db order ids).map Task.id) f hf := by
  have hsub : ∀ t ∈ lockedRows db order ids, t ∈ db.tasks := fun t ht => (mem_lockedRows.mp ht).1
  refine Table.overwrite_map hsub hf fun t ht => ?_
  rw [decide_eq_true_iff]
  exact Table.key_mem_map_iff hsub ht

/-- Writing one row back is the `UPDATE` by its key. -/
theorem overwrite_row {t : Task} (ht : t ∈ db.tasks) {f : Task → Task} (hf : ∀ t, (f t).id = t.id) :
    db.tasks.overwrite [f t] = db.tasks.updateWhere (fun u => u.id = t.id) f hf := by
  refine Table.overwrite_map (l := [t]) (by simpa using ht) hf fun u hu => ?_
  rw [decide_eq_true_iff, List.mem_singleton]
  exact ⟨fun hid => Table.eq_of_key hu ht hid, fun h => by rw [h]⟩

/-- The commit of a completion is `complete_task`. -/
theorem install_completeWrites (now : Seconds) {row : Task} (envelope : Envelope)
    (w resultId : Uuid)
    (hrow : row ∈ db.tasks) :
    install db (completeWrites db now row envelope w resultId) =
      (completeRow db now row envelope w resultId).1 ∧
    (completeWrites db now row envelope w resultId).reply =
      .moved (completeRow db now row envelope w resultId).2 := by
  by_cases hout : (completeRow db now row envelope w resultId).2 = .transitioned
  · rw [completeWrites_of_eq hout]
    have hcase := completeRow_case db now row envelope w resultId
    generalize completeRow db now row envelope w resultId = out at hcase hout
    cases hcase with
    | terminal => exact absurd hout (terminalResultOutcome_ne (by decide))
    | stored =>
        refine ⟨?_, rfl⟩
        simp only [install, overwrite_row hrow Task.complete_id, List.append_nil]
        rfl
    | _ => cases hout
  · rw [completeWrites_of_ne hout]
    have hcase := completeRow_case db now row envelope w resultId
    generalize completeRow db now row envelope w resultId = out at hcase hout
    cases hcase with
    | fenced hstatus hstale hheld =>
        rcases recordFence_eq db now row envelope w (row.assignedWorkerId = some w) with
          h | ⟨a, -, -, -, -, h⟩
        · simp [h, install]
        · simp [h, install]
    | stored => exact absurd rfl hout
    | _ => simp [install]

/-- The queue event a committed transaction is. -/
def Call.event (call : Call) (skip : List Uuid) (reply : Reply) : Event :=
  ⟨call.now, call.op skip, reply⟩

/-- One locked id that passed is the id of a row. -/
theorem exists_row_of_passes {call : Call} (hne : ids ≠ []) (hlimit : ids.length ≤ 1)
    (hpasses : ∀ id ∈ ids, (db.tasks.get? id).any (call.matches cfg) = true) :
    ∃ row ∈ db.tasks, ids = [row.id] ∧ call.matches cfg row = true := by
  match ids, hne, hlimit with
  | [id], _, _ =>
      obtain ⟨row, hget, hmatch⟩ := (Option.any_eq_true _ _).mp (hpasses id (.head _))
      obtain ⟨hmem, rfl⟩ := Table.get?_eq_some_iff.mp hget
      exact ⟨row, hmem, rfl, hmatch⟩

/-- **A committed transaction is an atomic call of the queue.** -/
theorem serial_step {c : Locks.Commit Uuid Call Writes}
    (h : (Locks.serial (replicas cfg schemas)).step db (some c) db') :
    ∃ skip, (queue cfg schemas).step db (c.stmt.event skip c.writes.reply) db' := by
  cases h with
  | @commit call ids hcommits hadm hnodup hlimit hpasses =>
      replace hpasses : ∀ id ∈ ids, (db.tasks.get? id).any (call.matches cfg) = true :=
        fun id hid => (hpasses id hid).2
      -- everything it did not lock counts as skipped, so the queue picks exactly
      -- the locked rows
      refine ⟨heldElsewhere db ids, ?_⟩
      show (queue cfg schemas).step db (call.event (heldElsewhere db ids)
        (call.exec cfg schemas db ids).reply) (install db (call.exec cfg schemas db ids))
      cases call with
      | enqueue now id req =>
          obtain ⟨⟨taskType, parameters⟩, hok⟩ := hcommits
          refine ⟨hadm, ?_⟩
          simp [Call.event, Call.op, Call.now, apply, enqueue, Call.exec, hok, install]
      | dequeue now w limit maxBatch taskTypes =>
          obtain ⟨-, hlow, hhigh, htypes⟩ := hcommits
          have hrows := claimedRows_eq hpasses hlimit
          have hok : dequeue cfg db now w limit maxBatch taskTypes (heldElsewhere db ids) =
              .ok (install db (Call.exec cfg schemas
                (.dequeue now w limit maxBatch taskTypes) db ids),
                ((lockedRows db queueOrder ids).map fun t =>
                  (t.claim cfg db.policies now w).claimed)) := by
            rw [dequeue, if_neg (by omega), if_neg (by omega), if_neg htypes, hrows]
            simp only [install, Call.exec, overwrite_lockedRows Task.claim_id, List.append_nil]
          refine ⟨trivial, ?_⟩
          simp only [Call.event, Call.op, Call.now, apply, hok, Call.exec, List.map_map]
          rfl
      | reclaim now batch draw =>
          obtain ⟨-, hlow⟩ := hcommits
          have hrows := expiredRows_eq hpasses hlimit
          have hok : reclaimExpiredLeases cfg db now batch (heldElsewhere db ids) draw =
              .ok (install db (Call.exec cfg schemas (.reclaim now batch draw) db ids),
                (lockedRows db leaseOrder ids).map (Task.reclaimed cfg db.policies now draw)) := by
            rw [reclaimExpiredLeases, if_neg (by omega), hrows]
            simp only [install, Call.exec, overwrite_lockedRows Task.reclaim_id]
          refine ⟨hadm, ?_⟩
          simp only [Call.event, Call.op, Call.now, apply, hok, Call.exec]
      | complete now envelope w resultId =>
          obtain ⟨row, hmem, rfl, hmatch⟩ := exists_row_of_passes hcommits hlimit hpasses
          have hid : Uuid.parse envelope.taskId = some row.id := by
            simpa [Call.matches] using hmatch
          obtain ⟨hdb, hreply⟩ := install_completeWrites now envelope w resultId hmem
          refine ⟨hadm.1, ?_⟩
          simp only [Call.event, Call.op, Call.now, apply, completeTask_eq_completeRow hmem hid,
            Call.exec, List.head?_cons, Option.bind_some, Table.get?_of_mem hmem, hdb, hreply]
      | cancel now taskId =>
          obtain ⟨row, hmem, rfl, hmatch⟩ := exists_row_of_passes hcommits hlimit hpasses
          have hid : Uuid.parse taskId = some row.id := by simpa [Call.matches] using hmatch
          refine ⟨trivial, ?_⟩
          simp only [Call.event, Call.op, Call.now, apply, cancelQueuedTask, hid,
            cancelQueuedTaskAt,
            Call.exec, List.head?_cons, Option.bind_some, Table.get?_of_mem hmem]
          split
          · simp [install]
          · simp only [install, overwrite_row hmem Task.cancel_id, List.append_nil]
            rfl

/-- A serial run of the store is a run of the queue, with the committed
transactions as its events. -/
theorem serial_run {os : List (Option (Locks.Commit Uuid Call Writes))}
    (h : (Locks.serial (replicas cfg schemas)).Run os db) :
    ∃ es, (queue cfg schemas).Run es db ∧
      List.Forall₂ (fun c e => ∃ skip, e = c.stmt.event skip c.writes.reply)
        (os.filterMap id) es := by
  refine h.invariant (I := fun os db => ∃ es, (queue cfg schemas).Run es db ∧
    List.Forall₂ (fun c e => ∃ skip, e = c.stmt.event skip c.writes.reply)
      (os.filterMap id) es) ?_ ?_
  · intro db hinit
    exact ⟨[], .nil hinit, .nil⟩
  · rintro os db o db' - ⟨es, hrun, hall⟩ hstep
    cases o with
    | none =>
        cases hstep
        exact ⟨es, hrun, by simpa using hall⟩
    | some c =>
        obtain ⟨skip, hs⟩ := serial_step hstep
        refine ⟨es ++ [_], hrun.snoc hs, ?_⟩
        rw [List.filterMap_append]
        exact List.rel_append hall (.cons ⟨skip, rfl⟩ .nil)

end

end TaskFleet.Model
