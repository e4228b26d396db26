import TaskFleet.Logic.TaskCounts
import Mathlib.Algebra.BigOperators.Group.Finset.Basic
import Mathlib.Algebra.Order.BigOperators.Group.Finset

/-!
# The attempt cap bounds every run

The sweep compares `attempt_count + 1` with the cap of the row's own type, in
the same statement that raises the count. While the cap of a type stays `m`,
a row that has not ended has used fewer than `m` attempts (`Capped`), so no
attempt of it is numbered `m` or more, and the sweep gives a task up exactly
when it ends attempt `m - 1`.
-/

namespace TaskFleet.Model

open Py Sql

/-- The effective `max_attempts` of the type is `m`. -/
def CapIs (cfg : Config) (taskType : TaskType) (m : ℕ) (db : Db) (_ : Event) : Prop :=
  maxAttempts cfg db.policies taskType = m

/-- The tasks of the type that were enqueued. -/
def enqueued (taskType : TaskType) (es : List Event) : List Uuid :=
  es.filterMap fun e =>
    match e.op with
    | .enqueue id req =>
        if e.reply.done ∧ TaskType.ofName req.taskType = some taskType then some id else none
    | _ => none

/-- No task of the type is past its cap. -/
structure Capped (taskType : TaskType) (m : ℕ) (es : List Event) (db : Db) : Prop where
  attempts : ∀ t ∈ db.tasks, t.taskType = taskType → t.attemptCount ≤ m
  /-- A task that has not ended has an attempt left. -/
  unended : ∀ t ∈ db.tasks, t.taskType = taskType → t.status.isTerminal = false → t.attemptCount < m
  claims : ∀ t ∈ db.tasks, t.taskType = taskType → ∀ n ∈ claimNumbers t.id es, n < m

section

variable {cfg : Config} {schemas : Schemas} {db db' : Db} {e : Event} {es : List Event}
  {taskType : TaskType} {m : ℕ}

/-- The sweep gives a task up at the last attempt its cap allows. -/
theorem exhausted_iff {t : Task} (hcap : maxAttempts cfg db.policies t.taskType = m)
    (hlt : t.attemptCount < m) : t.exhausted cfg db.policies = true ↔ t.attemptCount = m - 1 := by
  simp only [Task.exhausted, hcap, decide_eq_true_eq]
  omega

/-- **One row.** A step under the cap keeps the row within it, and hands out
only an attempt below it. -/
theorem RowStep.capped {t t' : Task} (h : RowStep cfg db e t t')
    (hcap : maxAttempts cfg db.policies t.taskType = m) (hle : t.attemptCount ≤ m)
    (hlt : t.status.isTerminal = false → t.attemptCount < m) :
    t'.attemptCount ≤ m ∧ (t'.status.isTerminal = false → t'.attemptCount < m) ∧
      ∀ g, (e.label t.id).granted = some g → g.1 < m := by
  have hlive : t.status.isLive = true → t.attemptCount < m := fun h =>
    hlt (TaskState.not_isTerminal_of_isLive h)
  have hsilent : e.label t.id = .silent → ∀ g, (e.label t.id).granted = some g → g.1 < m := by
    intro hl g hg
    rw [hl] at hg
    cases hg
  cases h with
  | keep hl => exact ⟨hle, hlt, hsilent hl⟩
  | claim hop hwhere hl =>
      have hq : t.attemptCount < m := hlt (by rw [claimable_queued hwhere]; rfl)
      refine ⟨hle, fun _ => hq, fun g hg => ?_⟩
      rw [hl] at hg
      cases hg
      exact hq
  | start hop hreply hid howner hstatus hl =>
      exact ⟨hle, fun _ => hlive (by rw [hstatus]; rfl), hsilent hl⟩
  | fail hop hreply hid howner hl hlabel =>
      refine ⟨hle, (by intro h; cases h), fun g hg => ?_⟩
      rw [hlabel] at hg
      cases hg
  | complete hop hreply hid howner hl hattempt hlabel =>
      refine ⟨hle, (by intro h; cases h), fun g hg => ?_⟩
      rw [hlabel] at hg
      cases hg
  | renew hwhere hl => exact ⟨hle, fun _ => hlive (heldLive_holds.mp hwhere).2, hsilent hl⟩
  | shorten hwhere hl => exact ⟨hle, fun _ => hlive (heldLive_holds.mp hwhere).2, hsilent hl⟩
  | reclaim hop hwhere hl =>
      have hused := hlive (expired_holds.mp hwhere).1
      refine ⟨hused, fun hopen => ?_, fun g hg => ?_⟩
      · -- a task that goes back to the queue was not at its last attempt
        have hnot : t.exhausted cfg db.policies = false := by
          cases hex : t.exhausted cfg db.policies with
          | false => rfl
          | true => simp [Task.reclaim, hex, TaskState.isTerminal] at hopen
        have hlast := (exhausted_iff hcap hused).not.mp (by rw [hnot]; decide)
        show t.attemptCount + 1 < m
        omega
      · rw [hl] at hg
        unfold ReclaimedTask.label at hg
        split at hg
        · cases hg
        · split at hg <;> cases hg
  | cancel hop hid hstatus hl =>
      refine ⟨hle, (by intro h; cases h), fun g hg => ?_⟩
      rw [hl] at hg
      cases hg
  | purge hop hwhere hl => exact ⟨hle, hlt, hsilent hl⟩

/-- **One step** under the cap keeps every row within it. -/
theorem Capped.step (h : Capped taskType m es db) (hm : 1 ≤ m)
    (hrun : (queue cfg schemas).Run es db) (hs : (queue cfg schemas).step db e db')
    (hcap : CapIs cfg taskType m db e) : Capped taskType m (es ++ [e]) db' := by
  have hrows : ∀ t' ∈ db'.tasks, t'.taskType = taskType → t'.attemptCount ≤ m ∧
      (t'.status.isTerminal = false → t'.attemptCount < m) ∧
      ∀ n ∈ claimNumbers t'.id (es ++ [e]), n < m := by
    intro t' ht' htype
    -- a claim number is an old one, or the one this event hands out
    have hnow : ∀ n, n ∈ claimNumbers t'.id (es ++ [e]) → n ∈ claimNumbers t'.id es ∨
        ∃ w, (e.label t'.id).granted = some (n, w) := by
      intro n hn
      rw [claimNumbers_snoc, claims_filter hs, List.mem_append] at hn
      refine hn.imp_right fun hn => ?_
      obtain ⟨g, hg, rfl⟩ := List.mem_map.mp hn
      exact ⟨g.2, Option.mem_toList.mp hg⟩
    rcases (step_rows hs).backward t' ht' with ⟨t, ht, hrow, hid⟩ | ⟨hnew, hfresh⟩
    · have htype' : t.taskType = taskType := hrow.taskType.symm.trans htype
      obtain ⟨hle, hlt, hgrant⟩ := hrow.capped (by rw [htype']; exact hcap)
        (h.attempts t ht htype') (h.unended t ht htype')
      refine ⟨hle, hlt, fun n hn => ?_⟩
      rw [hid] at hn hnow
      rcases hnow n hn with hold | ⟨w, hg⟩
      · exact h.claims t ht htype' n hold
      · exact hgrant _ hg
    · obtain ⟨req, type', parameters, hop, hreply, heq⟩ := hnew
      have hzero : t'.attemptCount = 0 := by rw [heq]; rfl
      refine ⟨by omega, fun _ => by omega, fun n hn => ?_⟩
      rcases hnow n hn with hold | ⟨w, hg⟩
      · rw [Run.claimNumbers_of_absent hrun (Table.get?_eq_none_iff.mpr hfresh)] at hold
        cases hold
      · have hlabel : e.label t'.id = .create := by
          simp [Event.label, hop, hreply, Reply.done]
        rw [hlabel] at hg
        cases hg
  exact ⟨fun t ht htype => (hrows t ht htype).1, fun t ht htype => (hrows t ht htype).2.1,
    fun t ht htype => (hrows t ht htype).2.2⟩

/-- **Every run** under the cap keeps every row within it. -/
theorem Run.capped (hm : 1 ≤ m)
    (h : ((queue cfg schemas).guarded (CapIs cfg taskType m)).Run es db) :
    Capped taskType m es db := by
  refine h.invariant (I := Capped taskType m) ?_ ?_
  · rintro db ⟨htasks, -, -⟩
    have hnone : ∀ t, t ∉ db.tasks := by
      rw [htasks]
      exact Table.not_mem_empty
    exact ⟨fun t ht => absurd ht (hnone t), fun t ht => absurd ht (hnone t),
      fun t ht => absurd ht (hnone t)⟩
  · intro es db e db' hrun ih hs
    exact ih.step hm hrun.of_guarded hs.1 hs.2

/-- The sweep ends a task exactly with the last attempt of its cap. -/
theorem failed_iff_last (hreach : (queue cfg schemas).Reachable db)
    (hs : (queue cfg schemas).step db e db') {t t' : Task} (ht : t ∈ db.tasks)
    (ht' : t' ∈ db'.tasks)
    (hid : t'.id = t.id) (hcap : maxAttempts cfg db.policies t.taskType = m)
    (hlt : t.status.isTerminal = false → t.attemptCount < m) {r : ReclaimedTask}
    (hr : r ∈ e.reply.reclaims) (hrid : r.id = t.id) :
    t'.status = .failed ↔ t.attemptCount = m - 1 := by
  have htaken : (e.label t.id).isTaken = true := by
    have hlen := reclaims_filter hreach hs t.id
    have hmem : r ∈ e.reply.reclaims.filter fun r => r.id = t.id :=
      List.mem_filter.mpr ⟨hr, by simpa using hrid⟩
    by_contra hnot
    rw [List.filter_cons_of_neg hnot] at hlen
    rw [List.length_eq_zero_iff.mp hlen] at hmem
    cases hmem
  obtain ⟨u', hu', hrow, hid'⟩ := (step_rows hs).forward t ht
  obtain rfl := Table.eq_of_key ht' hu' (hid.trans hid'.symm)
  obtain ⟨hwhere, draw, rfl⟩ := hrow.of_taken htaken
  have hused := hlt (TaskState.not_isTerminal_of_isLive (expired_holds.mp hwhere).1)
  rw [← exhausted_iff hcap hused]
  cases hex : t.exhausted cfg db.policies <;> simp [Task.reclaim, hex]

/-- Every row was enqueued, under its type. -/
theorem Run.mem_enqueued (h : (queue cfg schemas).Run es db) :
    ∀ t ∈ db.tasks, t.id ∈ enqueued t.taskType es := by
  refine h.invariant (I := fun es db => ∀ t ∈ db.tasks, t.id ∈ enqueued t.taskType es) ?_ ?_
  · rintro db ⟨htasks, -, -⟩ t ht
    rw [htasks] at ht
    exact absurd ht (Table.not_mem_empty t)
  · intro es db e db' _ ih hs t' ht'
    rw [enqueued, List.filterMap_append, List.mem_append]
    rcases (step_rows hs).backward t' ht' with ⟨t, ht, hrow, hid⟩ | ⟨hnew, hfresh⟩
    · rw [hid, hrow.taskType]
      exact .inl (ih t ht)
    · refine .inr (List.mem_filterMap.mpr ⟨e, by simp, ?_⟩)
      obtain ⟨req, _, _, hop, hreply, -⟩ := hnew
      obtain ⟨-, happly⟩ := hs
      simp only [hop, hreply, apply, enqueue] at happly
      split at happly
      · next hok =>
          split at hok
          · cases hok
          · next type' parameters hvalid =>
              cases hok
              obtain ⟨rfl, -⟩ := Prod.mk.inj happly
              have hrow : t' = queuedRow e.now t'.id type' parameters req.payload req.priority
                  req.correlationId := by
                have hnone : ∀ t ∈ db.tasks, t.id ≠ (queuedRow e.now t'.id type' parameters
                    req.payload req.priority req.correlationId).id := hfresh
                rcases (Table.mem_insert hnone).mp ht' with hold | heq
                · exact absurd rfl (hfresh t' hold)
                · exact heq
              -- the type of the row is the one the request names
              have htype : TaskType.ofName req.taskType = some type' := by
                unfold validateParameters at hvalid
                split at hvalid
                · cases hvalid
                · next hname =>
                    split at hvalid
                    · cases hvalid
                    · cases hvalid
                      exact hname
              have htype' : t'.taskType = type' := by rw [hrow]; rfl
              simp [hop, hreply, Reply.done, htype, htype']
      · obtain ⟨-, hwrong⟩ := Prod.mk.inj happly
        cases hwrong

/-- Every row handed out is still there, under its type. -/
theorem Run.handed_row (h : (queue cfg schemas).Run es db) :
    ∀ r ∈ handed es, ∃ t ∈ db.tasks, t.id = r.id ∧ t.taskType = r.taskType := by
  refine h.invariant (I := fun es db => ∀ r ∈ handed es, ∃ t ∈ db.tasks, t.id = r.id ∧
    t.taskType = r.taskType) (fun _ _ r hr => by cases hr) ?_
  intro es db e db' _ ih hs r hr
  have hkeep : ∀ t ∈ db.tasks, ∃ t' ∈ db'.tasks, t'.id = t.id ∧ t'.taskType = t.taskType := by
    intro t ht
    obtain ⟨t', ht', hrow, hid⟩ := (step_rows hs).forward t ht
    exact ⟨t', ht', hid, hrow.taskType⟩
  rw [handed, List.flatMap_append, List.flatMap_singleton, List.mem_append] at hr
  rcases hr with hold | hnow
  · obtain ⟨t, ht, hid, htype⟩ := ih r hold
    obtain ⟨t', ht', hid', htype'⟩ := hkeep t ht
    exact ⟨t', ht', hid'.trans hid, htype'.trans htype⟩
  · rcases step_claims hs with hnone | ⟨w, limit, maxBatch, taskTypes, skip, hop, hrows⟩
    · rw [hnone] at hnow
      cases hnow
    · rw [hrows] at hnow
      obtain ⟨t, ht, rfl⟩ := List.mem_map.mp hnow
      exact hkeep t (mem_claimedRows ht).1

/-- Under the cap a task is handed out at most `m` times. -/
theorem Capped.claims_le (h : Capped taskType m es db) (hrun : (queue cfg schemas).Run es db)
    {t : Task} (ht : t ∈ db.tasks) (htype : t.taskType = taskType) :
    ∃ k ≤ m, claimNumbers t.id es = List.range k := by
  obtain ⟨k, hk, -⟩ := Run.claims_numbered hrun t.id
  refine ⟨k, ?_, hk⟩
  by_contra hlt
  have hm : m ∈ claimNumbers t.id es := by
    rw [hk, List.mem_range]
    omega
  exact absurd (h.claims t ht htype m hm) (Nat.lt_irrefl m)

/-- Under the cap `N` enqueued tasks of the type are handed out at most
`N * m` times. -/
theorem Capped.handed_le (h : Capped taskType m es db) (hrun : (queue cfg schemas).Run es db) :
    ((handed es).filter fun r => r.taskType = taskType).length ≤
      (enqueued taskType es).length * m := by
  let ids := ((handed es).filter fun r => r.taskType = taskType).map ClaimedTask.id
  have hrow : ∀ id ∈ ids, ∃ t ∈ db.tasks, t.id = id ∧ t.taskType = taskType := by
    intro id hid
    obtain ⟨r, hr, rfl⟩ := List.mem_map.mp hid
    obtain ⟨hr, htype⟩ := List.mem_filter.mp hr
    obtain ⟨t, ht, hid, htype'⟩ := Run.handed_row hrun r hr
    exact ⟨t, ht, hid, htype'.trans (of_decide_eq_true htype)⟩
  -- each task is handed out at most `m` times
  have hcount : ∀ id ∈ ids.toFinset, ids.count id ≤ m := by
    intro id hid
    obtain ⟨t, ht, rfl, htype⟩ := hrow id (List.mem_toFinset.mp hid)
    obtain ⟨k, hk, hnumbers⟩ := h.claims_le hrun ht htype
    have hlen : ((handed es).filter fun r => r.id = t.id).length = k := by
      rw [← List.length_range (n := k), ← hnumbers, claimNumbers, List.length_map]
    have hsub : ids.count t.id ≤ ((handed es).filter fun r => r.id = t.id).length := by
      rw [List.count_eq_countP, List.countP_map, List.countP_filter, ← List.countP_eq_length_filter]
      refine List.countP_mono_left fun r _ hr => ?_
      simp only [Function.comp, Bool.and_eq_true, beq_iff_eq] at hr
      simpa using hr.1
    omega
  -- and was enqueued first
  have hsubset : ids.toFinset ⊆ (enqueued taskType es).toFinset := by
    intro id hid
    obtain ⟨t, ht, rfl, htype⟩ := hrow id (List.mem_toFinset.mp hid)
    exact List.mem_toFinset.mpr (htype ▸ Run.mem_enqueued hrun t ht)
  calc ((handed es).filter fun r => r.taskType = taskType).length
      = ids.length := (List.length_map _).symm
    _ = ∑ id ∈ ids.toFinset, ids.count id := (List.sum_toFinset_count_eq_length ids).symm
    _ ≤ ids.toFinset.card * m := Finset.sum_le_card_nsmul _ _ _ hcount
    _ ≤ (enqueued taskType es).length * m :=
        Nat.mul_le_mul_right m ((Finset.card_le_card hsubset).trans (List.toFinset_card_le _))

/-- **The attempt cap bounds every run.** Along any run in which the effective
`max_attempts` of a type is `m ≥ 1` whenever a step is taken,

* the attempts handed out of a task of the type are `0, 1, …`, fewer than `m`
  of them or all `m`, in this order;
* a queued task of the type has an attempt left;
* a task the sweep takes back fails exactly when the attempt it ends is `m - 1`;
* `N` enqueued tasks of the type are handed out at most `N * m` times;
* a task of the type is taken back at most `m` times. -/
theorem attempt_cap_bounds_runs {db₀ : Db} (hm : 1 ≤ m) (hinit : (queue cfg schemas).init db₀)
    (h : ((queue cfg schemas).guarded (CapIs cfg taskType m)).Trace db₀ es db) :
    (∀ t ∈ db.tasks, t.taskType = taskType → ∃ k ≤ m, claimNumbers t.id es = List.range k) ∧
    (∀ t ∈ db.tasks, t.taskType = taskType → t.status = .queued → t.attemptCount < m) ∧
    (∀ as e bs u u', es = as ++ e :: bs → (queue cfg schemas).Trace db₀ as u →
      (queue cfg schemas).step u e u' → ∀ t ∈ u.tasks, ∀ t' ∈ u'.tasks, t'.id = t.id →
        t.taskType = taskType → (∃ r ∈ e.reply.reclaims, r.id = t.id) →
        (t'.status = .failed ↔ t.attemptCount = m - 1)) ∧
    ((handed es).filter fun r => r.taskType = taskType).length ≤
      (enqueued taskType es).length * m ∧
    (∀ t ∈ db.tasks, t.taskType = taskType →
      ((takenBack es).filter fun r => r.id = t.id).length ≤ m) := by
  have hrun : (queue cfg schemas).Run es db := ⟨db₀, hinit, h.of_guarded⟩
  have hcapped : Capped taskType m es db := Run.capped hm ⟨db₀, hinit, h⟩
  refine ⟨fun t ht htype => hcapped.claims_le hrun ht htype, ?_, ?_, hcapped.handed_le hrun, ?_⟩
  · intro t ht htype hq
    exact hcapped.unended t ht htype (by rw [hq]; rfl)
  · intro as e bs u u' hsplit hu hs t ht t' ht' hid htype ⟨r, hr, hrid⟩
    rw [hsplit] at h
    obtain ⟨v, v', hleft, hstep, -⟩ := h.at_event
    obtain rfl := hu.unique (queue_deterministic cfg schemas) v hleft.of_guarded
    have hbefore : Capped taskType m as u := Run.capped hm ⟨db₀, hinit, hleft⟩
    exact failed_iff_last ⟨as, db₀, hinit, hu⟩ hs ht ht' hid (by rw [htype]; exact hstep.2)
      (hbefore.unended t ht htype) hr hrid
  · intro t ht htype
    rw [Run.reclaims_length hrun ht]
    exact hcapped.attempts t ht htype

end

/-- The reclaimed task of the small deployment, under the shipped cap of 3. -/
theorem attempt_cap_bounds_runs_reclaimed :
    ∃ t ∈ (play {} Demo.schemas .empty Demo.reclaimed).2.tasks, t.taskType = .sleep ∧
      t.status = .queued ∧ t.attemptCount < 3 ∧
      ∃ k ≤ 3, claimNumbers t.id (play {} Demo.schemas .empty Demo.reclaimed).1 = List.range k := by
  obtain ⟨t, ht, htype, hq⟩ : ∃ t ∈ (play {} Demo.schemas .empty Demo.reclaimed).2.tasks.rows,
      t.taskType = .sleep ∧ t.status = .queued := by
    decide +kernel
  have htrace : ((queue {} Demo.schemas).guarded (CapIs {} .sleep 3)).Trace .empty
      (play {} Demo.schemas .empty Demo.reclaimed).1
      (play {} Demo.schemas .empty Demo.reclaimed).2 :=
    .cons ⟨queue_step rfl, rfl⟩ (.cons ⟨queue_step trivial, rfl⟩
      (.cons ⟨queue_step fun _ => by constructor <;> norm_num, rfl⟩ .nil))
  obtain ⟨hclaims, hqueued, -⟩ := attempt_cap_bounds_runs (by decide) ⟨rfl, rfl, rfl⟩ htrace
  exact ⟨t, ht, htype, hq, hqueued t ht htype hq, hclaims t ht htype⟩

end TaskFleet.Model
