import TaskFleet.Logic.TaskLease
import Mathlib.Algebra.Order.Ring.Unbundled.Rat
import Mathlib.Tactic.Linarith

/-!
# A task waiting to be retried is not lost

`_ELIGIBLE` reads two nullable columns under three-valued logic, and a row on
which it comes out unknown is passed over by every worker for ever. What the
two columns hold is what the last sweep wrote (`Run.retried`); so a queued row
is kept back before `not_before`, kept from the worker that lost it for the
exclusion window after that, and open to everybody from then on
(`retry_never_starves`).
-/

namespace TaskFleet.Model

open Py Sql

/-- When the event takes the task `id` back to be tried again, and from whom. -/
def Event.retries (id : Uuid) (e : Event) : Option (Seconds × Uuid) :=
  match e.label id with
  | .revoke w _ => some (e.now, w)
  | _ => none

/-- The last of these in a history. -/
def lastReclaim (id : Uuid) (es : List Event) : Option (Seconds × Uuid) :=
  (es.filterMap (Event.retries id)).getLast?

/-- The longest delay a sweep writes, as a length of time. -/
def Config.longestBackoff (cfg : Config) : Seconds := max cfg.taskRetryBackoffMaxSeconds 0

/-- The exclusion window, as a length of time. -/
def Config.exclusionWindow (cfg : Config) : Seconds := max cfg.taskRetryExclusionSeconds 0

section

variable {cfg : Config} {schemas : Schemas} {db db' : Db} {e : Event}
  {es : List Event} {t t' : Task}
  {now : Seconds} {w : Uuid}

theorem lastReclaim_snoc (id : Uuid) (es : List Event) (e : Event) :
    lastReclaim id (es ++ [e]) = (e.retries id).or (lastReclaim id es) := by
  unfold lastReclaim
  rw [List.filterMap_append]
  cases h : e.retries id with
  | none => simp [h]
  | some r => simp [h]

theorem retries_of_silent {id : Uuid} (h : e.label id = .silent) : e.retries id = none := by
  rw [Event.retries, h]

/-- Full jitter never goes past the cap. -/
theorem retryBackoff_le {draw : ℚ} (h₀ : 0 ≤ draw) (h₁ : draw < 1) (n : ℕ) :
    retryBackoff cfg draw n ≤ cfg.longestBackoff := by
  unfold retryBackoff Config.longestBackoff
  generalize hcap : min cfg.taskRetryBackoffMaxSeconds
    (cfg.taskRetryBackoffBaseSeconds * cfg.taskRetryBackoffFactor ^ n) = cap
  have hle : cap ≤ max cfg.taskRetryBackoffMaxSeconds 0 :=
    hcap ▸ (min_le_left _ _).trans (le_max_left _ _)
  rcases le_total cap 0 with hneg | hpos
  · exact (mul_nonpos_of_nonneg_of_nonpos h₀ hneg).trans (le_max_right _ _)
  · exact (mul_le_of_le_one_left hpos h₁.le).trans hle

/-! ## The two columns -/

/-- What the two retry columns of a queued row say, next to the last sweep that
took the task back. -/
structure Retried (cfg : Config) (last : Option (Seconds × Uuid)) (t : Task) : Prop where
  fresh : last = none → t.notBefore = none ∧ t.excludedWorkerId = none
  waiting : ∀ at' lost, last = some (at', lost) → t.excludedWorkerId = some lost ∧
    ∃ notBefore, t.notBefore = some notBefore ∧ notBefore ≤ at' + cfg.longestBackoff

/-- A step that keeps the two columns, and takes nothing back, keeps what they
say. -/
theorem Retried.of_same {id : Uuid} (h : Retried cfg (lastReclaim id es) t)
    (hsilent : e.retries id = none) (hbefore : t'.notBefore = t.notBefore)
    (hexcluded : t'.excludedWorkerId = t.excludedWorkerId) :
    Retried cfg (lastReclaim id (es ++ [e])) t' := by
  rw [lastReclaim_snoc, hsilent, Option.none_or]
  exact ⟨fun hlast => hbefore ▸ hexcluded ▸ h.fresh hlast,
    fun at' lost hlast => hbefore ▸ hexcluded ▸ h.waiting at' lost hlast⟩

/-- **One row.** Only the sweep makes a row queued again, and it writes both
columns when it does. -/
theorem RowStep.retried (h : RowStep cfg db e t t') (hadm : e.op.Admissible db) (hshape : t.Shape)
    (hold : t.status = .queued → Retried cfg (lastReclaim t.id es) t) (hq : t'.status = .queued) :
    Retried cfg (lastReclaim t.id (es ++ [e])) t' := by
  cases h with
  | keep hlabel => exact (hold hq).of_same (retries_of_silent hlabel) rfl rfl
  | purge hop hwhere hlabel => exact (hold hq).of_same (retries_of_silent hlabel) rfl rfl
  | renew hwhere => exact absurd hq (TaskState.ne_queued_of_isLive (heldLive_holds.mp hwhere).2)
  | shorten hwhere => exact absurd hq (TaskState.ne_queued_of_isLive (heldLive_holds.mp hwhere).2)
  | claim | start | fail | complete | cancel => cases hq
  | @reclaim batch skip draw hop hwhere hlabel =>
      rw [hop] at hadm
      obtain ⟨hdraw, hdraw'⟩ := hadm t.id
      obtain ⟨w, hw⟩ := hshape.holder (expired_holds.mp hwhere).1
      have hex : t.exhausted cfg db.policies = false := by
        cases hex : t.exhausted cfg db.policies with
        | false => rfl
        | true => simp [Task.reclaim, hex] at hq
      have hrevoke : (t.reclaimed cfg db.policies e.now draw).label = .revoke w t.attemptCount := by
        simp [ReclaimedTask.label, Task.reclaimed, Task.reclaim, hex, hw]
      have hretries : e.retries t.id = some (e.now, w) := by
        rw [Event.retries, hlabel, hrevoke]
      rw [lastReclaim_snoc, hretries, Option.some_or]
      refine ⟨fun hlast => (by cases hlast), fun at' lost hlast => ?_⟩
      obtain ⟨rfl, rfl⟩ := Prod.mk.inj (Option.some.inj hlast)
      refine ⟨by simp [Task.reclaim, hex, hw], e.now + retryBackoff cfg (draw t.id) t.attemptCount,
        by simp [Task.reclaim, hex], ?_⟩
      exact (add_le_add_iff_left e.now).mpr (retryBackoff_le hdraw hdraw' t.attemptCount)

/-- No sweep took back a task that is not there. -/
theorem Run.lastReclaim_of_absent (h : (queue cfg schemas).Run es db) {id : Uuid} :
    db.tasks.get? id = none → lastReclaim id es = none := by
  refine h.invariant (I := fun es db => db.tasks.get? id = none → lastReclaim id es = none)
    (fun _ _ _ => rfl) ?_
  intro es db e db' _ ih hs habsent'
  have habsent : db.tasks.get? id = none := by
    rw [Table.get?_eq_none_iff] at habsent' ⊢
    intro t ht hid
    obtain ⟨t', ht', -, hid'⟩ := (step_rows hs).forward t ht
    exact habsent' t' ht' (hid'.trans hid)
  rw [lastReclaim_snoc, retries_of_silent (label_of_absent hs habsent habsent'), Option.none_or]
  exact ih habsent

/-- **Every run** keeps the two columns of a queued row as the last sweep left
them. -/
theorem Run.retried (h : (queue cfg schemas).Run es db) :
    ∀ t ∈ db.tasks, t.status = .queued → Retried cfg (lastReclaim t.id es) t := by
  refine h.invariant (I := fun es db =>
    ∀ t ∈ db.tasks, t.status = .queued → Retried cfg (lastReclaim t.id es) t) ?_ ?_
  · rintro db ⟨htasks, -, -⟩ t ht
    rw [htasks] at ht
    exact absurd ht (Table.not_mem_empty t)
  · intro es db e db' hrun ih hs t' ht' hq
    rcases (step_rows hs).backward t' ht' with ⟨t, ht, hrow, hid⟩ | ⟨hnew, hfresh⟩
    · rw [hid]
      exact hrow.retried hs.1 (reachable_shape hrun.reachable t ht) (ih t ht) hq
    · obtain ⟨req, _, _, hop, hreply, heq⟩ := hnew
      have hlast : lastReclaim t'.id es = none :=
        Run.lastReclaim_of_absent hrun (Table.get?_eq_none_iff.mpr hfresh)
      have hretries : e.retries t'.id = none := by
        simp [Event.retries, Event.label, hop, hreply, Reply.done]
      rw [lastReclaim_snoc, hretries, hlast, Option.none_or]
      refine ⟨fun _ => ?_, fun _ _ hlast => (by cases hlast)⟩
      rw [heq]
      exact ⟨rfl, rfl⟩

/-! ## The predicate -/

theorem eligible_fresh (hbefore : t.notBefore = none) (hexcluded : t.excludedWorkerId = none) :
    eligible cfg now w t = some true := by
  simp [eligible, hbefore, hexcluded, isNull, test, Tri.and, Tri.or]

/-- The three values of the predicate are two once neither column is null. -/
theorem eligible_waiting {notBefore : Seconds} {lost : Uuid}
    (hbefore : t.notBefore = some notBefore)
    (hexcluded : t.excludedWorkerId = some lost) :
    eligible cfg now w t = some (decide (notBefore ≤ now) &&
      (decide (lost ≠ w) || decide (notBefore + cfg.taskRetryExclusionSeconds ≤ now))) := by
  simp only [eligible, hbefore, hexcluded, isNull, test, Option.isNone_some,
    Option.map_some, rel_some,
    Tri.some_or_some, Tri.some_and_some, Bool.false_or]

/-- A worker with room for the whole queue claims every row it may claim. -/
theorem mem_claimedRows_of_room {limit : Int} {taskTypes : Option (List String)} (ht : t ∈ db.tasks)
    (h : (claimable cfg now w taskTypes t).holds = true)
    (hroom : db.tasks.rows.length ≤ limit.toNat) :
    t ∈ claimedRows cfg db now w limit taskTypes [] := by
  unfold claimedRows
  rw [List.take_of_length_le, List.mem_insertionSort, List.mem_filter]
  · exact ⟨ht, by simp [h]⟩
  · rw [List.length_insertionSort]
    exact (List.length_filter_le _ _).trans hroom

/-- **The retry columns starve nobody.** In every run, of every queued row:

* the predicate is never unknown;
* if no sweep took the task back, it is true for every worker;
* otherwise, with the time of the last sweep and the worker it took the task
  from, the predicate is true for every worker once the longest backoff and the
  exclusion window have passed, so that any worker with room for the queue gets
  the task; it is false for every worker before `not_before`; and within the
  window after that it is false exactly for the worker that lost the task. -/
theorem retry_never_starves (h : (queue cfg schemas).Run es db) (ht : t ∈ db.tasks)
    (hq : t.status = .queued) :
    (∀ now w, eligible cfg now w t ≠ none) ∧
    (lastReclaim t.id es = none → ∀ now w, eligible cfg now w t = some true) ∧
    ∀ at' lost, lastReclaim t.id es = some (at', lost) → ∃ notBefore, t.notBefore = some notBefore ∧
      (∀ now w, at' + cfg.longestBackoff + cfg.exclusionWindow ≤ now →
        eligible cfg now w t = some true ∧
          ∀ limit : Int, db.tasks.rows.length ≤ limit.toNat →
            t ∈ claimedRows cfg db now w limit none []) ∧
      (∀ now w, now < notBefore → eligible cfg now w t = some false) ∧
      (∀ now w, notBefore ≤ now → now < notBefore + cfg.taskRetryExclusionSeconds →
        (eligible cfg now w t = some false ↔ w = lost)) := by
  have hretried := Run.retried h t ht hq
  refine ⟨fun now w => ?_, fun hlast now w => ?_, fun at' lost hlast => ?_⟩
  · cases hlast : lastReclaim t.id es with
    | none =>
        obtain ⟨hbefore, hexcluded⟩ := hretried.fresh hlast
        rw [eligible_fresh hbefore hexcluded]
        exact Option.some_ne_none _
    | some last =>
        obtain ⟨hexcluded, notBefore, hbefore, -⟩ := hretried.waiting last.1 last.2 hlast
        rw [eligible_waiting hbefore hexcluded]
        exact Option.some_ne_none _
  · obtain ⟨hbefore, hexcluded⟩ := hretried.fresh hlast
    exact eligible_fresh hbefore hexcluded
  · obtain ⟨hexcluded, notBefore, hbefore, hle⟩ := hretried.waiting at' lost hlast
    refine ⟨notBefore, hbefore, fun now w hnow => ?_, fun now w hnow => ?_,
      fun now w hfrom huntil => ?_⟩
    · have hwindow : (cfg.taskRetryExclusionSeconds : Seconds) ≤ cfg.exclusionWindow :=
        le_max_left _ _
      have hwindow' : 0 ≤ cfg.exclusionWindow := le_max_right _ _
      have hopen : eligible cfg now w t = some true := by
        rw [eligible_waiting hbefore hexcluded, decide_eq_true (show notBefore ≤ now by linarith),
          decide_eq_true (show notBefore + cfg.taskRetryExclusionSeconds ≤ now by linarith),
          Bool.or_true, Bool.and_true]
      refine ⟨hopen, fun limit hroom => mem_claimedRows_of_room ht ?_ hroom⟩
      simp [claimable, hq, hopen]
    · rw [eligible_waiting hbefore hexcluded, decide_eq_false (not_le.mpr hnow), Bool.false_and]
    · rw [eligible_waiting hbefore hexcluded, decide_eq_true hfrom,
        decide_eq_false (not_le.mpr huntil)]
      simp only [Bool.true_and, Bool.or_false, Option.some.injEq, decide_eq_false_iff_not, not_not]
      exact eq_comm

end

/-- The reclaimed task of the small deployment, taken back at 40: it waits, then
goes to anybody but the worker that lost it, then to that worker too. -/
theorem retry_never_starves_reclaimed :
    ∃ t ∈ (play {} Demo.schemas .empty Demo.reclaimed).2.tasks, t.status = .queued ∧
      eligible {} 160 Demo.worker t = some true ∧
      ∃ notBefore, t.notBefore = some notBefore ∧ ∀ now w, now < notBefore →
        eligible {} now w t = some false := by
  obtain ⟨t, ht, hq, hlast⟩ : ∃ t ∈ (play {} Demo.schemas .empty Demo.reclaimed).2.tasks.rows,
      t.status = .queued ∧ lastReclaim t.id (play {} Demo.schemas .empty Demo.reclaimed).1 =
        some (40, Demo.worker) := by
    decide +kernel
  obtain ⟨-, -, hwindow⟩ := retry_never_starves (play_run Demo.reclaimed_playable) ht hq
  obtain ⟨notBefore, hbefore, hopen, hshut, -⟩ := hwindow _ _ hlast
  exact ⟨t, ht, hq, (hopen 160 Demo.worker (by decide +kernel)).1, notBefore, hbefore, hshut⟩

end TaskFleet.Model
