import TaskFleet.Logic.Endings
import Mathlib.Data.Rat.Floor
import Mathlib.Tactic.Linarith

/-!
# The throughput chart counts the completions

`completions_per_minute` reads the stamps of the rows that are completed now. Nothing ever
moves such a stamp, so a bar counts the completions that were accepted in its minute, each
once, however long ago that was and whatever was purged since; and the bars are the
minutes of the window, with nothing between them and nothing left out.
-/

namespace TaskFleet.Model

open Py Sql

/-! ## Minutes -/

/-- A minute of the window is one that starts in it. -/
theorem mem_window {now t : Seconds} {minutes : ℤ} (h : 1 ≤ minutes) :
    (∃ i < minutes.toNat, truncMinute t = windowStart now minutes + 60 * (i : Seconds)) ↔
      windowStart now minutes ≤ t ∧ t < truncMinute now + 60 := by
  -- whole minutes, and the time between two of them
  have hdiv : t = 60 * (t / 60) := by ring
  have hcast : ∀ k : ℤ, truncMinute t = 60 * (k : Seconds) ↔ ⌊t / 60⌋ = k := by
    intro k
    rw [truncMinute]
    constructor
    · intro heq
      have hk : ((⌊t / 60⌋ : ℤ) : Seconds) = (k : Seconds) := by linarith
      exact_mod_cast hk
    · rintro rfl
      rfl
  have hstart : windowStart now minutes =
      60 * ((⌊now / 60⌋ - (minutes - 1) : ℤ) : Seconds) := by
    rw [windowStart, truncMinute]
    push_cast
    ring
  have hend : truncMinute now + 60 = 60 * ((⌊now / 60⌋ + 1 : ℤ) : Seconds) := by
    rw [truncMinute]
    push_cast
    ring
  have hlow : windowStart now minutes ≤ t ↔ ⌊now / 60⌋ - (minutes - 1) ≤ ⌊t / 60⌋ := by
    rw [hstart, Int.le_floor]
    constructor
    · intro hle
      linarith
    · intro hle
      linarith
  have hhigh : t < truncMinute now + 60 ↔ ⌊t / 60⌋ < ⌊now / 60⌋ + 1 := by
    rw [hend, Int.floor_lt]
    constructor
    · intro hlt
      linarith
    · intro hlt
      linarith
  rw [hlow, hhigh]
  constructor
  · rintro ⟨i, hi, heq⟩
    have hfloor := (hcast (⌊now / 60⌋ - (minutes - 1) + i)).mp (by
      rw [heq, hstart]
      push_cast
      ring)
    omega
  · rintro ⟨hlo, hhi⟩
    refine ⟨(⌊t / 60⌋ - (⌊now / 60⌋ - (minutes - 1))).toNat, by omega, ?_⟩
    have hnat : (((⌊t / 60⌋ - (⌊now / 60⌋ - (minutes - 1))).toNat : ℤ)) =
        ⌊t / 60⌋ - (⌊now / 60⌋ - (minutes - 1)) := Int.toNat_of_nonneg (by omega)
    have hrat : (((⌊t / 60⌋ - (⌊now / 60⌋ - (minutes - 1))).toNat : Seconds)) =
        ((⌊t / 60⌋ - (⌊now / 60⌋ - (minutes - 1)) : ℤ) : Seconds) := by
      exact_mod_cast congrArg (fun k : ℤ => (k : Seconds)) hnat
    rw [hrat, hstart, truncMinute]
    push_cast
    ring

/-! ## Stamps -/

/-- `completed_at` is set exactly on a completed row, and is when it was last written. -/
def Task.Stamped (t : Task) : Prop :=
  t.completedAt = if t.status = .completed then some t.updatedAt else none

section

variable {cfg : Config} {schemas : Schemas} {db : Db} {es : List Event}

/-- One step keeps the stamp. -/
theorem RowStep.stamped_at {e : Event} {t t' : Task} (h : RowStep cfg db e t t') (ht : t.Stamped) :
    t'.Stamped := by
  have hnone : t.status ≠ .completed → t.completedAt = none := by
    intro hs
    rw [ht, if_neg hs]
  have hlive : t.status.isLive = true → t.completedAt = none := by
    intro hl
    refine hnone ?_
    intro hs
    rw [hs] at hl
    cases hl
  have hsame : t'.completedAt = none → t'.status ≠ .completed → t'.Stamped := by
    intro hc hs
    rw [Task.Stamped, if_neg hs, hc]
  cases h with
  | keep => exact ht
  | purge => exact ht
  | complete => rfl
  | claim hop hwhere hlabel =>
      refine hsame (hnone ?_) (by simp [Task.claim])
      rw [claimable_queued hwhere]
      decide
  | start hop hreply hid howner hstatus hlabel =>
      refine hsame (hnone ?_) (by simp [Task.mark])
      rw [hstatus]
      decide
  | fail hop hreply hid howner hl hlabel =>
      exact hsame (hlive hl) (by simp [Task.mark, TaskState.isTerminal])
  | renew hwhere hlabel =>
      have hl := (heldLive_holds.mp hwhere).2
      refine hsame (hlive hl) ?_
      show t.status ≠ .completed
      intro hs
      rw [hs] at hl
      cases hl
  | shorten hwhere hlabel =>
      have hl := (heldLive_holds.mp hwhere).2
      refine hsame (hlive hl) ?_
      show t.status ≠ .completed
      intro hs
      rw [hs] at hl
      cases hl
  | @reclaim batch skip draw hop hwhere hlabel =>
      refine hsame (hlive (expired_holds.mp hwhere).1) ?_
      cases hex : t.exhausted cfg db.policies <;> simp [Task.reclaim, hex]
  | cancel hop hid hstatus hlabel =>
      refine hsame (hnone ?_) (by simp [Task.cancel])
      rw [hstatus]
      decide

theorem reachable_stamped (h : (queue cfg schemas).Reachable db) : ∀ t ∈ db.tasks, t.Stamped := by
  refine reachable_rows ?_ ?_ h
  · rintro e t ⟨req, taskType, parameters, -, -, heq⟩
    rw [heq]
    rfl
  · intro db e t t' _ _ hrow ht
    exact hrow.stamped_at ht

/-- The stamps that meet a condition are the completions that do. -/
theorem Run.completions_length (h : (queue cfg schemas).Run es db) (p : Seconds → Bool) :
    ((db.tasks.rows.filterMap Task.completedAt).filter p).length =
      ((endingsBy .result es).filter fun x => p x.time).length := by
  have hcount := Run.endings_length h fun shown => shown.1 = .completed && p shown.2
  have hevents : ((endedIn es).filter fun x => x.shown.1 = .completed && p x.shown.2) =
      (endingsBy .result es).filter fun x => p x.time := by
    rw [endingsBy, List.filter_filter]
    refine List.filter_congr fun x _ => ?_
    rw [Bool.and_comm]
    congr 1
    cases hc : x.cause <;> simp [TaskEnd.shown, EndCause.status, hc]
  have hrows : ∀ rows : List Task, (∀ t ∈ rows, t.Stamped) →
      ((rows.filterMap Task.completedAt).filter p).length =
        (rows.filter fun t => t.ending.any fun shown =>
          shown.1 = .completed && p shown.2).length := by
    intro rows hstamped
    induction rows with
    | nil => rfl
    | cons t rows ih =>
        have hrest := ih fun u hu => hstamped u (List.mem_cons_of_mem t hu)
        have hstamp : t.completedAt = _ := hstamped t List.mem_cons_self
        rw [List.filterMap_cons, hstamp]
        by_cases hs : t.status = .completed
        · have hending : t.ending = some (.completed, t.updatedAt) := by
            rw [Task.ending_terminal (by rw [hs]; rfl), hs]
          rw [if_pos hs]
          by_cases hp : p t.updatedAt = true
          · rw [List.filter_cons_of_pos hp, List.filter_cons_of_pos (by simp [hending, hp]),
              List.length_cons, List.length_cons, hrest]
          · rw [List.filter_cons_of_neg hp, List.filter_cons_of_neg (by simp [hending, hp]),
              hrest]
        · have hending : (t.ending.any fun shown => shown.1 = .completed && p shown.2) = false := by
            rw [Task.ending]
            split <;> simp [hs]
          rw [if_neg hs, List.filter_cons_of_neg (by simp [hending])]
          exact hrest
  rw [hrows db.tasks.rows (reachable_stamped h.reachable), ← hcount, hevents]

/-- **Throughput.** For every history and every window of at least one and at most the
allowed number of minutes, the chart has one bar for each minute of the window, the current
one last; a bar counts the completions accepted in its minute, purged or not; and all bars
together count every completion of the window once. -/
theorem throughput_exact (h : (queue cfg schemas).Run es db) (now : Seconds)
    {minutes maxMinutes : ℤ} (hone : 1 ≤ minutes) (hmax : minutes ≤ maxMinutes) :
    ∃ buckets, completionsPerMinute db now minutes maxMinutes = .ok buckets ∧
      buckets.map MinuteBucket.minute =
        (List.range minutes.toNat).map
          (fun (i : ℕ) => windowStart now minutes + 60 * (i : Seconds)) ∧
      (∀ b ∈ buckets, b.completed =
        ((endingsBy .result es).filter fun x => truncMinute x.time = b.minute).length) ∧
      (buckets.map MinuteBucket.completed).sum =
        ((endingsBy .result es).filter fun x =>
          windowStart now minutes ≤ x.time ∧ x.time < truncMinute now + 60).length := by
  -- a bar counts the stamps of its minute: the window adds nothing to that
  have hbar : ∀ i < minutes.toNat,
      ((((db.tasks.rows.filterMap Task.completedAt).filter (windowStart now minutes ≤ ·)).map
        truncMinute).filter (· = windowStart now minutes + 60 * (i : Seconds))).length =
      ((endingsBy .result es).filter fun x =>
        truncMinute x.time = windowStart now minutes + 60 * (i : Seconds)).length := by
    intro i hi
    rw [List.filter_map, List.length_map, List.filter_filter,
      ← Run.completions_length h fun c => truncMinute c = windowStart now minutes +
        60 * (i : Seconds)]
    refine congrArg List.length (List.filter_congr fun c _ => ?_)
    by_cases hc : truncMinute c = windowStart now minutes + 60 * (i : Seconds)
    · have hin := ((mem_window hone).mp ⟨i, hi, hc⟩).1
      simp [hc, hin]
    · simp [hc]
  rw [completionsPerMinute, if_neg (by omega), if_neg (by omega)]
  refine ⟨_, rfl, ?_, ?_, ?_⟩
  · rw [List.map_map]
    rfl
  · intro b hb
    obtain ⟨i, hi, rfl⟩ := List.mem_map.mp hb
    exact hbar i (List.mem_range.mp hi)
  · have hnodup : ((List.range minutes.toNat).map
        fun (i : ℕ) => windowStart now minutes + 60 * (i : Seconds)).Nodup := by
      refine List.Nodup.map ?_ List.nodup_range
      intro i j hij
      have hcast : (i : Seconds) = (j : Seconds) := by
        have heq : windowStart now minutes + 60 * (i : Seconds) =
          windowStart now minutes + 60 * (j : Seconds) := hij
        linarith
      exact_mod_cast hcast
    rw [List.map_map]
    have hsum := sum_fibres (fun x : TaskEnd => truncMinute x.time) hnodup
      (endingsBy .result es)
    rw [List.map_map] at hsum
    refine Eq.trans (congrArg List.sum (List.map_congr_left fun i hi => ?_)) (hsum.trans ?_)
    · exact hbar i (List.mem_range.mp hi)
    · refine congrArg List.length (List.filter_congr fun x _ => ?_)
      rw [Bool.eq_iff_iff, List.contains_iff_mem, List.mem_map, decide_eq_true_iff,
        ← mem_window hone]
      constructor
      · rintro ⟨i, hi, heq⟩
        exact ⟨i, List.mem_range.mp hi, heq.symm⟩
      · rintro ⟨i, hi, heq⟩
        exact ⟨i, List.mem_range.mpr hi, heq.symm⟩

end

/-- Five minutes that end at 310: the bar of 180 is the completion at 200. -/
theorem throughput_exact_delivered :
    let run := play {} Demo.schemas .empty Demo.fullLife
    ∃ buckets, completionsPerMinute run.2 310 5 60 = .ok buckets ∧
      buckets.map MinuteBucket.completed = [0, 0, 1, 0, 0] ∧
      (buckets.map MinuteBucket.completed).sum = ((endingsBy .result run.1).filter fun x =>
        windowStart 310 5 ≤ x.time ∧ x.time < truncMinute 310 + 60).length := by
  intro run
  obtain ⟨buckets, hok, -, -, hsum⟩ :=
    throughput_exact (play_run Demo.fullLife_playable) 310 (show (1 : ℤ) ≤ 5 by decide)
      (show (5 : ℤ) ≤ 60 by decide)
  have hbars : (completionsPerMinute run.2 310 5 60).map (List.map MinuteBucket.completed) =
      .ok [0, 0, 1, 0, 0] := by decide +kernel
  rw [hok] at hbars
  exact ⟨buckets, hok, Except.ok.inj hbars, hsum⟩

end TaskFleet.Model
