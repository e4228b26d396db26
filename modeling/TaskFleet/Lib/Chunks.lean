import Mathlib.Logic.Function.Iterate
import Mathlib.Algebra.Order.Field.Rat
import Mathlib.Data.List.Infix
import Mathlib.Tactic.Positivity

/-!
# Loops in chunks

A loop of `total` rounds that runs up to `chunk` of them at a time. In front of each
chunk it looks at a flag, and ends there when the flag is up; behind each it reports
which part of the rounds is done. The fuel counts the looks.

* **the rounds** — in front of the `i`th chunk `i * chunk` rounds are done, or all of
  them (`doneAt`);
* **in any case** — what the loop returns is what `total` rounds in a row return
  (`loop_value`);
* **undisturbed** — with the flag down it does return (`loop_returns`);
* **stopped** — a flag that is up at the `k`th look and not before ends it after `k`
  whole chunks (`loop_cancelled`);
* **reports** — they only grow, and the last one is 1 (`reports_increasing`,
  `reports_last`).
-/

namespace TaskFleet.Chunks

/-- How a loop ends. -/
inductive Ending (α : Type) where
  | returned (value : α)
  | cancelled
  deriving DecidableEq

/-- What is known of a loop that has ended. -/
structure Outcome (α : Type) where
  ending : Ending α
  /-- What it reported, oldest first. -/
  reported : List ℚ
  /-- The rounds behind it. -/
  rounds : ℕ
  deriving DecidableEq

def Ending.map {α β : Type} (f : α → β) : Ending α → Ending β
  | .returned value => .returned (f value)
  | .cancelled => .cancelled

def Outcome.map {α β : Type} (f : α → β) (o : Outcome α) : Outcome β :=
  { o with ending := o.ending.map f }

section

variable {α : Type} (body : α → α) (chunk total : ℕ) (flag : ℕ → Bool)

/-- The loop in front of its look `i`, with `done` rounds behind it; `none` is out of
fuel. -/
def loop : ℕ → ℕ → ℕ → α → Option (Outcome α)
  | 0, _, _, _ => none
  | fuel + 1, i, done, x =>
      if done < total then
        if flag i then some ⟨.cancelled, [], done⟩
        else
          let step := min chunk (total - done)
          (loop fuel (i + 1) (done + step) (body^[step] x)).map fun o =>
            { o with reported := min 1 (((done + step : ℕ) : ℚ) / total) :: o.reported }
      else some ⟨.returned x, [], done⟩

/-- The rounds behind the loop at look `i`. -/
def doneAt (i : ℕ) : ℕ := min (i * chunk) total

/-- The reports behind the first `n` chunks. -/
def reports (n : ℕ) : List ℚ := (List.range n).map fun j => (doneAt chunk total (j + 1) : ℚ) / total

variable {body chunk total flag}

theorem doneAt_le (i : ℕ) : doneAt chunk total i ≤ total := min_le_right _ _

/-- One chunk further. -/
theorem doneAt_succ (i : ℕ) :
    doneAt chunk total i + min chunk (total - doneAt chunk total i) =
      doneAt chunk total (i + 1) := by
  unfold doneAt
  rw [Nat.succ_mul]
  omega

/-- Short of the end every chunk was a whole one. -/
theorem doneAt_of_lt {i : ℕ} (h : doneAt chunk total i < total) :
    doneAt chunk total i = i * chunk := by
  unfold doneAt at h ⊢
  omega

/-- With a chunk of at least one round, as many chunks as rounds are enough. -/
theorem doneAt_of_le {i : ℕ} (hchunk : 1 ≤ chunk) (h : total ≤ i) :
    doneAt chunk total i = total := by
  have hle : i * 1 ≤ i * chunk := Nat.mul_le_mul_left i hchunk
  unfold doneAt
  omega

theorem doneAt_mono {i j : ℕ} (h : i ≤ j) : doneAt chunk total i ≤ doneAt chunk total j :=
  min_le_min_right total (Nat.mul_le_mul_right chunk h)

theorem doneAt_lt {i j : ℕ} (hchunk : 1 ≤ chunk) (h : i < j)
    (hopen : doneAt chunk total i < total) :
    doneAt chunk total i < doneAt chunk total j := by
  refine lt_of_lt_of_le ?_ (doneAt_mono h)
  rw [← doneAt_succ]
  omega

/-! ## The reports -/

theorem reports_succ (n : ℕ) : reports chunk total (n + 1) =
    reports chunk total n ++ [(doneAt chunk total (n + 1) : ℚ) / total] := by
  simp [reports, List.range_succ]

/-- A report is the part that is done; it is never cut. -/
theorem report_eq (i : ℕ) :
    min 1 ((doneAt chunk total i : ℚ) / total) = (doneAt chunk total i : ℚ) / total := by
  refine min_eq_right (div_le_one_of_le₀ ?_ (Nat.cast_nonneg total))
  exact_mod_cast doneAt_le i

/-- **Reports only grow**, as long as there was something to do in front of each chunk. -/
theorem reports_increasing {n : ℕ} (hchunk : 1 ≤ chunk)
    (hopen : ∀ j < n, doneAt chunk total j < total) :
    (reports chunk total n).Pairwise (· < ·) := by
  rw [reports, List.pairwise_map]
  refine List.pairwise_lt_range.imp_of_mem fun {i j} _ hj hij => ?_
  have hnext : doneAt chunk total j < total := hopen j (List.mem_range.mp hj)
  have hpos : (0 : ℚ) < total := by exact_mod_cast Nat.zero_lt_of_lt hnext
  have hbefore : doneAt chunk total (i + 1) < total := (doneAt_mono hij).trans_lt hnext
  have hlt : doneAt chunk total (i + 1) < doneAt chunk total (j + 1) :=
    doneAt_lt hchunk (Nat.succ_lt_succ hij) hbefore
  exact div_lt_div_of_pos_right (by exact_mod_cast hlt) hpos

/-- A report lies above 0, and not above 1. -/
theorem reports_mem {n : ℕ} (hchunk : 1 ≤ chunk) (htotal : 0 < total) :
    ∀ r ∈ reports chunk total n, 0 < r ∧ r ≤ 1 := by
  intro r hr
  obtain ⟨j, -, rfl⟩ := List.mem_map.mp hr
  have hpos : (0 : ℚ) < total := by exact_mod_cast htotal
  have hzero : doneAt chunk total 0 = 0 := by simp [doneAt]
  have hdone : 0 < doneAt chunk total (j + 1) :=
    hzero.symm.trans_lt (doneAt_lt hchunk (Nat.succ_pos j) (hzero.trans_lt htotal))
  exact ⟨div_pos (by exact_mod_cast hdone) hpos,
    (report_eq (j + 1)).symm.trans_le (min_le_left _ _)⟩

/-- **The last report is 1**, when nothing is left to do. -/
theorem reports_last {n : ℕ} (htotal : 0 < total) (hend : doneAt chunk total n = total) :
    (reports chunk total n).getLast? = some 1 := by
  have hpos : (total : ℚ) ≠ 0 := by exact_mod_cast htotal.ne'
  cases n with
  | zero =>
      have hzero : doneAt chunk total 0 = 0 := by simp [doneAt]
      omega
  | succ n => rw [reports_succ, List.getLast?_append, List.getLast?_singleton, hend, div_self hpos,
      Option.some_or]

/-! ## The loop -/

/-- **A look and a chunk.** -/
theorem loop_chunk (fuel : ℕ) {i : ℕ} (x : α) (hopen : doneAt chunk total i < total)
    (hflag : flag i = false) :
    loop body chunk total flag (fuel + 1) i (doneAt chunk total i)
        (body^[doneAt chunk total i] x) =
      (loop body chunk total flag fuel (i + 1) (doneAt chunk total (i + 1))
        (body^[doneAt chunk total (i + 1)] x)).map fun o =>
          { o with
            reported := (doneAt chunk total (i + 1) : ℚ) / total :: o.reported } := by
  have hvalue : body^[min chunk (total - doneAt chunk total i)] (body^[doneAt chunk total i] x) =
      body^[doneAt chunk total (i + 1)] x := by
    rw [← Function.iterate_add_apply, Nat.add_comm, doneAt_succ]
  rw [loop, if_pos hopen, if_neg (by simp [hflag])]
  dsimp only
  rw [hvalue, doneAt_succ, report_eq]

/-- As long as the flag stays down, the loop goes from one chunk to the next. -/
theorem loop_chunks (fuel n : ℕ) (x : α) (hopen : ∀ j < n, doneAt chunk total j < total)
    (hflag : ∀ j < n, flag j = false) :
    loop body chunk total flag (n + fuel) 0 0 x =
      (loop body chunk total flag fuel n (doneAt chunk total n)
        (body^[doneAt chunk total n] x)).map fun o =>
          { o with reported := reports chunk total n ++ o.reported } := by
  induction n generalizing fuel with
  | zero =>
      have hzero : doneAt chunk total 0 = 0 := by simp [doneAt]
      rw [hzero, Function.iterate_zero_apply, Nat.zero_add]
      cases loop body chunk total flag fuel 0 0 x <;> rfl
  | succ n ih =>
      have hrun := ih (fuel + 1) (fun j hj => hopen j (Nat.lt_succ_of_lt hj)) fun j hj =>
        hflag j (Nat.lt_succ_of_lt hj)
      rw [loop_chunk fuel x (hopen n (Nat.lt_succ_self n)) (hflag n (Nat.lt_succ_self n))] at hrun
      rw [show n + 1 + fuel = n + (fuel + 1) by omega, hrun, Option.map_map, reports_succ]
      simp only [Function.comp_def, List.append_assoc, List.singleton_append]

/-- **Whatever the flag does**, a loop that returns gives what all rounds in a row give. -/
theorem loop_value (fuel : ℕ) : ∀ {i done : ℕ} {x value : α} {reported : List ℚ} {rounds : ℕ},
    loop body chunk total flag fuel i done x = some ⟨.returned value, reported, rounds⟩ →
    value = body^[total - done] x := by
  induction fuel with
  | zero =>
      intro i done x value reported rounds h
      cases h
  | succ fuel ih =>
      intro i done x value reported rounds h
      rw [loop] at h
      split_ifs at h with hopen hflag
      · cases h
      · obtain ⟨o, hrest, ho⟩ := Option.map_eq_some_iff.mp h
        obtain ⟨hending, -⟩ := Outcome.mk.inj ho
        have hreturned : o = ⟨.returned value, o.reported, o.rounds⟩ := by
          rw [← hending]
        rw [ih (hrest.trans (congrArg some hreturned)), ← Function.iterate_add_apply]
        congr 1
        omega
      · cases h
        rw [show total - done = 0 by omega]
        rfl

/-- **Undisturbed.** With the flag down wherever there is something to do, there is a
number of chunks after which the loop returns, and it returns what all rounds in a row
return. -/
theorem loop_returns (body : α → α) (hchunk : 1 ≤ chunk) (x : α)
    (hflag : ∀ i, i * chunk < total → flag i = false) :
    ∃ n, doneAt chunk total n = total ∧ (∀ j < n, doneAt chunk total j < total) ∧
      ∀ fuel, n < fuel → loop body chunk total flag fuel 0 0 x =
        some ⟨.returned (body^[total] x), reports chunk total n, total⟩ := by
  have hexists : ∃ n, doneAt chunk total n = total := ⟨total, doneAt_of_le hchunk le_rfl⟩
  obtain ⟨n, hend, hfirst⟩ : ∃ n, doneAt chunk total n = total ∧
      ∀ j < n, doneAt chunk total j ≠ total :=
    ⟨Nat.find hexists, Nat.find_spec hexists, fun j hj => Nat.find_min hexists hj⟩
  have hopen : ∀ j < n, doneAt chunk total j < total := fun j hj =>
      (doneAt_le j).lt_of_ne (hfirst j hj)
  refine ⟨n, hend, hopen, fun fuel hfuel => ?_⟩
  obtain ⟨m, rfl⟩ := Nat.exists_eq_add_of_lt hfuel
  have hdown : ∀ j < n, flag j = false := fun j hj =>
    hflag j ((doneAt_of_lt (hopen j hj)).symm.trans_lt (hopen j hj))
  rw [Nat.add_assoc, loop_chunks (m + 1) n x hopen hdown, hend, loop, if_neg (lt_irrefl total)]
  simp

/-- **Stopped.** The flag is up at look `k`, and was down at those before; there was
still something to do. -/
theorem loop_cancelled (x : α) {k : ℕ} (hopen : k * chunk < total) (hup : flag k = true)
    (hdown : ∀ j < k, flag j = false) {fuel : ℕ} (hfuel : k < fuel) :
    loop body chunk total flag fuel 0 0 x =
      some ⟨.cancelled, reports chunk total k, k * chunk⟩ := by
  have hbefore : ∀ j ≤ k, doneAt chunk total j < total := by
    intro j hj
    have hle : j * chunk ≤ k * chunk := Nat.mul_le_mul_right chunk hj
    unfold doneAt
    omega
  obtain ⟨m, rfl⟩ := Nat.exists_eq_add_of_lt hfuel
  rw [Nat.add_assoc, loop_chunks (m + 1) k x (fun j hj => hbefore j hj.le) hdown,
    doneAt_of_lt (hbefore k le_rfl), loop, if_pos hopen, if_pos hup]
  simp

end

end TaskFleet.Chunks
