import TaskFleet.Logic.CancelFlow
import TaskFleet.Theorems.AttemptAgreement

/-!
# Whom a cancel stops

`_handle_cancel` finds the execution by the task's id, and `handle_capacity` the credit.
Neither can tell one attempt from the next, and a task may come back to the worker that
lost it: a cancel that comes late stops the attempt after its own, and the `capacity` that
answers it gives that attempt's credit back (`late_cancel_stops_successor`). "All that is
saved is the CPU of an execution whose answer nobody can accept" is so as long as nothing
of an earlier attempt is left when a later one is taken (`cancels_on_target`).
-/

namespace TaskFleet.Model

open Py

namespace Net

/-- Whatever a cancel has met is of the attempt it was issued for, or of an earlier one. -/
structure OnTarget (n : Net) : Prop where
  stopped : ∀ s ∈ n.stopped, s.struck ≤ s.issuedFor
  released : ∀ s ∈ n.released, s.struck ≤ s.issuedFor

/-- **The condition.** Where the worker accepts an assignment, and where the session
credits it, no cancel of the task that was issued for an earlier attempt is pending. -/
def InTurn (x : Setting) (n : Net) (l : NetLabel) : Prop :=
  ∀ task ∈ n.taking x l, ∀ i ∈ n.pending task.id, task.attemptCount ≤ i

instance (x : Setting) (n : Net) (l : NetLabel) : Decidable (n.InTurn x l) :=
  inferInstanceAs (Decidable
    (∀ task ∈ n.taking x l, ∀ i ∈ n.pending task.id, task.attemptCount ≤ i))

variable {x : Setting} {n n' : Net} {l : NetLabel}

/-- **What is entrusted is not ahead of what is pending.** -/
theorem Reachable.inTurn (h : ((net x).guarded (InTurn x)).Reachable n) {t : Uuid} {i j : ℕ}
    (hi : i ∈ n.pending t) (hj : n.Entrusted t j) : j ≤ i := by
  refine h.ordered (fun n t i => i ∈ n.pending t) Entrusted ?_ ?_ ?_ t i j hi hj
  · rintro _ ⟨f, -, rfl⟩ t i hi
    cases hi
  · intro n l n' hreach hstep t i hi
    have hnet := hreach.of_guarded
    have htidy := Reachable.tidy hnet
    have hmove := step_cases hstep.1
    rcases hmove.pending htidy (Reachable.fleet hnet) hi
      with hold | ⟨⟨now, op, rfl⟩, row, hrow, hid, rfl⟩
    · exact .inl hold
    -- the row was on this attempt, and no entrusted one was ahead of the row
    · refine .inr fun j hj => ?_
      rcases hmove.entrusted htidy (Reachable.fleet hnet) hj with hold | ⟨task, htask, -⟩
      · obtain ⟨row', hrow', hid', hle⟩ := htidy.entrusted t j hold
        rwa [Table.eq_of_key hrow' hrow (hid'.trans hid.symm)] at hle
      · cases htask
  · intro n l n' hreach hstep t j hj
    have hnet := hreach.of_guarded
    have htidy := Reachable.tidy hnet
    have hmove := step_cases hstep.1
    rcases hmove.entrusted htidy (Reachable.fleet hnet) hj with hold | htakes
    · exact .inl hold
    · refine .inr fun i hi => ?_
      obtain ⟨task, htask, rfl, rfl⟩ := htakes
      rcases hmove.pending htidy (Reachable.fleet hnet) hi with hold | ⟨⟨now, op, rfl⟩, -⟩
      · exact hstep.2 task htask i hold
      · cases htask

/-- An execution that stops for a cancel was accepted for no later attempt. -/
theorem struck_of_stops (hordered : ∀ {t i j}, i ∈ n.pending t → n.Entrusted t j → j ≤ i)
    {taskId : Uuid} {f : Fleet}
    (hs : Fleet.Step x n.fleet (.finish taskId .cancelled) f) {s : Strike}
    (h : s ∈ n.stops taskId) : s.struck ≤ s.issuedFor := by
  cases hs with
  | @finish _ _ r _ hget hended hfinish =>
      simp only [stops, hget, List.mem_flatMap, List.mem_map, mem_attemptsOf] at h
      obtain ⟨i, hi, j, hj, rfl⟩ := h
      obtain ⟨hr, hid⟩ := Table.get?_eq_some_iff.mp hget
      have hunsettled : n.fleet.unsettled taskId r.idempotencyToken = true :=
        Fleet.unsettled_iff.mpr (.inl ⟨r, hr, hid, rfl, hended⟩)
      exact hordered (mem_pending.mpr (.inr ⟨_, hi, hunsettled⟩)) (.accepted hr hid hj)

/-- A credit that its `capacity` gives back is of no later attempt. -/
theorem struck_of_releases (hordered : ∀ {t i j}, i ∈ n.pending t → n.Entrusted t j → j ≤ i)
    {s : Strike} (h : s ∈ n.releases) : s.struck ≤ s.issuedFor := by
  unfold releases at h
  split at h
  · next session taskId execution rest hsession hm =>
      split at h
      · next hkey =>
          obtain ⟨i, hi, rfl⟩ := List.mem_map.mp h
          have hcapacity : .capacity taskId execution ∈ n.fleet.toCoordinator :=
              hm ▸ List.mem_cons_self
          have hunsettled := Fleet.unsettled_iff.mpr (.inr hcapacity)
          exact hordered (mem_pending.mpr (.inr ⟨_, mem_attemptsOf.mp hi, hunsettled⟩))
            (.credited hsession (Dict.contains_iff.mp hkey))
      · cases h
  · cases h

/-- **A cancel hits only the attempt it was issued for.** In every run whose steps all
meet the condition, whatever the delays: no cancel stops an execution that the worker
accepted for a later attempt, and no `capacity` of an execution that a cancel stopped
gives back the credit of one. -/
theorem cancels_on_target {ls : List NetLabel} (h : ((net x).guarded (InTurn x)).Run ls n) :
    n.OnTarget := by
  refine h.reachable.invariant (P := OnTarget) ?_ ?_
  · rintro _ ⟨f, -, rfl⟩
    constructor
    · intro s hs
      cases hs
    · intro s hs
      cases hs
  · intro n l n' hreach hn hstep
    have hordered : ∀ {t i j}, i ∈ n.pending t → n.Entrusted t j → j ≤ i :=
      fun hi hj => Reachable.inTurn hreach hi hj
    cases step_cases hstep.1 with
    | fleet hfleet =>
        constructor
        · intro s hs
          rcases stopped_record hs with hold | ⟨taskId, rfl, hnew⟩
          · exact hn.stopped s hold
          · exact struck_of_stops hordered (Fleet.step_cases hfleet) hnew
        · intro s hs
          rcases released_record hs with hold | hnew
          · exact hn.released s hold
          · exact struck_of_releases hordered hnew
    | publish => exact ⟨hn.stopped, hn.released⟩
    | deliver => exact ⟨hn.stopped, hn.released⟩
    | lose => exact ⟨hn.stopped, hn.released⟩

end Net

namespace Demo

/-- The cancel of the first attempt is published, forwarded and read, and the execution
stops for it. -/
def cancelRead (now : Seconds) : List NetLabel :=
  [.publish 0, .deliver, .fleet (.workerRead otherToken), .fleet (.finish task .cancelled),
    .fleet (.coordRead now false resultId)]

/-- The task is taken back from the worker that executes it. -/
def sweptUp : List NetLabel := (executing ++ [swept 70]).map .fleet

/-- The task comes back to the same worker, which starts it. -/
def restarted : List NetLabel :=
  (delivered 200 ++ [Label.workerRead thirdToken, .coordRead 201 false resultId,
    .coordRead 201 false resultId]).map .fleet

/-- The first execution returns all the same, and its result is answered. -/
def returnedLate : List NetLabel :=
  [Label.finish task returned, .coordRead 71 false resultId, .conclude, .answer,
    .workerRead thirdToken, .release task].map .fleet

/-- The cancel is on its way until the task is being executed again. -/
def lateCancel : List NetLabel := sweptUp ++ (returnedLate ++ restarted ++ cancelRead 202)

/-- The cancel has done its work before the task comes back. -/
def promptCancel : List NetLabel :=
  sweptUp ++ (cancelRead 72 ++ NetLabel.fleet (.release task) :: restarted)

/-- A run that starts out with the task being taken back, and is swept no more. -/
theorem drawn_sweptUp {ls : List NetLabel} (h : (ls.filterMap NetLabel.fleet?).all fun
    | .environment _ (.reclaim _ _ _) => false
    | _ => true) : ∀ l ∈ sweptUp ++ ls, Net.Drawn l := by
  refine Net.drawn_of_fleet ?_
  rw [List.filterMap_append]
  have hswept : sweptUp.filterMap NetLabel.fleet? = executing ++ [swept 70] := rfl
  rw [hswept, List.append_assoc]
  exact drawn_swept (Fleet.drawn_of_noReclaim rfl) (Fleet.drawn_of_noReclaim h)

end Demo

/-- The cancel stops the attempt it was issued for, and the worker accepts the next. -/
theorem cancels_on_target_prompt : ∃ n, ((net Demo.setting).guarded (Net.InTurn Demo.setting)).Run
      Demo.promptCancel n ∧ n.stopped = [⟨Demo.task, 0, 0⟩] ∧ n.released = [⟨Demo.task, 0, 0⟩] ∧
    (Demo.thirdToken, 1) ∈ n.accepted ∧ n.OnTarget := by
  have hplayed : ((Net.play Demo.setting (Net.InTurn Demo.setting)
      (.initial (.initial Demo.setting .empty)) Demo.promptCancel).map fun n =>
        decide (n.stopped = [⟨Demo.task, 0, 0⟩]) && decide (n.released = [⟨Demo.task, 0, 0⟩]) &&
          decide ((Demo.thirdToken, 1) ∈ n.accepted)) = some true := by
    decide +kernel
  obtain ⟨n, hplay, hfacts⟩ := Option.map_eq_some_iff.mp hplayed
  simp only [Bool.and_eq_true, decide_eq_true_eq] at hfacts
  obtain ⟨⟨hstopped, hreleased⟩, haccepted⟩ := hfacts
  have hrun := Net.play_run (Demo.drawn_sweptUp rfl) hplay
  exact ⟨n, hrun, hstopped, hreleased, haccepted, Net.cancels_on_target hrun⟩

/-- The cancel of attempt 0 stops the execution of attempt 1, and its `capacity` gives
back the credit of attempt 1. -/
theorem late_cancel_stops_successor : ∃ n, (net Demo.setting).Run Demo.lateCancel n ∧
    n.stopped = [⟨Demo.task, 0, 1⟩] ∧ n.released = [⟨Demo.task, 0, 1⟩] ∧ ¬ n.OnTarget := by
  have hplayed : ((Net.play Demo.setting (fun _ _ => True)
      (.initial (.initial Demo.setting .empty)) Demo.lateCancel).map fun n =>
        decide (n.stopped = [⟨Demo.task, 0, 1⟩]) && decide (n.released = [⟨Demo.task, 0, 1⟩])) =
      some true := by
    decide +kernel
  obtain ⟨n, hplay, hfacts⟩ := Option.map_eq_some_iff.mp hplayed
  simp only [Bool.and_eq_true, decide_eq_true_eq] at hfacts
  obtain ⟨hstopped, hreleased⟩ := hfacts
  refine ⟨n, (Net.play_run (Demo.drawn_sweptUp rfl) hplay).of_guarded, hstopped,
    hreleased, fun h => ?_⟩
  have hle := h.stopped ⟨Demo.task, 0, 1⟩ (by rw [hstopped]; exact List.mem_cons_self)
  exact absurd hle (by decide)

end TaskFleet.Model
