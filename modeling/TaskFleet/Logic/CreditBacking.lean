import TaskFleet.Logic.ResultFlow
import TaskFleet.Logic.SessionCredits

/-!
# What backs a credit

A credit comes back with a message, so each credit in use needs something that
will still send one: a keyed credit a frame, a refusal, a running execution or
a report of its task (`Carried`), a counted credit a declared execution that
runs, whose report is on its way, or whose result is pending (`Live`).

`KeepsCredits` is the condition under which no step loses the last of these
without releasing the credit. The worker's half of the steps is here: reading
a frame and ending an execution carry on what they found (`Carries`).
-/

namespace TaskFleet.Model

open Py

/-- The task a frame hands out. -/
def ToWorker.assigns : ToWorker → Option String
  | .taskAssign _ task => some task.id.str
  | _ => none

/-- The task a refusal gives back at once. -/
def ToCoordinator.refuses : ToCoordinator → Option String
  | .taskAck taskId false reasonCode =>
      if reasonCode = refuseAtCapacity then none else some taskId.str
  | _ => none

/-- The refusal that gives nothing back. -/
def ToCoordinator.saturates : ToCoordinator → Bool
  | .taskAck _ accepted reasonCode => !accepted && reasonCode == refuseAtCapacity
  | _ => false

/-- The task and the execution a report ends. -/
def ToCoordinator.settles : ToCoordinator → Option (String × Token)
  | .capacity taskId execution => some (taskId.str, execution)
  | .taskFailed taskId _ _ execution => some (taskId.str, execution)
  | .taskResult result => some (result.taskId, result.idempotencyToken)
  | _ => none

/-- The same, of a report the database has answered for. -/
def Handling.settles : Handling → Option (String × Token)
  | .failed taskId execution _ => some (taskId.str, execution)
  | .result envelope _ => some (envelope.taskId, envelope.idempotencyToken)
  | _ => none

/-- The read loop has nothing in hand. -/
def Handling.isIdle : Handling → Bool
  | .idle => true
  | _ => false

namespace Fleet

/-- The reports the session has not handled to the end. -/
def inTransit (f : Fleet) : List (String × Token) :=
  f.handling.settles.toList ++ f.toCoordinator.filterMap ToCoordinator.settles

/-- Something of the task will still give its credit back. -/
def Carried (f : Fleet) (t : String) : Prop :=
  (∃ m ∈ f.toWorker, m.assigns = some t) ∨ (∃ m ∈ f.toCoordinator, m.refuses = some t) ∨
    (∃ p ∈ f.inTransit, p.1 = t) ∨
    (f.link = .up ∧ ∃ r ∈ f.runner.running.rows, r.taskId.str = t ∧ r.ended = false)

/-- The execution will still report. -/
def Live (f : Fleet) (k : Token) : Prop :=
  (∃ r ∈ f.runner.running.rows, r.idempotencyToken = k ∧ r.ended = false) ∨
    (∃ p ∈ f.inTransit, p.2 = k) ∨
    (∃ e ∈ f.runner.pendingResults.rows, e.2.idempotencyToken = k)

/-- The session waits for a report of the execution, and none is on its way. -/
def Waiting (f : Fleet) (k : Token) : Prop :=
  k ∈ f.declared \ f.reported ∧ ∀ p ∈ f.inTransit, p.2 ≠ k

instance (f : Fleet) (t : String) : Decidable (f.Carried t) :=
  inferInstanceAs (Decidable (_ ∨ _ ∨ _ ∨ _ ∧ _))

instance (f : Fleet) (k : Token) : Decidable (f.Waiting k) := inferInstanceAs (Decidable (_ ∧ _))

/-- The condition on a frame the worker is about to read: no assignment is
refused for lack of a slot, none is ignored as a duplicate of an execution that
has reported already, and no answer drops a result the session waits for. -/
def ReadKeeps (x : Setting) (f : Fleet) : ToWorker → Prop
  | .taskAssign _ task =>
      f.runner.admission x.worker task.id task.taskType ≠ .atCapacity ∧
        (f.runner.admission x.worker task.id task.taskType = .duplicate →
          (∃ r ∈ f.runner.running.rows, r.taskId = task.id ∧ r.ended = false) ∨
            ∃ p ∈ f.inTransit, p.1 = task.id.str)
  | .taskResultAck ack _ =>
      ∀ e ∈ f.runner.pendingResults.rows, e.1 = ack.taskId → ¬ f.Waiting e.2.idempotencyToken
  | _ => True

instance (x : Setting) (f : Fleet) : DecidablePred (f.ReadKeeps x)
  | .taskAssign _ _ => inferInstanceAs (Decidable (_ ∧ (_ → _ ∨ _)))
  | .taskResultAck _ _ => inferInstanceAs (Decidable (∀ e ∈ f.runner.pendingResults.rows, _ → ¬ _))
  | .helloAck _ | .taskCancel _ => inferInstanceAs (Decidable True)

/-- The condition on an execution that ends: a failure or a cancel not while
`hello` is out, and a result pushes none out that the session waits for. -/
def EndKeeps (x : Setting) (f : Fleet) (taskId : Uuid) : Ending → Prop
  | .returned _ _ => ∀ e ∈ f.runner.pendingResults.rows,
      (e.1 ∉ (f.runner.makeRoom x.worker.maxPendingResults).keys ∨ e.1 = taskId.str) →
        ¬ f.Waiting e.2.idempotencyToken
  | _ => f.link ≠ .greeting

instance (x : Setting) (f : Fleet) (taskId : Uuid) : DecidablePred (f.EndKeeps x taskId)
  | .returned _ _ => inferInstanceAs (Decidable (∀ e ∈ f.runner.pendingResults.rows, _ ∨ _ → ¬ _))
  | .raised _ | .cancelled => inferInstanceAs (Decidable (f.link ≠ .greeting))

/-- The condition on the message the read loop is about to handle. -/
def HandleKeeps (f : Fleet) (s : LocalSession) : ToCoordinator → Prop
  | .capacity taskId execution =>
      execution ∈ f.declared \ f.reported → taskId.str ∉ s.credited.keys
  | .taskAck taskId accepted reasonCode =>
      (ToCoordinator.taskAck taskId accepted reasonCode).refuses.isSome →
        taskId.str ∈ s.credited.keys → taskId.str ∈ s.pendingAcks.keys
  | _ => True

instance (f : Fleet) (s : LocalSession) : DecidablePred (f.HandleKeeps s)
  | .capacity _ _ => inferInstanceAs (Decidable (_ → _ ∉ s.credited.keys))
  | .taskAck _ _ _ => inferInstanceAs (Decidable (_ → _ → _))
  | .taskStarted _ | .taskProgress _ | .taskFailed _ _ _ _ | .taskResult _ =>
      inferInstanceAs (Decidable True)

/-- The condition on the message the database has just answered for: the report
of a declared execution takes a counted credit. -/
def ConcludeKeeps (f : Fleet) (s : LocalSession) : Handling → Prop
  | .failed taskId execution outcome =>
      execution ∈ f.declared \ f.reported →
        s.failureFrees taskId.str outcome = true ∧ taskId.str ∉ s.credited.keys
  | .result envelope outcome =>
      envelope.idempotencyToken ∈ f.declared \ f.reported →
        s.resultFrees envelope.taskId outcome = true ∧ envelope.taskId ∉ s.credited.keys
  | _ => True

instance (f : Fleet) (s : LocalSession) : DecidablePred (f.ConcludeKeeps s)
  | .failed _ _ _ | .result _ _ => inferInstanceAs (Decidable (_ → _ ∧ _))
  | .idle | .answering _ _ => inferInstanceAs (Decidable True)

/-- **The condition.** Besides the above: whatever is declared will report, and
a delivery is registered while something of its task is on its way. -/
def KeepsCredits (x : Setting) (f : Fleet) : Label → Prop
  | .connect => ∀ r ∈ f.runner.running.rows, r.ended = true →
      ∃ e ∈ f.runner.pendingResults.rows, e.2.idempotencyToken = r.idempotencyToken
  | .workerRead _ => ∀ m ∈ f.toWorker.head?, f.ReadKeeps x m
  | .registerDelivery => ∀ task ∈ f.assigning.head?, f.Carried task.id.str
  | .finish taskId ending => f.EndKeeps x taskId ending
  | .coordRead _ _ _ => ∀ s ∈ f.session, ∀ m ∈ f.toCoordinator.head?, f.HandleKeeps s m
  | .conclude => ∀ s ∈ f.session, f.ConcludeKeeps s f.handling
  | _ => True

instance (x : Setting) (f : Fleet) : DecidablePred (f.KeepsCredits x)
  | .connect => inferInstanceAs (Decidable (∀ r ∈ f.runner.running.rows, _ → ∃ e ∈ _, _))
  | .workerRead _ => inferInstanceAs (Decidable (∀ m ∈ f.toWorker.head?, f.ReadKeeps x m))
  | .registerDelivery =>
      inferInstanceAs (Decidable (∀ task ∈ f.assigning.head?, f.Carried task.id.str))
  | .finish taskId ending => inferInstanceAs (Decidable (f.EndKeeps x taskId ending))
  | .coordRead _ _ _ =>
      inferInstanceAs (Decidable (∀ s ∈ f.session, ∀ m ∈ f.toCoordinator.head?, f.HandleKeeps s m))
  | .conclude => inferInstanceAs (Decidable (∀ s ∈ f.session, f.ConcludeKeeps s f.handling))
  | .environment _ _ | .welcome _ | .register | .recover _ | .disconnect | .claim _ _ | .send
  | .pushCancel _ | .progress _ | .release _ | .resubmit _ | .answer =>
      inferInstanceAs (Decidable True)

/-- The session is open and nothing is left to happen: no message in flight,
nothing running, no result pending. -/
structure Quiescent (f : Fleet) : Prop where
  toWorker : f.toWorker = []
  toCoordinator : f.toCoordinator = []
  handling : f.handling = .idle
  running : f.runner.running.rows = []
  pending : f.runner.pendingResults.rows = []

theorem quiescent_iff (f : Fleet) : f.Quiescent ↔ f.toWorker.isEmpty ∧ f.toCoordinator.isEmpty ∧
    f.handling.isIdle ∧ f.runner.running.rows.isEmpty ∧ f.runner.pendingResults.rows.isEmpty := by
  have hidle : f.handling.isIdle = true ↔ f.handling = .idle := by
    cases f.handling <;> simp [Handling.isIdle]
  simp only [List.isEmpty_iff, hidle]
  exact ⟨fun h => ⟨h.toWorker, h.toCoordinator, h.handling, h.running, h.pending⟩,
    fun ⟨h₁, h₂, h₃, h₄, h₅⟩ => ⟨h₁, h₂, h₃, h₄, h₅⟩⟩

instance (f : Fleet) : Decidable f.Quiescent := decidable_of_iff' _ f.quiescent_iff

variable {x : Setting} {f f' : Fleet} {l : Label}

theorem mem_inTransit {p : String × Token} : p ∈ f.inTransit ↔
    f.handling.settles = some p ∨ ∃ m ∈ f.toCoordinator, m.settles = some p := by
  simp [inTransit]

theorem Quiescent.not_carried (h : f.Quiescent) (t : String) : ¬ f.Carried t := by
  rintro (⟨m, hm, -⟩ | ⟨m, hm, -⟩ | ⟨p, hp, -⟩ | ⟨-, r, hr, -⟩)
  · rw [h.toWorker] at hm
    cases hm
  · rw [h.toCoordinator] at hm
    cases hm
  · rw [inTransit, h.handling, h.toCoordinator] at hp
    cases hp
  · rw [h.running] at hr
    cases hr

theorem Quiescent.not_live (h : f.Quiescent) (k : Token) : ¬ f.Live k := by
  rintro (⟨r, hr, -⟩ | ⟨p, hp, -⟩ | ⟨e, he, -⟩)
  · rw [h.running] at hr
    cases hr
  · rw [inTransit, h.handling, h.toCoordinator] at hp
    cases hp
  · rw [h.pending] at he
    cases he

/-! ## What is on its way -/

/-- Nothing that backs a credit is lost, and no more is awaited than before. -/
structure Carries (f f' : Fleet) : Prop where
  carried : ∀ t, f.Carried t → f'.Carried t
  live : ∀ k ∈ f.declared \ f.reported, f.Live k → f'.Live k
  awaited : f'.declared \ f'.reported = f.declared \ f.reported

/-- Nothing at all is lost: the frames, the messages, the executions and the
results are still there. -/
structure Extends (f f' : Fleet) : Prop where
  toWorker : ∀ m ∈ f.toWorker, m.assigns.isSome → m ∈ f'.toWorker
  toCoordinator : ∀ m ∈ f.toCoordinator, m ∈ f'.toCoordinator
  handling : f'.handling.settles = f.handling.settles
  link : f.link = .up → f'.link = .up
  running : ∀ r ∈ f.runner.running, r.ended = false →
    ∃ r' ∈ f'.runner.running, SameExecution r r' ∧ r'.ended = false
  pending : ∀ e ∈ f.runner.pendingResults.rows, e ∈ f'.runner.pendingResults.rows
  awaited : f'.declared \ f'.reported = f.declared \ f.reported

theorem Extends.inTransit (h : Extends f f') {p : String × Token} (hp : p ∈ f.inTransit) :
    p ∈ f'.inTransit := by
  rcases mem_inTransit.mp hp with hhandling | ⟨m, hm, hsettles⟩
  · exact mem_inTransit.mpr (.inl (h.handling.trans hhandling))
  · exact mem_inTransit.mpr (.inr ⟨m, h.toCoordinator m hm, hsettles⟩)

theorem Extends.carries (h : Extends f f') : Carries f f' := by
  refine ⟨fun t ht => ?_, fun k _ hk => ?_, h.awaited⟩
  · rcases ht with ⟨m, hm, hassigns⟩ | ⟨m, hm, hrefuses⟩ | ⟨p, hp, hpt⟩ | ⟨hup, r, hr, hrt, hgoesOn⟩
    · exact .inl ⟨m, h.toWorker m hm (by rw [hassigns]; rfl), hassigns⟩
    · exact .inr (.inl ⟨m, h.toCoordinator m hm, hrefuses⟩)
    · exact .inr (.inr (.inl ⟨p, h.inTransit hp, hpt⟩))
    · obtain ⟨r', hr', hsame, hgoesOn'⟩ := h.running r hr hgoesOn
      exact .inr (.inr (.inr ⟨h.link hup, r', hr', hsame.1 ▸ hrt, hgoesOn'⟩))
  · rcases hk with ⟨r, hr, hrk, hgoesOn⟩ | ⟨p, hp, hpk⟩ | ⟨e, he, hek⟩
    · obtain ⟨r', hr', hsame, hgoesOn'⟩ := h.running r hr hgoesOn
      exact .inl ⟨r', hr', hsame.2.trans hrk, hgoesOn'⟩
    · exact .inr (.inl ⟨p, h.inTransit hp, hpk⟩)
    · exact .inr (.inr ⟨e, h.pending e he, hek⟩)

/-- The executions as they are. -/
theorem running_refl : ∀ r ∈ f.runner.running, r.ended = false →
    ∃ r' ∈ f.runner.running, SameExecution r r' ∧ r'.ended = false :=
  fun r hr hgoesOn => ⟨r, hr, ⟨rfl, rfl⟩, hgoesOn⟩

theorem extends_report (m : ToCoordinator) : Extends f (f.report m) :=
  ⟨fun _ hm _ => hm, fun _ hm => List.mem_append_left _ hm, rfl, id, running_refl,
    fun _ he => he, rfl⟩

/-- A frame more. -/
theorem carries_push {m : ToWorker} (hworker : f'.toWorker = f.toWorker ++ [m])
    (hcoordinator : f'.toCoordinator = f.toCoordinator)
    (hhandling : f'.handling.settles = f.handling.settles) (hlink : f'.link = f.link)
    (hrunner : f'.runner = f.runner)
    (hawaited : f'.declared \ f'.reported = f.declared \ f.reported) :
    Carries f f' := by
  refine Extends.carries ⟨fun m' hm' _ => ?_, fun m' hm' => hcoordinator ▸ hm', hhandling,
    fun hup => hlink.trans hup,
    fun r hr hgoesOn => ?_, fun e he => hrunner ▸ he, hawaited⟩
  · rw [hworker]
    exact List.mem_append_left _ hm'
  · rw [hrunner]
    exact running_refl r hr hgoesOn

/-! ## The worker reads a frame -/

/-- What the frame stood for has to be carried on. -/
theorem carries_read {m : ToWorker} {rest : List ToWorker} (hm : f.toWorker = m :: rest)
    (h : Carries { f with toWorker := rest } f') (hframe : ∀ t, m.assigns = some t → f'.Carried t) :
    Carries f f' := by
  refine ⟨fun t ht => ?_, h.live, h.awaited⟩
  rcases ht with ⟨m', hm', hassigns⟩ | hother
  · rw [hm] at hm'
    rcases List.mem_cons.mp hm' with rfl | hrest
    · exact hframe t hassigns
    · exact h.carried t (.inl ⟨m', hrest, hassigns⟩)
  · exact h.carried t (.inr hother)

/-- A report of a worker that is connected is on its way. -/
theorem mem_report (hup : f.link = .up) (m : ToCoordinator) : m ∈ (f.report m).toCoordinator := by
  refine List.mem_append_right f.toCoordinator ?_
  rw [if_pos hup]
  exact List.mem_singleton_self m

theorem assign_carries {delivery : Nat} {task : ClaimedTask} {token : Token} {rest : List ToWorker}
    (hm : f.toWorker = .taskAssign delivery task :: rest) (hup : f.link = .up)
    (hg : f.ReadKeeps x (.taskAssign delivery task)) :
    Carries f ({ f with toWorker := rest }.assign x task token) := by
  let g : Fleet := { f with toWorker := rest }
  obtain ⟨hslot, hduplicate⟩ := hg
  cases hadmission : f.runner.admission x.worker task.id task.taskType with
  | atCapacity => exact absurd hadmission hslot
  | unsupportedType =>
      have hassign : g.assign x task token =
          g.report (.taskAck task.id false refuseUnsupportedType) := by
        rw [assign, hadmission]
      rw [hassign]
      -- the refusal is on its way and will give the credit back
      refine carries_read hm (extends_report _).carries fun t ht => ?_
      exact .inr (.inl ⟨_, mem_report hup _, ht⟩)
  | duplicate =>
      have hassign : g.assign x task token = g.report (.taskAck task.id true "") := by
        rw [assign, hadmission]
      rw [hassign]
      have hext : Extends g (g.report (.taskAck task.id true "")) := extends_report _
      refine carries_read hm hext.carries fun t ht => ?_
      obtain rfl := Option.some.inj ht
      -- the execution that makes it a duplicate will report, or has
      rcases hduplicate hadmission with ⟨r, hr, hid, hgoesOn⟩ | ⟨p, hp, hpt⟩
      · exact .inr (.inr (.inr ⟨hup, r, hr, congrArg Uuid.str hid, hgoesOn⟩))
      · exact .inr (.inr (.inl ⟨p, hext.inTransit hp, hpt⟩))
  | admitted =>
      have hnone : ∀ r ∈ f.runner.running, r.taskId ≠ task.id :=
        Table.get?_eq_none_iff.mp (admission_eq_admitted hadmission)
      have hext : Extends g (g.assign x task token) := by
        simp only [assign, show g.runner = f.runner from rfl, hadmission]
        refine ⟨fun _ hm' _ => hm', fun m' hm' => ?_, rfl, id, fun r hr hgoesOn => ?_,
          fun _ he => he, rfl⟩
        · exact List.mem_append_left _ (List.mem_append_left _ hm')
        · exact ⟨r, (Table.mem_insert hnone).mpr (.inl hr), ⟨rfl, rfl⟩, hgoesOn⟩
      refine carries_read hm hext.carries fun t ht => ?_
      obtain rfl := Option.some.inj ht
      simp only [assign, hadmission]
      exact .inr (.inr (.inr ⟨hup, _, (Table.mem_insert hnone).mpr (.inr rfl), rfl, rfl⟩))

/-- An answer that drops a result drops none that is waited for. -/
theorem resultAcknowledged_carries {taskId : String}
    (hg : ∀ e ∈ f.runner.pendingResults.rows, e.1 = taskId → ¬ f.Waiting e.2.idempotencyToken) :
    Carries f { f with runner := f.runner.resultAcknowledged taskId } := by
  refine ⟨fun t ht => ht, fun k hk hlive => ?_, rfl⟩
  rcases hlive with hrunning | htransit | ⟨e, he, rfl⟩
  · exact .inl hrunning
  · exact .inr (.inl htransit)
  · by_cases hkey : e.1 = taskId
    · have hreported : ∃ p ∈ f.inTransit, p.2 = e.2.idempotencyToken := by
        by_contra hnone
        push Not at hnone
        exact hg e he hkey ⟨hk, hnone⟩
      exact .inr (.inl hreported)
    · refine .inr (.inr ⟨e, List.mem_filter.mpr ⟨he, ?_⟩, rfl⟩)
      simpa using hkey

theorem workerRead_carries {token : Token} {m : ToWorker} {rest : List ToWorker}
    (hm : f.toWorker = m :: rest) (hread : f.readable m = true) (hg : f.ReadKeeps x m) :
    Carries f ({ f with toWorker := rest }.workerRead x token m) := by
  cases m with
  | helloAck sessionEpoch =>
      refine carries_read hm (Extends.carries ?_) fun t ht => by cases ht
      exact ⟨fun _ hm' _ => hm', fun _ hm' => hm', rfl, fun _ => rfl, running_refl,
        fun _ he => he, rfl⟩
  | taskAssign delivery task => exact assign_carries hm (of_decide_eq_true hread) hg
  | taskCancel taskId =>
      refine carries_read hm (Extends.carries ?_) fun t ht => by cases ht
      refine ⟨fun _ hm' _ => hm', fun _ hm' => hm', rfl, id, fun r hr hgoesOn => ?_,
        fun _ he => he, rfl⟩
      refine ⟨_, Table.mem_updateWhere_of_mem RunningTask.setCancel_taskId hr, ?_, ?_⟩
      · split <;> exact ⟨rfl, rfl⟩
      · split <;> exact hgoesOn
  | taskResultAck ack answers =>
      refine carries_read hm ?_ fun t ht => by cases ht
      exact resultAcknowledged_carries (f := { f with toWorker := rest }) hg

/-! ## An execution ends -/

/-- The other executions go on. -/
theorem mem_endTask_of_ne {r : TaskRunner} {task t : RunningTask} (htask : task ∈ r.running)
    (ht : t ∈ r.running) (hne : t ≠ task) : t ∈ (r.endTask task.taskId).running := by
  have hin := Table.mem_updateWhere_of_mem RunningTask.setEnded_taskId ht
    (p := fun t => t.taskId = task.taskId)
  rwa [if_neg fun hid => hne (Table.eq_of_key ht htask (of_decide_eq_true hid))] at hin

/-- What is still there of the executions and the reports, once `task` ended
with the report `m`. -/
structure Ends (f f' : Fleet) (task : RunningTask) (m : ToCoordinator) : Prop where
  toWorker : f'.toWorker = f.toWorker
  toCoordinator : f'.toCoordinator = f.toCoordinator ++ if f.link = .up then [m] else []
  handling : f'.handling = f.handling
  link : f'.link = f.link
  running : f'.runner.running = (f.runner.endTask task.taskId).running
  declared : f'.declared = f.declared
  reported : f'.reported = f.reported
  settles : m.settles = some (task.taskId.str, task.idempotencyToken)

theorem Ends.inTransit {task : RunningTask} {m : ToCoordinator} (h : Ends f f' task m)
    {p : String × Token} (hp : p ∈ f.inTransit) : p ∈ f'.inTransit := by
  rcases mem_inTransit.mp hp with hhandling | ⟨m', hm', hsettles⟩
  · exact mem_inTransit.mpr (.inl (by rw [h.handling, hhandling]))
  · refine mem_inTransit.mpr (.inr ⟨m', ?_, hsettles⟩)
    rw [h.toCoordinator]
    exact List.mem_append_left _ hm'

theorem Ends.reports {task : RunningTask} {m : ToCoordinator} (h : Ends f f' task m)
    (hup : f.link = .up) : (task.taskId.str, task.idempotencyToken) ∈ f'.inTransit := by
  refine mem_inTransit.mpr (.inr ⟨m, ?_, h.settles⟩)
  rw [h.toCoordinator, if_pos hup]
  exact List.mem_append_right _ (List.mem_singleton_self m)

theorem Ends.carries {task : RunningTask} {m : ToCoordinator} (h : Ends f f' task m)
    (htask : task ∈ f.runner.running) (hlive : f'.Live task.idempotencyToken)
    (hpending : ∀ e ∈ f.runner.pendingResults.rows, e.2.idempotencyToken ∈ f.declared \ f.reported →
      f'.Live e.2.idempotencyToken) : Carries f f' := by
  have hothers : ∀ r ∈ f.runner.running, r ≠ task → r ∈ f'.runner.running := by
    intro r hr hne
    rw [h.running]
    exact mem_endTask_of_ne htask hr hne
  refine ⟨fun t ht => ?_, fun k hk hklive => ?_, by rw [h.declared, h.reported]⟩
  · rcases ht with ⟨m', hm', hassigns⟩ | ⟨m', hm', hrefuses⟩ | ⟨p, hp, hpt⟩ | ⟨hup, r,
      hr, rfl, hgoesOn⟩
    · exact .inl ⟨m', h.toWorker ▸ hm', hassigns⟩
    · refine .inr (.inl ⟨m', ?_, hrefuses⟩)
      rw [h.toCoordinator]
      exact List.mem_append_left _ hm'
    · exact .inr (.inr (.inl ⟨p, h.inTransit hp, hpt⟩))
    · by_cases heq : r = task
      · rw [heq]
        exact .inr (.inr (.inl ⟨_, h.reports hup, rfl⟩))
      · exact .inr (.inr (.inr ⟨h.link.trans hup, r, hothers r hr heq, rfl, hgoesOn⟩))
  · rcases hklive with ⟨r, hr, rfl, hgoesOn⟩ | ⟨p, hp, hpk⟩ | ⟨e, he, rfl⟩
    · by_cases heq : r = task
      · rw [heq]
        exact hlive
      · exact .inl ⟨r, hothers r hr heq, rfl, hgoesOn⟩
    · exact .inr (.inl ⟨p, h.inTransit hp, hpk⟩)
    · exact hpending e he hk

/-- A result that is recorded pushes out none that is waited for. -/
theorem recordResult_carries {task : RunningTask} {envelope : WorkerResult}
    (htask : task ∈ f.runner.running) (hid : envelope.taskId = task.taskId.str)
    (htoken : envelope.idempotencyToken = task.idempotencyToken) {cap : Nat}
    (hg : ∀ e ∈ f.runner.pendingResults.rows,
      (e.1 ∉ (f.runner.makeRoom cap).keys ∨ e.1 = task.taskId.str) →
        ¬ f.Waiting e.2.idempotencyToken) :
    Carries f ({ f with
      runner := (f.runner.endTask task.taskId).recordResult cap task.taskId.str envelope }.report
        (.taskResult envelope)) := by
  generalize hf' : ({ f with
    runner := (f.runner.endTask task.taskId).recordResult cap task.taskId.str envelope } :
      Fleet).report (.taskResult envelope) = f'
  have hends : Ends f f' task (.taskResult envelope) := by
    rw [← hf']
    exact ⟨rfl, rfl, rfl, rfl, rfl, rfl, rfl, by rw [ToCoordinator.settles, hid, htoken]⟩
  have hpending' : f'.runner.pendingResults = (f.runner.makeRoom cap).set
      task.taskId.str envelope := by
    rw [← hf']
    rfl
  have hrecorded : (task.taskId.str, envelope) ∈ f'.runner.pendingResults.rows := by
    rw [hpending', ← Dict.lookup_eq_some_iff, Dict.lookup_set, if_pos rfl]
  refine hends.carries htask (.inr (.inr ⟨_, hrecorded, htoken⟩)) fun e he hk => ?_
  -- if an entry that goes is one a credit stands for, its report is on the way
  by_cases hgone : e.1 ∉ (f.runner.makeRoom cap).keys ∨ e.1 = task.taskId.str
  · have hreported : ∃ p ∈ f.inTransit, p.2 = e.2.idempotencyToken := by
      by_contra hnone
      push Not at hnone
      exact hg e he hgone ⟨hk, hnone⟩
    obtain ⟨p, hp, hpk⟩ := hreported
    exact .inr (.inl ⟨p, hends.inTransit hp, hpk⟩)
  · obtain ⟨hkey, hne⟩ := not_or.mp hgone
    obtain ⟨v, hv⟩ := Dict.mem_keys_iff.mp (not_not.mp hkey)
    have hroom : (e.1, v) ∈ f.runner.pendingResults.rows :=
      List.mem_of_mem_drop (Dict.lookup_eq_some_iff.mp hv)
    have hsame : (e.1, v) = e := Table.eq_of_key hroom he rfl
    have hkept : e ∈ f'.runner.pendingResults.rows := by
      rw [hpending', ← hsame, ← Dict.lookup_eq_some_iff, Dict.lookup_set, if_neg hne, hv]
    exact .inr (.inr ⟨e, hkept, rfl⟩)

/-- A failure or a cancel of a worker that is connected is reported. -/
theorem endTask_carries {task : RunningTask} (htask : task ∈ f.runner.running) (hup : f.link = .up)
    {m : ToCoordinator} (hm : m.settles = some (task.taskId.str, task.idempotencyToken)) :
    Carries f ({ f with runner := f.runner.endTask task.taskId }.report m) := by
  have hends : Ends f ({ f with runner := f.runner.endTask task.taskId }.report m) task m :=
    ⟨rfl, rfl, rfl, rfl, rfl, rfl, rfl, hm⟩
  refine hends.carries htask (.inr (.inl ⟨_, hends.reports hup, rfl⟩)) fun e he _ => ?_
  exact .inr (.inr ⟨e, he, rfl⟩)

theorem finish_carries {task : RunningTask} {ending : Ending} (htask : task ∈ f.runner.running)
    (hopen : f.link ≠ .down) (hg : f.EndKeeps x task.taskId ending)
    (hfinish : f.finish x task ending = some f') : Carries f f' := by
  have hup : f.link ≠ .greeting → f.link = .up := by
    intro hgreeting
    cases hlink : f.link with
    | down => exact absurd hlink hopen
    | greeting => exact absurd hlink hgreeting
    | up => rfl
  cases ending with
  | returned result duration =>
      obtain ⟨envelope, henvelope, rfl⟩ := Option.map_eq_some_iff.mp hfinish
      obtain ⟨hid, htoken, -⟩ := result?_names henvelope
      exact recordResult_carries htask hid htoken hg
  | raised errorType =>
      obtain rfl := Option.some.inj hfinish
      exact endTask_carries htask (hup hg) rfl
  | cancelled =>
      simp only [finish] at hfinish
      split at hfinish
      · obtain rfl := Option.some.inj hfinish
        exact endTask_carries htask (hup hg) rfl
      · cases hfinish

end Fleet

end TaskFleet.Model
