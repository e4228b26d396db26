import TaskFleet.Logic.FleetSteps
import TaskFleet.Logic.SessionCredits

/-!
# An honest worker is not over-committed

A message that gives a credit back names a task, and if the session holds no
key of that name it draws on the residue of `hello`. So a result that was
finished before the `hello`, and is therefore not in the residue, takes a unit
that stands for a task still running. The condition `PaidFor` says which
messages may give a credit back; in a run that meets it, every task the worker
is busy with, and every task on its way there, has a credit to itself
(`never_overcommitted`).
-/

namespace TaskFleet.Model

open Py

/-- The task a frame of a registered delivery hands out. -/
def ToWorker.handed (registered : Nat) : ToWorker → Option String
  | .taskAssign delivery task => if delivery < registered then some task.id.str else none
  | _ => none

namespace Fleet

/-- The tasks of the registered deliveries that are still on the socket. -/
def frames (f : Fleet) : Finset String :=
  (f.toWorker.filterMap (ToWorker.handed f.registered)).toFinset

/-- The tasks this session still has out: on the socket, or in an execution it
started that is not in `reported`. -/
def demand (f : Fleet) (reported : Finset Token) : Finset String :=
  f.frames ∪ (f.started.filter fun p => p.1 ∉ reported).image Prod.snd

/-- The session's credits against what is out. -/
def books (f : Fleet) (s : LocalSession) : Books String Token :=
  s.books (f.demand f.reported) (f.declared \ f.reported)

/-- The executions the session has not handled a report of. -/
def executing (f : Fleet) : List RunningTask :=
  f.runner.running.rows.filter fun r => r.idempotencyToken ∉ f.reported

/-- The tasks of those executions, and the tasks on their way to the worker. -/
def busy (f : Fleet) : Finset String :=
  f.frames ∪ (f.executing.map fun r => r.taskId.str).toFinset

/-- A report of execution `k` pays for a credit of task `t`: the execution was
declared and this is its first report, or no delivery and no execution of the
task stays out and the credit it takes is not another one's. -/
def Pays (f : Fleet) (s : LocalSession) (t : String) (k : Token) : Prop :=
  k ∈ f.declared \ f.reported ∨ t ∉ f.demand (insert k f.reported) ∧
    (t ∈ s.credited.keys ∨ t ∈ f.demand f.reported ∨ s.residualInFlight = 0)

instance (f : Fleet) (s : LocalSession) (t : String) (k : Token) : Decidable (f.Pays s t k) :=
  inferInstanceAs (Decidable (_ ∨ _ ∧ (_ ∨ _ ∨ _)))

/-- The condition on the message the read loop is about to handle. -/
def ReadPaysFor (f : Fleet) (s : LocalSession) : ToCoordinator → Prop
  | .capacity taskId execution => f.Pays s taskId.str execution
  | .taskAck taskId accepted reasonCode =>
      s.refuses taskId.str accepted reasonCode = true → taskId.str ∉ f.demand f.reported ∧
        (taskId.str ∈ s.credited.keys ∨ s.residualInFlight = 0)
  | _ => True

instance (f : Fleet) (s : LocalSession) : DecidablePred (f.ReadPaysFor s)
  | .capacity taskId execution => inferInstanceAs (Decidable (f.Pays s taskId.str execution))
  | .taskAck _ _ _ => inferInstanceAs (Decidable (_ → _ ∧ (_ ∨ _)))
  | .taskStarted _ | .taskProgress _ | .taskFailed _ _ _ _ | .taskResult _ =>
      inferInstanceAs (Decidable True)

/-- The condition on the message the database has just answered for. -/
def ConcludePaysFor (f : Fleet) (s : LocalSession) : Handling → Prop
  | .failed taskId execution outcome =>
      s.failureFrees taskId.str outcome = true → f.Pays s taskId.str execution
  | .result envelope outcome =>
      s.resultFrees envelope.taskId outcome = true →
        f.Pays s envelope.taskId envelope.idempotencyToken
  | _ => True

instance (f : Fleet) (s : LocalSession) : DecidablePred (f.ConcludePaysFor s)
  | .failed _ _ _ => inferInstanceAs (Decidable (_ → f.Pays s _ _))
  | .result _ _ => inferInstanceAs (Decidable (_ → f.Pays s _ _))
  | .idle | .answering _ _ => inferInstanceAs (Decidable True)

/-- A frame may be read: its delivery was registered. -/
def WasRegistered (f : Fleet) : ToWorker → Prop
  | .taskAssign delivery _ => delivery < f.registered
  | _ => True

instance (f : Fleet) : DecidablePred f.WasRegistered
  | .taskAssign delivery _ => inferInstanceAs (Decidable (delivery < f.registered))
  | .helloAck _ | .taskCancel _ | .taskResultAck _ _ => inferInstanceAs (Decidable True)

/-- **The condition.** The worker declares no more than the session will count;
it reads a frame after its delivery was registered; and every message that
gives a credit back pays for it. -/
def PaidFor (x : Setting) (f : Fleet) : Label → Prop
  | .connect => f.runner.tasksInFlight ≤ parseMaxConcurrent x.cfg (some x.worker.maxConcurrent)
  | .workerRead _ => ∀ m ∈ f.toWorker.head?, f.WasRegistered m
  | .coordRead _ _ _ => ∀ s ∈ f.session, ∀ m ∈ f.toCoordinator.head?, f.ReadPaysFor s m
  | .conclude => ∀ s ∈ f.session, f.ConcludePaysFor s f.handling
  | _ => True

instance (x : Setting) (f : Fleet) : DecidablePred (f.PaidFor x)
  | .connect => inferInstanceAs (Decidable (_ ≤ _))
  | .workerRead _ => inferInstanceAs (Decidable (∀ m ∈ f.toWorker.head?, f.WasRegistered m))
  | .coordRead _ _ _ =>
      inferInstanceAs (Decidable (∀ s ∈ f.session, ∀ m ∈ f.toCoordinator.head?, f.ReadPaysFor s m))
  | .conclude => inferInstanceAs (Decidable (∀ s ∈ f.session, f.ConcludePaysFor s f.handling))
  | .environment _ _ | .welcome _ | .register | .recover _ | .disconnect | .claim _ _ | .send
  | .registerDelivery | .pushCancel _ | .progress _ | .finish _ _ | .release _ | .resubmit _
  | .answer => inferInstanceAs (Decidable True)

variable {x : Setting} {f f' : Fleet} {l : Label}

/-! ## What is out -/

theorem mem_frames {t : String} : t ∈ f.frames ↔
    ∃ n task, .taskAssign n task ∈ f.toWorker ∧ n < f.registered ∧ task.id.str = t := by
  simp only [frames, List.mem_toFinset, List.mem_filterMap]
  constructor
  · rintro ⟨m, hm, hhanded⟩
    cases m with
    | taskAssign n task =>
        simp only [ToWorker.handed, Option.ite_none_right_eq_some, Option.some.injEq] at hhanded
        exact ⟨n, task, hm, hhanded⟩
    | _ => cases hhanded
  · rintro ⟨n, task, hm, hlt, rfl⟩
    exact ⟨_, hm, by simp [ToWorker.handed, hlt]⟩

theorem mem_demand {t : String} {reported : Finset Token} : t ∈ f.demand reported ↔
    t ∈ f.frames ∨ ∃ k, (k, t) ∈ f.started ∧ k ∉ reported := by
  simp [demand]

theorem demand_insert_subset (k : Token) (reported : Finset Token) :
    f.demand (insert k reported) ⊆ f.demand reported := by
  intro t ht
  rcases mem_demand.mp ht with hframe | ⟨k', hk', hnot⟩
  · exact mem_demand.mpr (.inl hframe)
  · exact mem_demand.mpr (.inr ⟨k', hk', fun h => hnot (Finset.mem_insert_of_mem h)⟩)

/-- What is out shrinks with the frames. -/
theorem demand_subset (hframes : f'.frames ⊆ f.frames) (hstarted : f'.started = f.started)
    (reported : Finset Token) : f'.demand reported ⊆ f.demand reported := by
  rw [demand, demand, hstarted]
  exact Finset.union_subset_union_left hframes

/-- A message that is no assignment adds no frame. -/
theorem frames_append {m : ToWorker} (hm : ∀ n, m.handed n = none)
    (hto : f'.toWorker = f.toWorker ++ [m]) (hreg : f'.registered = f.registered) :
    f'.frames = f.frames := by
  rw [frames, frames, hto, hreg, List.filterMap_append]
  simp [hm]

/-- Reading removes frames only. -/
theorem frames_tail {m : ToWorker} {rest : List ToWorker} (hm : f.toWorker = m :: rest)
    (hto : f'.toWorker = rest) (hreg : f'.registered = f.registered) : f'.frames ⊆ f.frames := by
  intro t ht
  obtain ⟨n, task, hmem, hlt, hid⟩ := mem_frames.mp ht
  rw [hto] at hmem
  exact mem_frames.mpr ⟨n, task, hm ▸ .tail _ hmem, hreg ▸ hlt, hid⟩

/-! ## The invariant -/

/-- While a `hello` waits for its session, the socket is fresh and the count in
it stands for every declared execution. -/
structure Greeting (x : Setting) (f : Fleet) (n : Nat) : Prop where
  session : f.session = none
  assigning : f.assigning = []
  started : f.started = ∅
  registered : f.registered = 0
  declared : f.declared.card ≤ n
  counted : n ≤ parseMaxConcurrent x.cfg (some x.worker.maxConcurrent)

/-- Every credit in need is there, and no more than the worker has slots. -/
structure Funded (x : Setting) (f : Fleet) : Prop where
  greeting : ∀ n, f.hello = some n → f.Greeting x n
  covered : ∀ s, f.session = some s → (f.books s).Covered
  capped : ∀ s, f.session = some s → s.inFlight + f.assigning.length ≤ s.maxConcurrent

/-- The credits stay as they are, and no more is out than before. -/
theorem covered_of_same {s s' : LocalSession} (h : (f.books s).Covered)
    (hcredits : s.SameCredits s')
    (hdemand : f'.demand f'.reported ⊆ f.demand f.reported)
    (hawaited : f'.declared \ f'.reported ⊆ f.declared \ f.reported) : (f'.books s').Covered := by
  refine Books.Covered.mono h ?_ ?_ hawaited hdemand
  · simp only [books, LocalSession.books, hcredits.credited]
  · exact hcredits.residual

/-- The execution `k` has reported, and a credit of `t` was given back. -/
theorem covered_of_gives {s s' : LocalSession} {t : String} {k : Token} (h : (f.books s).Covered)
    (hgives : s.Gives s' t) (hpays : f.Pays s t k) (hframes : f'.frames ⊆ f.frames)
    (hstarted : f'.started = f.started) (hdeclared : f'.declared = f.declared)
    (hreported : f'.reported = insert k f.reported) : (f'.books s').Covered := by
  have hdemand : f'.demand f'.reported ⊆ f.demand (insert k f.reported) := by
    rw [hreported]
    exact demand_subset hframes hstarted _
  have hawaited : f'.declared \ f'.reported ⊆ f.declared \ f.reported := by
    rw [hdeclared, hreported]
    exact Finset.sdiff_subset_sdiff (le_refl _) (Finset.subset_insert _ _)
  have hbooks : f'.books s' =
      ((f.books s).release t).settle (f'.demand f'.reported) (f'.declared \ f'.reported) := by
    rw [books, hgives.books, ← Books.release_settle]
    rfl
  rw [hbooks]
  refine Books.Covered.release h (hdemand.trans (demand_insert_subset _ _)) hawaited ?_
  rcases hpays with hk | ⟨hout, hcredit⟩
  · refine .inl ((Finset.ssubset_iff_of_subset hawaited).mpr ⟨k, hk, fun hmem => ?_⟩)
    rw [hreported] at hmem
    exact (Finset.mem_sdiff.mp hmem).2 (Finset.mem_insert_self _ _)
  · refine .inr ⟨fun ht => hout (hdemand ht), hcredit.imp_left fun hkey => ?_⟩
    exact List.mem_toFinset.mpr hkey

/-- The execution `k` has reported, and no credit was given back. -/
theorem covered_of_reported {s s' : LocalSession} {k : Token} (h : (f.books s).Covered)
    (hcredits : s.SameCredits s') (hframes : f'.frames ⊆ f.frames)
    (hstarted : f'.started = f.started)
    (hdeclared : f'.declared = f.declared) (hreported : f'.reported = insert k f.reported) :
    (f'.books s').Covered := by
  refine covered_of_same h hcredits ?_ ?_
  · rw [hreported]
    exact (demand_subset hframes hstarted _).trans (demand_insert_subset _ _)
  · rw [hdeclared, hreported]
    exact Finset.sdiff_subset_sdiff (le_refl _) (Finset.subset_insert _ _)

/-- A refusal gave its credit back. -/
theorem covered_of_refusal {s s' : LocalSession} {t : String} (h : (f.books s).Covered)
    (hgives : s.Gives s' t) (hout : t ∉ f.demand f.reported)
    (hcredit : t ∈ s.credited.keys ∨ s.residualInFlight = 0) : (f.books s').Covered := by
  have hbooks : f.books s' =
      ((f.books s).release t).settle (f.demand f.reported) (f.declared \ f.reported) := by
    rw [books, hgives.books, ← Books.release_settle]
    rfl
  rw [hbooks]
  refine Books.Covered.release h (le_refl _) (le_refl _) (.inr ⟨hout, ?_⟩)
  rcases hcredit with hkey | hzero
  · exact .inl (List.mem_toFinset.mpr hkey)
  · exact .inr (.inr hzero)

theorem dequeue_length_le {cfg : Config} {db db' : Db} {now : Seconds} {w : Uuid}
    {limit maxBatch : Int}
    {taskTypes : Option (List String)} {skip : List Uuid} {rows : List ClaimedTask}
    (h : dequeue cfg db now w limit maxBatch taskTypes skip = .ok (db', rows)) :
    rows.length ≤ limit.toNat := by
  obtain ⟨-, rfl⟩ := dequeue_eq_ok h
  rw [List.length_map, claimedRows, List.length_take]
  exact min_le_left _ _

theorem Funded.greeting_step (hf : f.Funded x) (h : Step x f l f') (hg : f.PaidFor x l) :
    ∀ n, f'.hello = some n → f'.Greeting x n := by
  intro n hn
  cases h with
  | connect hlink =>
      obtain rfl := Option.some.inj hn
      refine ⟨rfl, rfl, rfl, rfl, ?_, hg⟩
      exact (List.toFinset_card_le _).trans_eq (List.length_map _)
  | disconnect => cases hn
  | register => cases hn
  | recover hs =>
      have hnone := (hf.greeting n hn).session
      rw [hs] at hnone
      cases hnone
  | claim hs =>
      have hnone := (hf.greeting n hn).session
      rw [hs] at hnone
      cases hnone
  | registerDelivery hs =>
      have hnone := (hf.greeting n hn).session
      rw [hs] at hnone
      cases hnone
  | coordRead hfresh hs hidle hm hread =>
      obtain ⟨db', session', handling', reported', rfl⟩ := coordRead_frame hread
      have hnone := (hf.greeting n hn).session
      rw [hs] at hnone
      cases hnone
  | conclude hs hconclude =>
      obtain ⟨session', handling', reported', rfl⟩ := conclude_frame hconclude
      have hnone := (hf.greeting n hn).session
      rw [hs] at hnone
      cases hnone
  | send hassigning =>
      have hempty := (hf.greeting n hn).assigning
      rw [hassigning] at hempty
      cases hempty
  | finish htask hended hfinish =>
      obtain ⟨runner', m, rfl, -⟩ := finish_frame hfinish
      obtain ⟨h₁, h₂, h₃, h₄, h₅, h₆⟩ := hf.greeting n hn
      exact ⟨h₁, h₂, h₃, h₄, h₅, h₆⟩
  | @workerRead token m rest hfresh hm hread =>
      cases m with
      | taskAssign delivery task =>
          -- no delivery is registered yet, so no frame may be read
          have hlt : delivery < f.registered := hg (.taskAssign delivery task) (by rw [hm]; rfl)
          obtain ⟨link', runner', toCoordinator', minted', started', heq⟩ :=
            workerRead_frame x { f with toWorker := rest } token (.taskAssign delivery task)
          rw [heq] at hn
          rw [(hf.greeting n hn).registered] at hlt
          exact absurd hlt (Nat.not_lt_zero _)
      | _ =>
          obtain ⟨h₁, h₂, h₃, h₄, h₅, h₆⟩ := hf.greeting n hn
          exact ⟨h₁, h₂, h₃, h₄, h₅, h₆⟩
  | _ =>
      obtain ⟨h₁, h₂, h₃, h₄, h₅, h₆⟩ := hf.greeting n hn
      exact ⟨h₁, h₂, h₃, h₄, h₅, h₆⟩

/-- Nothing is out when a session opens but what was declared. -/
theorem Greeting.covered {n sessionEpoch : Nat} (h : f.Greeting x n) :
    (({ f with hello := none, session := some (opened x sessionEpoch n) } : Fleet).books
      (opened x sessionEpoch n)).Covered := by
  have hdemand : f.demand f.reported = ∅ := by
    refine Finset.eq_empty_of_forall_notMem fun t ht => ?_
    rcases mem_demand.mp ht with hframe | ⟨k, hk, -⟩
    · obtain ⟨m, task, -, hlt, -⟩ := mem_frames.mp hframe
      rw [h.registered] at hlt
      exact Nat.not_lt_zero _ hlt
    · rw [h.started] at hk
      exact absurd hk (Finset.notMem_empty _)
  have hresidual : (opened x sessionEpoch n).residualInFlight = n := by
    have hle := h.counted
    simp only [opened, LocalSession.open, parseTasksInFlight, Option.getD_some]
    omega
  have hdeclared := (Finset.card_le_card
      (Finset.sdiff_subset (s := f.declared) (t := f.reported))).trans
    h.declared
  show (f.declared \ f.reported).card + (f.demand f.reported \ _).card ≤
    (opened x sessionEpoch n).residualInFlight
  rw [hdemand, Finset.empty_sdiff, Finset.card_empty, hresidual]
  omega

theorem coordRead_covered {s : LocalSession} {now : Seconds} {due : Bool} {resultId : Uuid}
    {m : ToCoordinator} (h : (f.books s).Covered) (hs : f.session = some s)
    (hpays : f.ReadPaysFor s m)
    (hread : f.coordRead x s now due resultId m = some f') :
    ∀ s', f'.session = some s' → (f'.books s').Covered := by
  intro s' hs'
  cases m with
  | taskAck taskId accepted reasonCode =>
      obtain rfl := Option.some.inj hread
      obtain rfl := Option.some.inj hs'
      have hcredits := LocalSession.handleTaskAck_credits (s := s)
          (Uuid.str_ne_empty taskId) accepted
        reasonCode
      by_cases hrefuses : s.refuses taskId.str accepted reasonCode = true
      · rw [if_pos hrefuses] at hcredits
        obtain ⟨hout, hcredit⟩ := hpays hrefuses
        exact covered_of_refusal h hcredits hout hcredit
      · rw [if_neg hrefuses] at hcredits
        exact covered_of_same h hcredits (le_refl _) (le_refl _)
  | capacity taskId execution =>
      obtain rfl := Option.some.inj hread
      obtain rfl := Option.some.inj hs'
      exact covered_of_gives h
        (LocalSession.handleCapacity_credits (Uuid.str_ne_empty taskId)) hpays
        (le_refl _) rfl rfl rfl
  | _ =>
      obtain ⟨db', handling', rfl⟩ := coordRead_deferred rfl hread
      have hsame : s = s' := Option.some.inj (hs.symm.trans hs')
      rw [← hsame]
      exact covered_of_same h ⟨rfl, rfl, rfl⟩ (le_refl _) (le_refl _)

theorem conclude_covered {s : LocalSession} {handling : Handling} (h : (f.books s).Covered)
    (hpays : f.ConcludePaysFor s handling) (hconclude : f.conclude s handling = some f') :
    ∀ s', f'.session = some s' → (f'.books s').Covered := by
  intro s' hs'
  cases handling with
  | failed taskId execution outcome =>
      obtain rfl := Option.some.inj hconclude
      obtain rfl := Option.some.inj hs'
      have hcredits := LocalSession.finishFailed_credits (s := s) (Uuid.str_ne_empty taskId) outcome
      by_cases hfrees : s.failureFrees taskId.str outcome = true
      · rw [if_pos hfrees] at hcredits
        exact covered_of_gives h hcredits (hpays hfrees) (le_refl _) rfl rfl rfl
      · rw [if_neg hfrees] at hcredits
        exact covered_of_reported h hcredits (le_refl _) rfl rfl rfl
  | result envelope outcome =>
      obtain rfl := Option.some.inj hconclude
      obtain rfl := Option.some.inj hs'
      have hcredits := LocalSession.finishResult_credits (s := s) envelope.taskId_ne_empty outcome
      by_cases hfrees : s.resultFrees envelope.taskId outcome = true
      · rw [if_pos hfrees] at hcredits
        exact covered_of_gives h hcredits (hpays hfrees) (le_refl _) rfl rfl rfl
      · rw [if_neg hfrees] at hcredits
        exact covered_of_reported h hcredits (le_refl _) rfl rfl rfl
  | idle | answering => cases hconclude

/-- A frame that is read after its delivery was registered was out before. -/
theorem workerRead_covered {s : LocalSession} {token : Token} {m : ToWorker} {rest : List ToWorker}
    (h : (f.books s).Covered) (hm : f.toWorker = m :: rest)
    (hregistered : ∀ m ∈ f.toWorker.head?, f.WasRegistered m) :
    (({ f with toWorker := rest }.workerRead x token m).books s).Covered := by
  have hsame : s.SameCredits s := ⟨rfl, rfl, rfl⟩
  have hframes : ({ f with toWorker := rest } : Fleet).frames ⊆ f.frames := frames_tail hm rfl rfl
  have hquiet : ∀ g : Fleet, g.frames = ({ f with toWorker := rest } : Fleet).frames →
      g.started = f.started → g.declared = f.declared → g.reported = f.reported →
      (g.books s).Covered := by
    intro g hg hstarted hdeclared hreported
    refine covered_of_same h hsame ?_ (by rw [hdeclared, hreported])
    rw [hreported]
    exact demand_subset (hg ▸ hframes) hstarted _
  cases m with
  | taskAssign n task =>
      simp only [workerRead, assign]
      split
      · exact hquiet _ rfl rfl rfl rfl
      · exact hquiet _ rfl rfl rfl rfl
      · exact hquiet _ rfl rfl rfl rfl
      · -- the task was out in its frame, and is now out in its execution
        refine covered_of_same h hsame (fun t ht => ?_) (le_refl _)
        rcases mem_demand.mp ht with hframe | ⟨k, hk, hnot⟩
        · exact mem_demand.mpr (.inl (hframes hframe))
        · rcases Finset.mem_insert.mp hk with hnew | hold
          · obtain ⟨-, rfl⟩ := Prod.mk.inj hnew
            have hlt : n < f.registered := hregistered (.taskAssign n task) (by rw [hm]; rfl)
            exact mem_demand.mpr (.inl (mem_frames.mpr ⟨n, task, hm ▸ .head _, hlt, rfl⟩))
          · exact mem_demand.mpr (.inr ⟨k, hold, hnot⟩)
  | _ => exact hquiet _ rfl rfl rfl rfl

/-- A delivery that is registered has its key. -/
theorem registerDelivery_covered {s : LocalSession} {task : ClaimedTask} {rest : List ClaimedTask}
    (h : (f.books s).Covered) (hf : f.Coherent) (hassigning : f.assigning = task :: rest) :
    (({ f with
        session := some (s.deliver task.id.str task.correlationId)
        assigning := rest
        sent := false
        registered := f.registered + 1 } : Fleet).books
      (s.deliver task.id.str task.correlationId)).Covered := by
  rw [books, LocalSession.books_deliver]
  refine Books.Covered.grant h rfl rfl rfl fun t ht => ?_
  rcases mem_demand.mp ht with hframe | hstarted
  · obtain ⟨n, task', hmem, hlt, rfl⟩ := mem_frames.mp hframe
    rcases hf.frames n task' hmem with hold | ⟨-, -, hhead⟩
    · exact Finset.mem_insert_of_mem
        (mem_demand.mpr (.inl (mem_frames.mpr ⟨n, task', hmem, hold, rfl⟩)))
    · rw [hassigning] at hhead
      obtain rfl := Option.some.inj hhead
      exact Finset.mem_insert_self _ _
  · exact Finset.mem_insert_of_mem (mem_demand.mpr (.inr hstarted))

theorem Funded.covered_step (hf : f.Funded x) (hc : f.Coherent) (h : Step x f l f')
    (hg : f.PaidFor x l) : ∀ s, f'.session = some s → (f'.books s).Covered := by
  intro s hs
  -- the frames, the executions and the session stay
  have hquiet : ∀ g : Fleet, g.frames = f.frames → g.session = some s → f.session = some s →
      g.started = f.started → g.declared = f.declared → g.reported = f.reported →
      (g.books s).Covered := by
    intro g hframes _ hfs hstarted hdeclared hreported
    refine covered_of_same (hf.covered s hfs) ⟨rfl, rfl, rfl⟩ ?_ (by rw [hdeclared, hreported])
    rw [hreported]
    exact demand_subset hframes.le hstarted _
  cases h with
  | connect => cases hs
  | disconnect => cases hs
  | register hhello =>
      obtain rfl := Option.some.inj hs
      exact (hf.greeting _ hhello).covered
  | recover hfs =>
      obtain rfl := Option.some.inj hs
      exact covered_of_same (hf.covered _ hfs) ⟨rfl, rfl, rfl⟩ (le_refl _) (le_refl _)
  | welcome => exact hquiet _ (frames_append (fun _ => rfl) rfl rfl) hs hs rfl rfl rfl
  | pushCancel => exact hquiet _ (frames_append (fun _ => rfl) rfl rfl) hs hs rfl rfl rfl
  | answer => exact hquiet _ (frames_append (fun _ => rfl) rfl rfl) hs hs rfl rfl rfl
  | send =>
      -- the frame is not registered yet
      refine hquiet _ ?_ hs hs rfl rfl rfl
      rw [frames, frames, List.filterMap_append]
      simp [ToWorker.handed]
  | registerDelivery hfs hassigning =>
      obtain rfl := Option.some.inj hs
      exact registerDelivery_covered (hf.covered _ hfs) hc hassigning
  | @workerRead token m rest hfresh hm hread =>
      obtain ⟨link', runner', toCoordinator', minted', started', heq⟩ :=
        workerRead_frame x { f with toWorker := rest } token m
      rw [heq] at hs
      exact workerRead_covered (hf.covered s hs) hm hg
  | finish htask hended hfinish =>
      obtain ⟨runner', m, rfl, -⟩ := finish_frame hfinish
      exact hquiet _ rfl hs hs rfl rfl rfl
  | @coordRead now due resultId s' m rest _ hfresh hfs hidle hm hread =>
      exact coordRead_covered (f := { f with toCoordinator := rest }) (hf.covered s' hfs) hfs
        (hg s' hfs m (by rw [hm]; rfl)) hread s hs
  | conclude hfs hconclude =>
      exact conclude_covered (hf.covered _ hfs) (hg _ hfs) hconclude s hs
  | _ => exact hquiet _ rfl hs hs rfl rfl rfl

/-- The read loop raises no credit count. -/
theorem coordRead_inFlight {s : LocalSession} {now : Seconds} {due : Bool} {resultId : Uuid}
    {m : ToCoordinator} (hs : f.session = some s)
    (hread : f.coordRead x s now due resultId m = some f') :
    ∃ s', f'.session = some s' ∧ s'.inFlight ≤ s.inFlight ∧ s'.maxConcurrent = s.maxConcurrent ∧
      f'.assigning = f.assigning := by
  cases m with
  | taskAck taskId accepted reasonCode =>
      obtain rfl := Option.some.inj hread
      have hcredits := LocalSession.handleTaskAck_credits (s := s)
          (Uuid.str_ne_empty taskId) accepted
        reasonCode
      split at hcredits
      · exact ⟨_, rfl, hcredits.inFlight, hcredits.maxConcurrent, rfl⟩
      · exact ⟨_, rfl, hcredits.inFlight.le, hcredits.maxConcurrent, rfl⟩
  | capacity taskId execution =>
      obtain rfl := Option.some.inj hread
      have hgives := LocalSession.handleCapacity_credits (s := s) (Uuid.str_ne_empty taskId)
      exact ⟨_, rfl, hgives.inFlight, hgives.maxConcurrent, rfl⟩
  | _ =>
      obtain ⟨db', handling', rfl⟩ := coordRead_deferred rfl hread
      exact ⟨s, hs, le_refl _, rfl, rfl⟩

theorem conclude_inFlight {s : LocalSession} {handling : Handling}
    (hconclude : f.conclude s handling = some f') :
    ∃ s', f'.session = some s' ∧ s'.inFlight ≤ s.inFlight ∧ s'.maxConcurrent = s.maxConcurrent ∧
      f'.assigning = f.assigning := by
  cases handling with
  | failed taskId execution outcome =>
      obtain rfl := Option.some.inj hconclude
      have hcredits := LocalSession.finishFailed_credits (s := s) (Uuid.str_ne_empty taskId) outcome
      split at hcredits
      · exact ⟨_, rfl, hcredits.inFlight, hcredits.maxConcurrent, rfl⟩
      · exact ⟨_, rfl, hcredits.inFlight.le, hcredits.maxConcurrent, rfl⟩
  | result envelope outcome =>
      obtain rfl := Option.some.inj hconclude
      have hcredits := LocalSession.finishResult_credits (s := s) envelope.taskId_ne_empty outcome
      split at hcredits
      · exact ⟨_, rfl, hcredits.inFlight, hcredits.maxConcurrent, rfl⟩
      · exact ⟨_, rfl, hcredits.inFlight.le, hcredits.maxConcurrent, rfl⟩
  | idle | answering => cases hconclude

/-- A session never takes on more than its worker has slots for. -/
theorem Funded.capped_step (hf : f.Funded x) (h : Step x f l f') :
    ∀ s, f'.session = some s → s.inFlight + f'.assigning.length ≤ s.maxConcurrent := by
  intro s hs
  -- no more credits in use, and no more tasks about to be delivered
  have hless : ∀ {s₀ : LocalSession}, f.session = some s₀ → s.inFlight ≤ s₀.inFlight →
      s.maxConcurrent = s₀.maxConcurrent → f'.assigning = f.assigning →
      s.inFlight + f'.assigning.length ≤ s.maxConcurrent := by
    intro s₀ hs₀ hinFlight hmax hassigning
    have hle := hf.capped s₀ hs₀
    rw [hmax, hassigning]
    omega
  cases h with
  | connect => cases hs
  | disconnect => cases hs
  | @register n sessionEpoch hhello =>
      obtain rfl := Option.some.inj hs
      have hgreeting := hf.greeting n hhello
      show (opened x sessionEpoch n).residualInFlight + 0 + f.assigning.length ≤ _
      rw [hgreeting.assigning]
      simp only [opened, LocalSession.open, parseTasksInFlight, Option.getD_some, List.length_nil]
      omega
  | recover hfs =>
      obtain rfl := Option.some.inj hs
      exact hless hfs (le_refl _) rfl rfl
  | @claim now skip s₀ db' rows hfs hidle hfree hdequeue =>
      obtain rfl := Option.some.inj (hfs.symm.trans hs)
      have hlen := dequeue_length_le hdequeue
      simp only [LocalSession.freeCredits] at hfree hlen
      split at hfree
      · omega
      · next hopen =>
          rw [if_neg hopen] at hlen
          show s₀.inFlight + rows.length ≤ s₀.maxConcurrent
          omega
  | @registerDelivery s₀ task rest hfs hassigning =>
      obtain rfl := Option.some.inj hs
      have hle := hf.capped _ hfs
      have hone : (s₀.deliver task.id.str task.correlationId).inFlight ≤ s₀.inFlight + 1 :=
        LocalSession.inFlight_deliver_le task.correlationId
      rw [hassigning, List.length_cons] at hle
      show (s₀.deliver task.id.str task.correlationId).inFlight + rest.length ≤ s₀.maxConcurrent
      omega
  | @workerRead token m rest hfresh hm hread =>
      obtain ⟨link', runner', toCoordinator', minted', started', heq⟩ :=
        workerRead_frame x { f with toWorker := rest } token m
      rw [heq] at hs hless ⊢
      exact hless hs (le_refl _) rfl rfl
  | finish htask hended hfinish =>
      obtain ⟨runner', m, rfl, -⟩ := finish_frame hfinish
      exact hless hs (le_refl _) rfl rfl
  | @coordRead now due resultId s₀ m rest _ hfresh hfs hidle hm hread =>
      obtain ⟨s', hs', hle, hmax, hassigning⟩ := coordRead_inFlight
        (f := { f with toCoordinator := rest }) hfs hread
      obtain rfl := Option.some.inj (hs'.symm.trans hs)
      exact hless hfs hle hmax hassigning
  | conclude hfs hconclude =>
      obtain ⟨s', hs', hle, hmax, hassigning⟩ := conclude_inFlight hconclude
      obtain rfl := Option.some.inj (hs'.symm.trans hs)
      exact hless hfs hle hmax hassigning
  | _ => exact hless hs (le_refl _) rfl rfl

/-! ## Runs -/

theorem Reachable.funded (h : ((fleet x).guarded (PaidFor x)).Reachable f) : f.Funded x := by
  refine h.invariant (P := Funded x) ?_ ?_
  · rintro _ ⟨db, -, rfl⟩
    constructor
    · intro n hn
      cases hn
    · intro s hs
      cases hs
    · intro s hs
      cases hs
  · rintro f l f' ⟨ls, hrun⟩ hf ⟨hstep, hg⟩
    have hs := step_cases hstep
    have hc := Reachable.coherent hrun.of_guarded.reachable
    exact ⟨hf.greeting_step hs hg, hf.covered_step hc hs hg, hf.capped_step hs⟩

theorem nodup_executing : (f.executing.map fun r => r.taskId.str).Nodup := by
  have hkeys : (f.executing.map RunningTask.taskId).Nodup :=
    f.runner.running.nodup.sublist (List.filter_sublist.map _)
  have hstr : (f.executing.map fun r => r.taskId.str) =
      (f.executing.map RunningTask.taskId).map Uuid.str := by rw [List.map_map]; rfl
  rw [hstr]
  exact hkeys.map fun u v huv => Uuid.str_inj.mp huv

/-- An execution is busy work. -/
theorem executing_le_busy : f.executing.length ≤ f.busy.card := by
  have hcard := List.toFinset_card_of_nodup (nodup_executing (f := f))
  rw [List.length_map] at hcard
  rw [← hcard]
  exact Finset.card_le_card Finset.subset_union_right

/-- The executions of declared tokens are no more than those tokens. -/
theorem card_declared_le (hc : f.Coherent) :
    ((f.executing.filter fun r => r.idempotencyToken ∈ f.declared).map
      fun r => r.taskId.str).toFinset.card ≤ (f.declared \ f.reported).card := by
  let declared := f.executing.filter fun r => r.idempotencyToken ∈ f.declared
  have hmem : ∀ r ∈ declared, r ∈ f.runner.running ∧
      r.idempotencyToken ∈ f.declared \ f.reported := by
    intro r hr
    obtain ⟨hexecuting, hdeclared⟩ := List.mem_filter.mp hr
    obtain ⟨hrunning, hreported⟩ := List.mem_filter.mp hexecuting
    exact ⟨hrunning, Finset.mem_sdiff.mpr
      ⟨of_decide_eq_true hdeclared, of_decide_eq_true hreported⟩⟩
  have hrows : declared.Nodup :=
    ((f.runner.running.nodup.of_map _).filter _).filter _
  have htokens : (declared.map RunningTask.idempotencyToken).Nodup :=
    List.Nodup.map_on (fun r hr r' hr' => hc.distinct r (hmem r hr).1 r' (hmem r' hr').1) hrows
  calc (declared.map fun r => r.taskId.str).toFinset.card
      ≤ declared.length := (List.toFinset_card_le _).trans_eq (List.length_map _)
    _ = (declared.map RunningTask.idempotencyToken).toFinset.card := by
        rw [List.toFinset_card_of_nodup htokens, List.length_map]
    _ ≤ (f.declared \ f.reported).card := by
        refine Finset.card_le_card fun k hk => ?_
        obtain ⟨r, hr, rfl⟩ := List.mem_map.mp (List.mem_toFinset.mp hk)
        exact (hmem r hr).2

/-- Busy work is out, or was declared. -/
theorem busy_subset (hc : f.Coherent) : f.busy ⊆ f.demand f.reported ∪
    ((f.executing.filter fun r => r.idempotencyToken ∈ f.declared).map
      fun r => r.taskId.str).toFinset := by
  intro t ht
  rcases Finset.mem_union.mp ht with hframe | hexecuting
  · exact Finset.mem_union_left _ (mem_demand.mpr (.inl hframe))
  · obtain ⟨r, hr, rfl⟩ := List.mem_map.mp (List.mem_toFinset.mp hexecuting)
    obtain ⟨hrunning, hreported⟩ := List.mem_filter.mp hr
    rcases hc.known r hrunning with hdeclared | hstarted | hr'
    · refine Finset.mem_union_right _ (List.mem_toFinset.mpr (List.mem_map_of_mem ?_))
      exact List.mem_filter.mpr ⟨hr, decide_eq_true hdeclared⟩
    · exact Finset.mem_union_left _
        (mem_demand.mpr (.inr ⟨_, hstarted, of_decide_eq_true hreported⟩))
    · exact absurd hr' (of_decide_eq_true hreported)

theorem Funded.busy_le (hf : f.Funded x) (hc : f.Coherent) {s : LocalSession}
    (hs : f.session = some s) : f.busy.card ≤ s.inFlight := by
  have htotal : s.inFlight = (s.books (f.demand f.reported) (f.declared \ f.reported)).total :=
    LocalSession.inFlight_eq_total
  rw [htotal]
  exact Books.Covered.card_le (hf.covered s hs) (busy_subset hc) (card_declared_le hc)

/-- **An honest worker is never over-committed**, in a run whose every step
meets the condition. In each state it reaches with a session open:

* `in_flight` covers the executions no report of which was handled;
* the free credits and those executions are no more than `max_concurrent`;
* neither are the tasks the worker is busy with, those on their way to it, and
  those about to be delivered. -/
theorem never_overcommitted {ls : List Label} (h : ((fleet x).guarded (PaidFor x)).Run ls f)
    {s : LocalSession} (hs : f.session = some s) :
    f.executing.length ≤ s.inFlight ∧
    s.freeCredits + f.executing.length ≤ s.maxConcurrent ∧
    f.busy.card + f.assigning.length ≤ s.maxConcurrent := by
  have hf := Reachable.funded h.reachable
  have hbusy := hf.busy_le (Reachable.coherent h.of_guarded.reachable) hs
  have hexecuting := executing_le_busy (f := f)
  have hcapped := hf.capped s hs
  refine ⟨hexecuting.trans hbusy, ?_, by omega⟩
  unfold LocalSession.freeCredits
  split <;> omega

end Fleet

namespace Demo

/-- The task is enqueued, handed out and started. -/
def underWay : List Label :=
  .environment 0 (.enqueue task request) :: greeted 1 ++ delivered 1 ++ [.workerRead token]

/-- The socket is lost under the execution and opened again. -/
def reconnected : List Label :=
  underWay ++ [.disconnect, .connect, .welcome 2, .register, .workerRead otherToken]

/-- Two tasks are handed out and started; one of them returns while the socket
is down, and its result is submitted on the next one. -/
def resultBeforeHello : List Label :=
  [.environment 0 (.enqueue task request), .environment 0 (.enqueue otherTask request)] ++
    greeted 1 ++
    [.claim 1 [], .send, .registerDelivery, .send, .registerDelivery, .workerRead token,
      .workerRead otherToken, .disconnect, .finish task returned, .release task,
        .connect, .welcome 2,
      .register, .workerRead thirdToken, .resubmit task.str, .coordRead 2 false resultId, .conclude]

end Demo

/-- The session of a worker that reconnected counts the execution it declared. -/
theorem never_overcommitted_reconnected : ∃ (f : Fleet) (s : LocalSession), f.session = some s ∧
    s.inFlight = 1 ∧
    f.executing.length ≤ s.inFlight ∧ s.freeCredits + f.executing.length ≤ s.maxConcurrent ∧
    f.busy.card + f.assigning.length ≤ s.maxConcurrent := by
  have hplayed : ((Fleet.play Demo.setting (Fleet.PaidFor Demo.setting)
      (.initial Demo.setting .empty)
      Demo.reconnected).bind fun f => f.session.map fun s => s.inFlight) = some
        1 := by decide +kernel
  obtain ⟨f, hplay, hsession⟩ := Option.bind_eq_some_iff.mp hplayed
  obtain ⟨s, hs, hone⟩ := Option.map_eq_some_iff.mp hsession
  exact ⟨f, s, hs, hone,
    Fleet.never_overcommitted (Fleet.play_run (Fleet.drawn_of_noReclaim rfl) hplay) hs⟩

/-- The result that was there before the `hello` frees the credit of the
execution that is still running. -/
theorem result_before_hello_overcommits : ∃ f s, (fleet Demo.setting).Run Demo.resultBeforeHello f ∧
    f.session = some s ∧ ¬ f.executing.length ≤ s.inFlight := by
  have hplayed : ((Fleet.play Demo.setting (fun _ _ => True) (.initial Demo.setting .empty)
      Demo.resultBeforeHello).bind fun f => f.session.map fun s =>
        (f.executing.length, s.inFlight)) =
        some (1, 0) := by decide +kernel
  obtain ⟨f, hplay, hsession⟩ := Option.bind_eq_some_iff.mp hplayed
  obtain ⟨s, hs, hcounts⟩ := Option.map_eq_some_iff.mp hsession
  obtain ⟨hexecuting, hinFlight⟩ := Prod.mk.inj hcounts
  refine ⟨f, s, (Fleet.play_run (Fleet.drawn_of_noReclaim rfl) hplay).of_guarded, hs, ?_⟩
  rw [hexecuting, hinFlight]
  decide

end TaskFleet.Model
