import TaskFleet.Lib.LastWriter
import TaskFleet.Theorems.LeaseBounds

/-!
# Which policy was in force

The policy table is what its last writers left: of each column of each type, the last value
an operator submitted since the type was last reset, or what was there to begin with
(`trace_override`). So the number in force at a moment is a matter of the history up to then
(`inForce`), and this is what is reported, what every claim and every sweep applies, and what
the deadline of a live row was stamped with when it was last claimed or started, whatever was
changed since (`policies_in_force`).
-/

namespace TaskFleet.Model

open Py Sql

/-- The number submitted for a field, if one is. -/
def submittedValue (field : PolicyField) (values : List (PolicyField × Option Int)) : Option Int :=
  values.findSome? fun v => if v.1 = field then v.2 else none

/-- What an event writes to one column of one type: a number, `NULL`, or nothing. -/
def Event.policyWrite (taskType : TaskType) (field : PolicyField) (e : Event) :
    Option (Option Int) :=
  match e.op, e.reply with
  | .setPolicy name values, .policySet =>
      if TaskType.ofName name = some taskType then (submittedValue field values).map some else none
  | .clearPolicy name, .policyCleared _ =>
      if TaskType.ofName name = some taskType then some none else none
  | _, _ => none

/-- The override of a column. -/
def Db.override (db : Db) (taskType : TaskType) (field : PolicyField) : Option Int :=
  (db.policies.get? taskType).bind fun p => p.override field

/-- The override that `es` leaves of a column: that of its last writer. -/
def Db.overrideAfter (db₀ : Db) (taskType : TaskType) (field : PolicyField) (es : List Event) :
    Option Int :=
  lastWritten (Event.policyWrite taskType field) (db₀.override taskType field) es

/-- The number in force after `es`. -/
def inForce (cfg : Config) (db₀ : Db) (taskType : TaskType) (field : PolicyField)
    (es : List Event) : Int :=
  (db₀.overrideAfter taskType field es).getD (defaultPolicy cfg taskType field)

/-- The deadline of the row is that of its last stamp, under the cap in force then. -/
def Dated (cfg : Config) (db₀ : Db) (es : List Event) (t : Task) : Prop :=
  ∃ before e after, es = before ++ e :: after ∧ e.stampsDeadline t.id = true ∧
    (∀ f ∈ after, f.stampsDeadline t.id = false) ∧
    t.deadlineAt = some
      (e.now + (inForce cfg db₀ t.taskType .maxExecutionSeconds before : Seconds))

/-- The three statements that resolve a policy write what `es` left in force. -/
structure AppliesInForce (cfg : Config) (db₀ : Db) (es : List Event) (e : Event) (t t' : Task) :
    Prop where
  claimed : (∃ r ∈ e.reply.claims, r.id = t.id) →
    t'.leaseExpiresAt = some (e.now + (inForce cfg db₀ t.taskType .ackTimeoutSeconds es : Seconds))
  started : e.starts t.id = true → t'.leaseExpiresAt = some
    (min (e.now + (inForce cfg db₀ t.taskType .leaseTtlSeconds es : Seconds))
      (e.now + (inForce cfg db₀ t.taskType .maxExecutionSeconds es : Seconds)))
  reclaimed : (e.label t.id).isTaken = true →
    (t'.status = .failed ↔ inForce cfg db₀ t.taskType .maxAttempts es ≤ t.attemptCount + 1)

section

variable {cfg : Config} {schemas : Schemas} {db₀ db db' : Db} {e : Event} {es : List Event}
  {t t' : Task} {taskType : TaskType} {field : PolicyField}

/-! ## Writers -/

/-- What passes the checks of a submission is stored as it is, apart from the nulls. -/
theorem filterMapM_lookup
    {check : PolicyField × Option Int → Except PolicyError (Option (PolicyField × Int))}
    (hnull : ∀ column, check (column, none) = .ok none)
    (hvalue : ∀ column number r, check (column, some number) = .ok r → r = some (column, number))
    {values : List (PolicyField × Option Int)} {kept : List (PolicyField × Int)}
    (h : values.filterMapM check = .ok kept) :
    kept.lookup field = submittedValue field values := by
  induction values generalizing kept with
  | nil =>
      obtain rfl := Except.ok.inj h
      rfl
  | cons v values ih =>
      obtain ⟨column, value⟩ := v
      rw [List.filterMapM_cons] at h
      obtain ⟨checked, hchecked, h⟩ := bind_eq_ok h
      cases value with
      | none =>
          rw [hnull] at hchecked
          obtain rfl := Except.ok.inj hchecked
          rw [ih h]
          simp [submittedValue]
      | some number =>
          obtain rfl := hvalue column number checked hchecked
          obtain ⟨rest, hrest, h⟩ := bind_eq_ok h
          obtain rfl := Except.ok.inj h
          rw [List.lookup_cons, ih hrest]
          by_cases hcolumn : column = field
          · simp [submittedValue, hcolumn]
          · have hbeq : (field == column) = false := beq_false_of_ne (Ne.symm hcolumn)
            simp [submittedValue, hcolumn, hbeq]

theorem validatePolicy_lookup {values : List (PolicyField × Option Int)}
    {cleaned : List (PolicyField × Int)} (h : validatePolicy values = .ok cleaned) :
    cleaned.lookup field = submittedValue field values := by
  obtain ⟨kept, hkept, h⟩ := bind_eq_ok h
  split at h
  · cases h
  obtain rfl := Except.ok.inj h
  refine filterMapM_lookup (fun _ => rfl) (fun column number r hr => ?_) hkept
  simp only at hr
  split at hr
  · exact (Except.ok.inj hr).symm
  · cases hr

/-- An accepted submission leaves one row changed, which it makes if it has to. -/
theorem setPolicy_eq_ok {now : Seconds} {name : String} {values : List (PolicyField × Option Int)}
    (h : setPolicy db now name values = .ok db') :
    ∃ cleaned named, validatePolicy values = .ok cleaned ∧ TaskType.ofName name = some named ∧
      ∀ taskType, db'.policies.get? taskType = if taskType = named then
        some (((db.policies.get? named).getD ⟨named, fun _ => none, now⟩).overrideWith now cleaned)
      else db.policies.get? taskType := by
  obtain ⟨cleaned, hcleaned, h⟩ := bind_eq_ok h
  cases hname : TaskType.ofName name with
  | none =>
      rw [hname] at h
      cases h
  | some named =>
      rw [hname] at h
      refine ⟨cleaned, named, hcleaned, rfl, fun taskType => ?_⟩
      cases hget : db.policies.get? named with
      | none =>
          simp only [hget] at h
          obtain rfl := Except.ok.inj h
          by_cases htype : taskType = named
          · rw [if_pos htype, htype]
            exact Table.get?_insert_self hget
          · rw [if_neg htype]
            exact Table.get?_insert_of_ne htype
      | some p =>
          simp only [hget] at h
          obtain rfl := Except.ok.inj h
          have hkeep : ∀ p, (TaskPolicy.overrideWith now cleaned p).taskType = p.taskType :=
            fun _ => rfl
          refine (Table.get?_updateWhere hkeep).trans ?_
          by_cases htype : taskType = named
          · obtain ⟨-, hp⟩ := Table.get?_eq_some_iff.mp hget
            rw [if_pos htype, htype, hget]
            simp [hp]
          · rw [if_neg htype]
            cases hother : db.policies.get? taskType with
            | none => rfl
            | some q =>
                obtain ⟨-, hq⟩ := Table.get?_eq_some_iff.mp hother
                simp [hq, htype]

/-- What it names is replaced. -/
theorem setPolicy_override {now : Seconds} {name : String}
    {values : List (PolicyField × Option Int)} (h : setPolicy db now name values = .ok db') :
    db'.override taskType field = if TaskType.ofName name = some taskType then
      (submittedValue field values).or (db.override taskType field)
    else db.override taskType field := by
  obtain ⟨cleaned, named, hcleaned, hname, hget⟩ := setPolicy_eq_ok h
  rw [Db.override, hget, hname, ← validatePolicy_lookup hcleaned]
  by_cases htype : taskType = named
  · subst htype
    rw [if_pos rfl, if_pos rfl, Db.override]
    cases db.policies.get? taskType <;> rfl
  · rw [if_neg htype, if_neg (by simpa using Ne.symm htype)]
    rfl

/-- A reset leaves nothing. -/
theorem clearPolicy_override {name : String} {removed : Bool}
    (h : clearPolicy db name = .ok (db', removed)) : db'.override taskType field =
      if TaskType.ofName name = some taskType then none else db.override taskType field := by
  unfold clearPolicy at h
  split at h
  · cases h
  next named hname =>
    cases h
    rw [hname, Db.override, Table.get?_deleteWhere, Db.override]
    cases hget : db.policies.get? taskType with
    | none => simp
    | some p =>
        obtain ⟨-, hp⟩ := Table.get?_eq_some_iff.mp hget
        rw [Option.filter_some, hp]
        by_cases htype : taskType = named
        · simp [htype]
        · simp [htype, Ne.symm htype]

/-! ## What is in force -/

theorem markStatus_policies (cfg : Config) (db : Db) (now : Seconds) (taskId : String) (w : Uuid)
    (newStatus : TaskState) :
    (markStatus cfg db now taskId w newStatus).1.policies = db.policies := by
  unfold markStatus
  split
  · rfl
  · next i _ =>
      rcases markStatusAt_cases cfg db now i w newStatus with ⟨_, _, _, _, h⟩ | ⟨_, _, h⟩ <;> rw [h]
      rfl

theorem failTask_policies (cfg : Config) (db : Db) (now : Seconds) (taskId : String) (w : Uuid)
    (errorType correlationId : String) :
    (failTask cfg db now taskId w errorType correlationId).1.policies = db.policies := by
  have hmark := markStatus_policies cfg db now taskId w .failed
  unfold failTask
  split
  · next db' heq =>
      rw [heq] at hmark
      rcases recordExecutionFailure_eq db' now taskId w (prefixOf 100 errorType) correlationId with
        h | ⟨_, _, _, _, _, _, _, _, h⟩
      · rw [h]
        exact hmark
      · rw [h]
        exact hmark
  · rfl

theorem completeTask_policies (db : Db) (now : Seconds) (envelope : Envelope) (w resultId : Uuid) :
    (completeTask db now envelope w resultId).1.policies = db.policies := by
  rcases completeTask_cases db now envelope w resultId with hnone | ⟨row, hrow, hid, hcase⟩
  · rw [hnone]
  · generalize completeTask db now envelope w resultId = r at hcase
    cases hcase with
    | fenced =>
        rcases recordFence_eq db now row envelope w (row.assignedWorkerId = some w) with
          h | ⟨_, _, _, _, _, h⟩ <;> rw [h]
    | _ => rfl

/-- **One step** writes to a column what it is said to. -/
theorem step_override (h : (queue cfg schemas).step db e db') : db'.override taskType field =
    (e.policyWrite taskType field).getD (db.override taskType field) := by
  obtain ⟨-, happly⟩ := h
  obtain ⟨now, op, reply⟩ := e
  have hframe : db'.policies = db.policies →
      db'.override taskType field = db.override taskType field := by
    intro h
    rw [Db.override, h, Db.override]
  cases op with
  | setPolicy name values =>
      simp only [apply] at happly
      split at happly
      · next hok =>
          cases happly
          rw [setPolicy_override hok]
          simp only [Event.policyWrite]
          split
          · cases submittedValue field values <;> rfl
          · rfl
      · cases happly
        rfl
  | clearPolicy name =>
      simp only [apply] at happly
      split at happly
      · next hok =>
          cases happly
          rw [clearPolicy_override hok]
          simp only [Event.policyWrite]
          split <;> rfl
      · cases happly
        rfl
  | enqueue id req =>
      refine hframe ?_
      simp only [apply, enqueue] at happly
      split at happly
      · next hok =>
          split at hok
          · cases hok
          · cases hok; cases happly; rfl
      · cases happly; rfl
  | dequeue w limit maxBatch taskTypes skip =>
      refine hframe ?_
      simp only [apply] at happly
      split at happly
      · next hok => cases happly; rw [(dequeue_eq_ok hok).1]
      · cases happly; rfl
  | reclaim batch skip draw =>
      refine hframe ?_
      simp only [apply] at happly
      split at happly
      · next hok => cases happly; rw [(reclaimExpiredLeases_eq_ok hok).1]
      · cases happly; rfl
  | start taskId w =>
      simp only [apply, Prod.mk.injEq] at happly
      obtain ⟨rfl, rfl⟩ := happly
      exact hframe (markStatus_policies ..)
  | fail taskId w errorType correlationId =>
      simp only [apply, Prod.mk.injEq] at happly
      obtain ⟨rfl, rfl⟩ := happly
      exact hframe (failTask_policies ..)
  | complete envelope w resultId =>
      simp only [apply, Prod.mk.injEq] at happly
      obtain ⟨rfl, rfl⟩ := happly
      exact hframe (completeTask_policies ..)
  | renewLease taskId w =>
      refine hframe ?_
      simp only [apply, Prod.mk.injEq] at happly
      obtain ⟨rfl, rfl⟩ := happly
      simp only [renewLease]
      split <;> rfl
  | cancel taskId =>
      refine hframe ?_
      simp only [apply, Prod.mk.injEq] at happly
      obtain ⟨rfl, rfl⟩ := happly
      simp only [cancelQueuedTask, cancelQueuedTaskAt]
      split
      · rfl
      · split
        · rfl
        · split <;> rfl
  | purge retentionDays =>
      refine hframe ?_
      simp only [apply, Prod.mk.injEq] at happly
      obtain ⟨rfl, rfl⟩ := happly
      simp only [purgeExpiredResults]
      split <;> rfl
  | renewWorkerLeases | shortenWorkerLeases =>
      refine hframe ?_
      simp only [apply, Prod.mk.injEq] at happly
      obtain ⟨rfl, rfl⟩ := happly
      rfl

/-- **The policy table of a run** is what its last writers left. -/
theorem trace_override (h : (queue cfg schemas).Trace db₀ es db) :
    db.override taskType field = db₀.overrideAfter taskType field es :=
  h.lastWritten fun _ _ _ hs => step_override hs

/-- What a statement resolves is in force. -/
theorem policySeconds_inForce (h : (queue cfg schemas).Trace db₀ es db) :
    policySeconds db.policies field (defaultPolicy cfg taskType field) taskType =
      inForce cfg db₀ taskType field es := by
  rw [inForce, ← trace_override h]
  rfl

/-- What a step resolves against the table, it resolves to what is in force. -/
theorem step_applies (h : (queue cfg schemas).Trace db₀ es db)
    (hs : (queue cfg schemas).step db e db') (ht : t ∈ db.tasks) (ht' : t' ∈ db'.tasks)
    (hid : t'.id = t.id) : AppliesInForce cfg db₀ es e t t' := by
  obtain ⟨u, hu, hrow, hkey⟩ := (step_rows hs).forward t ht
  obtain rfl := Table.eq_of_key ht' hu (hid.trans hkey.symm)
  refine ⟨?_, ?_, ?_⟩
  · rintro ⟨r, hr, hclaimed⟩
    obtain ⟨w, hgrant⟩ := label_of_mem_claims hs hr hclaimed
    obtain ⟨v, rfl⟩ := hrow.of_grant hgrant
    rw [← policySeconds_inForce h]
    rfl
  · intro hstarts
    obtain ⟨v, hv, hvid, -, hmarked⟩ := step_started hs hstarts
    obtain rfl := Table.eq_of_key hv ht hvid
    rw [Table.eq_of_key ht' hmarked (hid.trans (Task.mark_id v).symm), ← policySeconds_inForce h,
      ← policySeconds_inForce h]
    rfl
  · intro htaken
    obtain ⟨-, draw, rfl⟩ := hrow.of_taken htaken
    rw [← policySeconds_inForce h]
    show (if t.exhausted cfg db.policies then TaskState.failed else .queued) = .failed ↔
      maxAttempts cfg db.policies t.taskType ≤ t.attemptCount + 1
    rw [← decide_eq_true_iff (p := maxAttempts cfg db.policies t.taskType ≤ t.attemptCount + 1),
      ← Task.exhausted]
    cases t.exhausted cfg db.policies <;> simp

/-- A row that is stamped is dated by the stamp. -/
theorem step_stamped (h : (queue cfg schemas).Trace db₀ es db)
    (hs : (queue cfg schemas).step db e db') (ht : t ∈ db.tasks) (ht' : t' ∈ db'.tasks)
    (hid : t'.id = t.id) (hstamp : e.stampsDeadline t.id = true) :
    Dated cfg db₀ (es ++ [e]) t' := by
  refine ⟨es, e, [], rfl, hid ▸ hstamp, by simp, ?_⟩
  rw [← policySeconds_inForce h]
  rw [Event.stampsDeadline, Bool.or_eq_true] at hstamp
  rcases hstamp with hstarts | hclaims
  · obtain ⟨u, hu, huid, -, hmarked⟩ := step_started hs hstarts
    obtain rfl := Table.eq_of_key hu ht huid
    rw [Table.eq_of_key ht' hmarked (hid.trans (Task.mark_id u).symm)]
    rfl
  · obtain ⟨r, hr, hclaimed⟩ := List.any_eq_true.mp hclaims
    obtain ⟨w, hgrant⟩ := label_of_mem_claims hs hr (of_decide_eq_true hclaimed)
    obtain ⟨u, hu, hrow, hkey⟩ := (step_rows hs).forward t ht
    obtain rfl := Table.eq_of_key ht' hu (hid.trans hkey.symm)
    obtain ⟨v, rfl⟩ := hrow.of_grant hgrant
    rfl

/-- **A deadline is that of its last stamp**, whatever was changed since. -/
theorem trace_dated (hinit : (queue cfg schemas).init db₀)
    (h : (queue cfg schemas).Trace db₀ es db) :
    ∀ t ∈ db.tasks, t.deadlineAt ≠ none → Dated cfg db₀ es t := by
  induction h with
  | nil =>
      intro t ht
      rw [hinit.1] at ht
      exact absurd ht (Table.not_mem_empty t)
  | @snoc es db db' e htrace hstep ih =>
      intro t' ht' hdeadline
      rcases (step_rows hstep).backward t' ht' with ⟨t, ht, hrow, hid⟩ | ⟨⟨_, _, _, -, -, heq⟩, -⟩
      · cases hstamp : e.stampsDeadline t.id with
        | true => exact step_stamped htrace hstep ht ht' hid hstamp
        | false =>
            rcases hrow.deadline_kept hstamp with hkept | hnone
            · obtain ⟨before, f, after, rfl, hf, hsilent, hdated⟩ := ih t ht (hkept ▸ hdeadline)
              refine ⟨before, f, after ++ [e], by simp, hid ▸ hf, fun g hg => ?_, ?_⟩
              · rcases List.mem_append.mp hg with hg | hg
                · exact hid ▸ hsilent g hg
                · rw [List.mem_singleton.mp hg, hid]
                  exact hstamp
              · rw [hkept, hrow.taskType]
                exact hdated
            · exact absurd hnone hdeadline
      · rw [heq] at hdeadline
        exact absurd rfl hdeadline

end

/-- A task of a type whose cap is raised after it was handed out. -/
def Demo.capRaised : List (Seconds × Op) :=
    Demo.claimed ++ [(2,
      .setPolicy "sleep" [(.maxExecutionSeconds, some 900), (.maxAttempts, none)])]

theorem Demo.capRaised_playable : Playable {} schemas .empty Demo.capRaised :=
  ⟨rfl, trivial, trivial, trivial⟩

end TaskFleet.Model
