import TaskFleet.Logic.AttemptHistory

/-!
# The attempt history is exact for abnormal endings

`Run.timeline`, in the words of the tables: the `REASSIGNED` rows of a task are
its attempts before the current one, and its one `FAILED` row, if it failed,
has the number of the attempt that failed. The two paths to `FAILED` count
differently, because the sweep raises `attempt_count` and the report does not.
-/

namespace TaskFleet.Model

open Py Sql

/-- The rows of the attempt history of a task with an outcome. -/
def Db.attemptRows (db : Db) (id : Uuid) (outcome : AttemptOutcome) : List TaskAttempt :=
  db.attempts.filter fun a => a.taskId = id ∧ a.outcome = outcome

/-- The sweep took the task from `w` and gave it up. -/
def ExhaustedBy (es : List Event) (id w : Uuid) : Prop :=
  ∃ e ∈ es, (∃ batch skip draw, e.op = .reclaim batch skip draw) ∧
    ∃ r ∈ e.reply.reclaims, r.id = id ∧ r.previousWorkerId = some w ∧ r.status = .failed

/-- `w` reported that its execution of the task failed, and the task did. -/
def ReportedFailed (es : List Event) (id w : Uuid) : Prop :=
  ∃ e ∈ es, ∃ taskId errorType correlationId, e.op = .fail taskId w errorType correlationId ∧
    e.reply = .moved .transitioned ∧ Uuid.parse taskId = some id

section

variable {cfg : Config} {schemas : Schemas} {db db' : Db} {e : Event}
  {es : List Event} {id w : Uuid}

/-- What a failed sweep row means to its task. -/
theorem label_of_exhausted (hs : (queue cfg schemas).step db e db') {batch : Int} {skip : List Uuid}
    {draw : Uuid → ℚ} (hop : e.op = .reclaim batch skip draw) {r : ReclaimedTask}
    (hr : r ∈ e.reply.reclaims) (hw : r.previousWorkerId = some w) (hf : r.status = .failed) :
    e.label r.id = .expire w (r.attemptCount - 1) := by
  have hnodup : (e.reply.reclaims.map ReclaimedTask.id).Nodup := by
    rcases step_reclaims hs with hnone | ⟨_, _, _, -, hrows⟩
    · rw [hnone]
      exact List.nodup_nil
    · rw [hrows, List.map_map]
      exact nodup_selection
  have hfind : (e.reply.reclaims.find? fun x => x.id = r.id) = some r := by
    have hmem : r ∈ e.reply.reclaims.filter fun x => x.id = r.id :=
      List.mem_filter.mpr ⟨hr, by simp⟩
    rw [Table.filter_eq_toList_find? hnodup] at hmem
    exact Option.mem_toList.mp hmem
  simp [Event.label, hop, hfind, ReclaimedTask.label, hw, hf]

/-- The expiries of a task's lease are the tasks the sweep gave up. -/
theorem Run.exhaustedBy_iff (h : (queue cfg schemas).Run es db) :
    ExhaustedBy es id w ↔ ∃ n, Lease.Event.expire w n ∈ failures id es := by
  constructor
  · rintro ⟨e, he, ⟨batch, skip, draw, hop⟩, r, hr, rfl, hw, hf⟩
    obtain ⟨s, s', -, hs⟩ := h.step_of_mem he
    have hlabel := label_of_exhausted hs hop hr hw hf
    exact ⟨r.attemptCount - 1, List.mem_filter.mpr ⟨List.mem_map.mpr ⟨e, he, hlabel⟩, rfl⟩⟩
  · rintro ⟨n, hmem⟩
    obtain ⟨e, he, hlabel⟩ := List.mem_map.mp (List.mem_filter.mp hmem).1
    have hne : e.reply.reclaims ≠ [] := by
      intro hnone
      have hkept : (e.label id).isTaken = false := isTaken_label_eq_false hnone
      rw [hlabel] at hkept
      cases hkept
    obtain ⟨s, s', -, hs⟩ := h.step_of_mem he
    rcases step_reclaims hs with hnone | ⟨batch, skip, draw, hop, -⟩
    · exact absurd hnone hne
    · simp only [Event.label, hop] at hlabel
      split at hlabel
      · next r hfind =>
          refine ⟨e, he, ⟨batch, skip, draw, hop⟩, r, List.mem_of_find?_eq_some hfind,
            by simpa using List.find?_some hfind, ?_⟩
          unfold ReclaimedTask.label at hlabel
          split at hlabel
          · cases hlabel
          · next v hv =>
              split at hlabel
              · next hf =>
                  cases hlabel
                  exact ⟨hv, hf⟩
              · cases hlabel
      · cases hlabel

/-- The abandonments of a task's lease are the failures its holder reported. -/
theorem Run.reportedFailed_iff (h : (queue cfg schemas).Run es db) :
    ReportedFailed es id w ↔ Lease.Event.abandon w ∈ failures id es := by
  constructor
  · rintro ⟨e, he, taskId, errorType, correlationId, hop, hreply, hid⟩
    refine List.mem_filter.mpr ⟨List.mem_map.mpr ⟨e, he, ?_⟩, rfl⟩
    simp [Event.label, hop, hreply, Reply.done, hid]
  · intro hmem
    obtain ⟨e, he, hlabel⟩ := List.mem_map.mp (List.mem_filter.mp hmem).1
    obtain ⟨s, s', -, hs⟩ := h.step_of_mem he
    have hfail : ∃ taskId errorType correlationId, e.op = .fail taskId w errorType correlationId ∧
        e.reply.done = true ∧ Uuid.parse taskId = some id := by
      cases hop : e.op with
      | fail taskId v errorType correlationId =>
          by_cases hc : e.reply.done = true ∧ Uuid.parse taskId = some id
          · simp only [Event.label, hop, hc, and_self, if_true, Lease.Event.abandon.injEq] at hlabel
            exact ⟨taskId, errorType, correlationId, by rw [hlabel], hc⟩
          · simp only [Event.label, hop, if_neg hc] at hlabel
            cases hlabel
      | reclaim =>
          simp only [Event.label, hop] at hlabel
          split at hlabel
          · unfold ReclaimedTask.label at hlabel
            split at hlabel
            · cases hlabel
            · split at hlabel <;> cases hlabel
          · cases hlabel
      | _ =>
          simp only [Event.label, hop] at hlabel
          first
            | cases hlabel
            | (split at hlabel <;> cases hlabel)
    obtain ⟨taskId, errorType, correlationId, hop, hdone, hid⟩ := hfail
    refine ⟨e, he, taskId, errorType, correlationId, hop, ?_, hid⟩
    obtain ⟨-, happly⟩ := hs
    rw [hop] at happly
    obtain ⟨-, hreply⟩ := Prod.mk.inj happly
    rw [← hreply] at hdone ⊢
    rw [show (failTask cfg s e.now taskId w errorType correlationId).2 = .transitioned by
      simpa [Reply.done] using hdone]

/-- The rows with an outcome, among the endings. -/
theorem attemptRows_entry (db : Db) (id : Uuid) {outcome : AttemptOutcome}
    (hne : outcome ≠ .fenced) :
    (db.attemptRows id outcome).map TaskAttempt.entry =
      ((db.endings id).map TaskAttempt.entry).filter fun x => x.1 = outcome := by
  have hrows : db.attemptRows id outcome = (db.endings id).filter fun a => a.outcome = outcome := by
    rw [Db.attemptRows, Db.endings, List.filter_filter]
    refine List.filter_congr fun a _ => ?_
    by_cases ho : a.outcome = outcome
    · simp [ho, hne]
    · simp [ho]
  rw [hrows, List.filter_map]
  rfl

/-- The entries of a timeline under each outcome. -/
theorem Reassigned.filter_append {n : ℕ} {l : List (AttemptOutcome × ℕ × Option Uuid)}
    (h : Reassigned es id n l) (last : List (AttemptOutcome × ℕ × Option Uuid))
    (hlast : ∀ x ∈ last, x.1 = .failed) :
    (l ++ last).filter (fun x => x.1 = .reassigned) = l ∧
    (l ++ last).filter (fun x => x.1 = .failed) = last := by
  have hl := h.outcome
  constructor
  · rw [List.filter_append, List.filter_eq_self.mpr fun x hx => by simp [hl x hx],
      List.filter_eq_nil_iff.mpr fun x hx => by simp [hlast x hx], List.append_nil]
  · rw [List.filter_append, List.filter_eq_nil_iff.mpr fun x hx => by simp [hl x hx],
      List.filter_eq_self.mpr fun x hx => by simp [hlast x hx], List.nil_append]

/-- What the `REASSIGNED` rows of a task say, when its timeline has them. -/
theorem Reassigned.rows {n : ℕ} {l : List (AttemptOutcome × ℕ × Option Uuid)}
    (h : Reassigned es id n l) (hrows : (db.attemptRows id .reassigned).map TaskAttempt.entry = l) :
    (db.attemptRows id .reassigned).map TaskAttempt.attemptNumber = List.range n ∧
    ∀ a ∈ db.attemptRows id .reassigned, ∃ w, a.workerId = some w ∧
      Claimed es id a.attemptNumber w := by
  constructor
  · rw [← h.numbers, ← hrows, List.map_map]
    rfl
  · intro a ha
    exact h.worker a.entry (hrows ▸ List.mem_map_of_mem ha)

/-- **The attempt history is exact for abnormal endings.** In every run and for
every task of the table reached,

* the `REASSIGNED` rows are numbered `0, …, n - 1`, each once, and each names
  the worker its attempt was handed to, where `n` is `attempt_count`, or one
  less when the sweep gave the task up;
* there is a `FAILED` row exactly when the task failed, and then one: with the
  last attempt and the worker the sweep took the task from, or with the current
  attempt and the worker that reported the failure. -/
theorem attempt_history_exact (h : (queue cfg schemas).Run es db) {t : Task} (ht : t ∈ db.tasks) :
    (∃ n, (db.attemptRows t.id .reassigned).map TaskAttempt.attemptNumber = List.range n ∧
      ((∃ w, ExhaustedBy es t.id w) → n + 1 = t.attemptCount) ∧
      (¬ (∃ w, ExhaustedBy es t.id w) → n = t.attemptCount)) ∧
    (∀ a ∈ db.attemptRows t.id .reassigned, ∃ w, a.workerId = some w ∧
      Claimed es t.id a.attemptNumber w) ∧
    (db.attemptRows t.id .failed ≠ [] ↔ t.status = .failed) ∧
    (t.status = .failed → ∃ a, db.attemptRows t.id .failed = [a] ∧
      ((∃ w, ExhaustedBy es t.id w) ∨ ∃ w, ReportedFailed es t.id w) ∧
      (∀ w, ExhaustedBy es t.id w → a.attemptNumber + 1 = t.attemptCount ∧ a.workerId = some w) ∧
      (∀ w, ReportedFailed es t.id w → a.attemptNumber = t.attemptCount ∧
        a.workerId = some w)) := by
  have hreassigned := attemptRows_entry db t.id (show AttemptOutcome.reassigned ≠ .fenced by decide)
  have hfailed := attemptRows_entry db t.id (show AttemptOutcome.failed ≠ .fenced by decide)
  have htimeline := Run.timeline h t ht
  simp only [Run.exhaustedBy_iff h, Run.reportedFailed_iff h]
  generalize hentries :
    (db.endings t.id).map TaskAttempt.entry = entries at htimeline hreassigned hfailed
  generalize hstatus : t.status = status at htimeline
  generalize hcount : t.attemptCount = count at htimeline
  -- how the task stands decides which of its endings is the last
  cases htimeline with
  | going hs hl hf =>
      obtain ⟨hre, hfa⟩ := hl.filter_append [] (by simp)
      rw [List.append_nil] at hre hfa
      obtain ⟨hnumbers, hworkers⟩ := hl.rows (hreassigned.trans hre)
      have hnone : db.attemptRows t.id .failed = [] := List.map_eq_nil_iff.mp (hfailed.trans hfa)
      refine ⟨⟨count, hnumbers, ?_, fun _ => rfl⟩, hworkers, ?_, fun hst => absurd hst hs⟩
      · rintro ⟨w, n, hmem⟩
        rw [hf] at hmem
        cases hmem
      · simp [hnone, hs]
  | @exhausted n l w hl hc hf =>
      obtain ⟨hre, hfa⟩ := hl.filter_append [(.failed, n, some w)] (by simp)
      obtain ⟨hnumbers, hworkers⟩ := hl.rows (hreassigned.trans hre)
      obtain ⟨a, hone, hentry⟩ := List.map_eq_singleton_iff.mp (hfailed.trans hfa)
      have hgiven : ∃ w n, Lease.Event.expire w n ∈ failures t.id es := ⟨w, n, by rw [hf]; simp⟩
      refine ⟨⟨n, hnumbers, fun _ => rfl, fun hnot => absurd hgiven hnot⟩, hworkers,
        by simp [hone], fun _ => ⟨a, hone, .inl hgiven, ?_, ?_⟩⟩
      · rintro v ⟨m, hmem⟩
        rw [hf, List.mem_singleton, Lease.Event.expire.injEq] at hmem
        rw [hmem.1]
        exact ⟨congrArg (· + 1) (congrArg (·.2.1) hentry), congrArg (·.2.2) hentry⟩
      · intro v hmem
        rw [hf, List.mem_singleton] at hmem
        cases hmem
  | @reported n l w hl hc hf =>
      obtain ⟨hre, hfa⟩ := hl.filter_append [(.failed, count, some w)] (by simp)
      obtain ⟨hnumbers, hworkers⟩ := hl.rows (hreassigned.trans hre)
      obtain ⟨a, hone, hentry⟩ := List.map_eq_singleton_iff.mp (hfailed.trans hfa)
      have hnot : ∀ v m, Lease.Event.expire v m ∉ failures t.id es := by
        intro v m hmem
        rw [hf, List.mem_singleton] at hmem
        cases hmem
      refine ⟨⟨count, hnumbers, fun ⟨v, m, hmem⟩ => absurd hmem (hnot v m), fun _ => rfl⟩, hworkers,
        by simp [hone], fun _ => ⟨a, hone, .inr ⟨w, by rw [hf]; simp⟩, ?_, ?_⟩⟩
      · rintro v ⟨m, hmem⟩
        exact absurd hmem (hnot v m)
      · intro v hmem
        rw [hf, List.mem_singleton, Lease.Event.abandon.injEq] at hmem
        rw [hmem]
        exact ⟨congrArg (·.2.1) hentry, congrArg (·.2.2) hentry⟩

end

/-- The reclaimed task of the small deployment goes to the other worker, which reports that it
failed. -/
def Demo.reportedFailed : List (Seconds × Op) := Demo.reclaimed ++ [
  (190, .dequeue Demo.otherWorker 1 100 none []),
  (191, .fail Demo.task.str Demo.otherWorker "ValueError" "demo")]

theorem Demo.reportedFailed_playable : Playable {} Demo.schemas .empty Demo.reportedFailed :=
  ⟨rfl, trivial, fun _ => by constructor <;> norm_num, trivial, trivial, trivial⟩

theorem Demo.reportedFailed_reports :
    ReportedFailed (play {} Demo.schemas .empty Demo.reportedFailed).1 Demo.task
      Demo.otherWorker := by
  have hdone : (apply {} Demo.schemas
      (play {} Demo.schemas .empty (Demo.reportedFailed.take 4)).2 191
      (.fail Demo.task.str Demo.otherWorker "ValueError" "demo")).2.done = true := by
    decide +kernel
  refine ⟨_, .tail _ <| .tail _ <| .tail _ <| .tail _ <| .head _, _, _, _, rfl, ?_,
    Uuid.parse_str _⟩
  exact congrArg Reply.moved (of_decide_eq_true hdone)

/-- It has one `REASSIGNED` row, for attempt 0, and one `FAILED` row, for attempt 1 and the worker
that reported it. -/
theorem attempt_history_exact_reported :
    let db := (play {} Demo.schemas .empty Demo.reportedFailed).2
    ∃ t ∈ db.tasks, t.attemptCount = 1 ∧
      (∀ a ∈ db.attemptRows t.id .reassigned, ∃ w, a.workerId = some w ∧
        Claimed (play {} Demo.schemas .empty Demo.reportedFailed).1 t.id a.attemptNumber w) ∧
      ∃ a, db.attemptRows t.id .failed = [a] ∧ a.attemptNumber = 1 ∧
        a.workerId = some Demo.otherWorker := by
  intro db
  obtain ⟨t, ht, hid, hone, hfailed⟩ : ∃ t ∈ db.tasks.rows, t.id = Demo.task ∧
      t.attemptCount = 1 ∧ t.status = .failed := by
    decide +kernel
  obtain ⟨-, hworkers, -, hrow⟩ :=
    attempt_history_exact (play_run Demo.reportedFailed_playable) ht
  obtain ⟨a, hrows, -, -, hreported⟩ := hrow hfailed
  rw [hid, hone] at hreported
  exact ⟨t, ht, hone, hworkers, a, hrows, hreported _ Demo.reportedFailed_reports⟩

end TaskFleet.Model
