import TaskFleet.Logic.Serial
import TaskFleet.Logic.ClaimHistory

/-!
# Unique claim and no lost task, under concurrency

What the row locks buy. Any number of replicas interleave their transactions
in any order and roll back at will; the committed transactions are a run of
the atomic queue (`serial_run`), and there a task is a fenced lease. So an
attempt is claimed once, leaves its holder through a sweep only, and is not
claimed at all once the task is cancelled; and no commit loses a row.
-/

namespace TaskFleet.Model

open Py Sql

/-- The transactions that committed, in commit order. -/
def committed {τ : Type} (es : List (Locks.Event τ Uuid Call Writes)) :
    List (Locks.Commit Uuid Call Writes) := es.filterMap Locks.Event.label

/-- The transaction is a dequeue that hands out attempt `n` of the task. -/
def claims (id : Uuid) (n : ℕ) (c : Locks.Commit Uuid Call Writes) : Bool :=
  match c.stmt with
  | .dequeue _ _ _ _ _ => c.writes.reply.claims.any fun r => r.id = id && r.attemptCount = n
  | _ => false

/-- The event is a dequeue that hands out attempt `n` of the task. -/
def Event.handsOut (id : Uuid) (n : ℕ) (e : Event) : Bool :=
  match e.op with
  | .dequeue _ _ _ _ _ => e.reply.claims.any fun r => r.id = id && r.attemptCount = n
  | _ => false

section

variable {cfg : Config} {schemas : Schemas} {db db' : Db} {e : Event} {es : List Event}

theorem handsOut_iff {id : Uuid} {n : ℕ} : e.handsOut id n = true ↔ ∃ w, e.Claims id n w := by
  constructor
  · intro h
    cases hop : e.op with
    | dequeue w limit maxBatch taskTypes skip =>
        simp only [Event.handsOut, hop, List.any_eq_true, Bool.and_eq_true, decide_eq_true_eq] at h
        exact ⟨w, ⟨limit, maxBatch, taskTypes, skip, hop⟩, h⟩
    | _ => simp [Event.handsOut, hop] at h
  · rintro ⟨w, ⟨limit, maxBatch, taskTypes, skip, hop⟩, hr⟩
    simpa only [Event.handsOut, hop, List.any_eq_true, Bool.and_eq_true, decide_eq_true_eq] using hr

/-- The hand-outs of an attempt are the grants of its token. -/
theorem isGrant_label (hs : (queue cfg schemas).step db e db') (id : Uuid) (n : ℕ) :
    (e.label id).isGrant n = e.handsOut id n := by
  rw [Bool.eq_iff_iff, handsOut_iff]
  constructor
  · intro h
    cases hlabel : e.label id with
    | grant w m =>
        rw [hlabel] at h
        obtain rfl : m = n := by simpa [Lease.Event.isGrant] using h
        exact ⟨w, claims_of_label hlabel⟩
    | _ => rw [hlabel] at h; cases h
  · rintro ⟨w, hc⟩
    rw [label_of_claims hs hc]
    simp [Lease.Event.isGrant]

/-- An attempt is handed out at most once. -/
theorem handsOut_at_most_once (h : (queue cfg schemas).Run es db) (id : Uuid) (n : ℕ) :
    (es.filter (Event.handsOut id n)).length ≤ 1 := by
  have honce := Lease.Run.grant_once (Run.lease h id) n
  rw [List.filter_map, List.length_map] at honce
  have hsame : es.filter (Lease.Event.isGrant n ∘ Event.label id) = es.filter
      (Event.handsOut id n) := by
    refine List.filter_congr fun e he => ?_
    obtain ⟨s, s', -, hs⟩ := h.step_of_mem he
    exact isGrant_label hs id n
  rwa [hsame] at honce

/-- A live row is queued again only by a sweep, at the next attempt. -/
theorem RowStep.requeued {t t' : Task} (h : RowStep cfg db e t t') (hlive : t.status.isLive = true)
    (hq : t'.status = .queued) :
    (∃ batch skip draw, e.op = .reclaim batch skip draw) ∧
    t'.attemptCount = t.attemptCount + 1 := by
  have hne := TaskState.ne_queued_of_isLive hlive
  cases h with
  | reclaim hop => exact ⟨⟨_, _, _, hop⟩, rfl⟩
  | keep => exact absurd hq hne
  | renew => exact absurd hq hne
  | shorten => exact absurd hq hne
  | purge => exact absurd hq hne
  | claim => cases hq
  | start => cases hq
  | fail => cases hq
  | complete => cases hq
  | cancel => cases hq

/-- A row is cancelled because it was, or by a cancel of a queued one. -/
theorem RowStep.cancelled {t t' : Task} (h : RowStep cfg db e t t') (hc : t'.status = .cancelled) :
    t'.attemptCount = t.attemptCount ∧
      ((t.status = .cancelled ∧ e.label t.id = .silent) ∨
        (t.status = .queued ∧ e.label t.id = .withdraw)) := by
  have hnotLive : ∀ {u : Task}, u.status = .cancelled → ¬ u.status.isLive = true := by
    intro u hu
    rw [hu]
    decide
  cases h with
  | keep hlabel => exact ⟨rfl, .inl ⟨hc, hlabel⟩⟩
  | purge hop hwhere hlabel => exact ⟨rfl, .inl ⟨hc, hlabel⟩⟩
  | cancel hop hid hstatus hlabel => exact ⟨rfl, .inr ⟨hstatus, hlabel⟩⟩
  | renew hwhere => exact absurd (heldLive_holds.mp hwhere).2 (hnotLive (u := t) hc)
  | shorten hwhere => exact absurd (heldLive_holds.mp hwhere).2 (hnotLive (u := t) hc)
  | reclaim =>
      simp only [Task.reclaim] at hc
      split at hc <;> cases hc
  | claim => cases hc
  | start => cases hc
  | fail => cases hc
  | complete => cases hc

/-- Of a cancelled task only attempts that were taken back had been claimed. -/
theorem claimed_lt_of_cancelled (h : (queue cfg schemas).Run es db) :
    ∀ t ∈ db.tasks, t.status = .cancelled → ∀ n w, Claimed es t.id n w → n < t.attemptCount := by
  refine h.invariant (I := fun es db => ∀ t ∈ db.tasks, t.status = .cancelled →
    ∀ n w, Claimed es t.id n w → n < t.attemptCount) ?_ ?_
  · rintro db ⟨htasks, -, -⟩ t ht
    rw [htasks] at ht
    exact absurd ht (Table.not_mem_empty t)
  · rintro es db e db' hrun ih hs t' ht' hc n w ⟨f, hf, hclaims⟩
    rcases (step_rows hs).backward t' ht' with ⟨t, ht, hrow, hid⟩ | ⟨⟨_, _, _, -, -, heq⟩, -⟩
    · rw [hid] at hclaims
      obtain ⟨hattempt, hcase⟩ := hrow.cancelled hc
      have hold : f ∈ es := by
        rcases List.mem_append.mp hf with hold | hnew
        · exact hold
        · rw [List.mem_singleton.mp hnew] at hclaims
          have hgrant := label_of_claims hs hclaims
          rcases hcase with ⟨-, hlabel⟩ | ⟨-, hlabel⟩ <;> rw [hlabel] at hgrant <;> cases hgrant
      rw [hattempt]
      rcases hcase with ⟨hcancelled, -⟩ | ⟨hqueued, -⟩
      · exact ih t ht hcancelled n w ⟨f, hold, hclaims⟩
      · exact Run.claimed_lt_of_queued hrun ht hqueued ⟨f, hold, hclaims⟩
    · rw [heq] at hc
      cases hc

/-- An enqueued row is never lost by a serial run. -/
theorem serial_hasRow {os : List (Option (Locks.Commit Uuid Call Writes))}
    (h : (Locks.serial (replicas cfg schemas)).Run os db) :
    ∀ c ∈ os.filterMap id, ∀ now i req, c.stmt = .enqueue now i req → HasRow db i := by
  refine h.invariant (I := fun os db => ∀ c ∈ os.filterMap id, ∀ now i req,
    c.stmt = .enqueue now i req → HasRow db i) ?_ ?_
  · simp
  · intro os db o db' _ ih hstep c hc now i req hstmt
    rw [List.filterMap_append] at hc
    cases hstep with
    | silent => exact ih c (by simpa using hc) now i req hstmt
    | @commit call ids hcommits hadm =>
        rcases List.mem_append.mp hc with hold | hnew
        · exact install_hasRow _ (ih c hold now i req hstmt)
        · obtain rfl : c = ⟨call, ids, call.exec cfg schemas db ids⟩ := by simpa
            [replicas] using hnew
          obtain rfl : call = .enqueue now i req := hstmt
          obtain ⟨⟨taskType, parameters⟩, hok⟩ := hcommits
          refine ⟨queuedRow now i taskType parameters req.payload req.priority
            req.correlationId, ?_,
            rfl⟩
          have hfresh : db.tasks.get? i = none := hadm
          simp only [replicas, Call.exec, hok, install, Table.overwrite_nil]
          exact (Table.mem_insert (Table.get?_eq_none_iff.mp hfresh)).mpr (.inr rfl)

end

section

variable {τ : Type} [DecidableEq τ] {cfg : Config} {schemas : Schemas}
  {es : List (Locks.Event τ Uuid Call Writes)} {st : Locks.State τ Db Uuid Call Writes}

/-- Two lists whose entries correspond have as many of a kind. -/
theorem length_filter_eq {α β : Type} {R : α → β → Prop} {p : α → Bool} {q : β → Bool}
    (hpq : ∀ a b, R a b → p a = q b) {as : List α} {bs : List β} (h : List.Forall₂ R as bs) :
    (as.filter p).length = (bs.filter q).length := by
  induction h with
  | nil => rfl
  | cons hab _ ih =>
      rw [List.filter_cons, List.filter_cons, hpq _ _ hab]
      split
      · rw [List.length_cons, List.length_cons, ih]
      · exact ih

/-- A committed transaction hands out what its event does. -/
theorem claims_eq_handsOut {c : Locks.Commit Uuid Call Writes} {skip : List Uuid}
    (id : Uuid) (n : ℕ) :
    claims id n c = (c.stmt.event skip c.writes.reply).handsOut id n := by
  cases hstmt : c.stmt <;> simp [claims, Event.handsOut, Call.event, Call.op, hstmt]

/-- The committed transactions of an interleaving are a run of the queue. -/
theorem committed_run (h : (Locks.system τ (replicas cfg schemas)).Run es st) :
    ∃ qs, (queue cfg schemas).Run qs st.committed ∧
      List.Forall₂ (fun c e => ∃ skip, e = c.stmt.event skip c.writes.reply) (committed es) qs := by
  obtain ⟨qs, hrun, hall⟩ := serial_run (Locks.Run.serial replicas_lawful h)
  rw [List.filterMap_map] at hall
  exact ⟨qs, hrun, hall⟩

end

namespace Demo

def enqueueCall : Call := .enqueue 0 task request

def dequeueCall : Call := .dequeue 1 worker 1 100 none

def rivalCall : Call := .dequeue 1 otherWorker 1 100 none

/-- The database after the enqueue committed. -/
def enqueued : Db := install .empty (enqueueCall.exec {} schemas .empty [])

/-- The database after the claim committed. -/
def afterClaim : Db := install enqueued (dequeueCall.exec {} schemas enqueued [task])

/-- A connection enqueues the task, and then three dequeue it at once: each sees it queued. The
first locks the row; the second passes it over; the third comes to it when the first has
committed, and its re-check fails. -/
def interleaving : List (Locks.Event (Fin 3) Uuid Call Writes) :=
  [.begin 0 enqueueCall, .stage 0,
    .commit 0 enqueueCall [] (enqueueCall.exec {} schemas .empty []),
    .begin 0 dequeueCall, .begin 1 rivalCall, .begin 2 rivalCall,
    .lock 0, .skip 1, .stage 0, .rollback 1,
    .commit 0 dequeueCall [task] (dequeueCall.exec {} schemas enqueued [task]),
    .drop 2, .rollback 2]

theorem enqueued_scan {call : Call} (hmatches : ∀ t ∈ enqueued.tasks.rows, call.matches {} t = true)
    (hordered : call.Ordered enqueued.tasks.rows) :
    (replicas {} schemas).scan call enqueued [task] := by
  refine ⟨enqueued.tasks.rows, ?_, hordered, by decide +kernel⟩
  rw [List.filter_eq_self.mpr hmatches]

theorem interleaving_run :
    ∃ st, (Locks.system (Fin 3) (replicas {} schemas)).Run interleaving st := by
  have hscan : (replicas {} schemas).scan dequeueCall enqueued [task] := by
    refine enqueued_scan (by decide +kernel) ?_
    show List.Pairwise queueOrder _
    decide +kernel
  have hscanRival : (replicas {} schemas).scan rivalCall enqueued [task] := by
    refine enqueued_scan (by decide +kernel) ?_
    show List.Pairwise queueOrder _
    decide +kernel
  -- nobody holds a lock that is not in a transaction under way
  have hfree : ∀ {s : Locks.State (Fin 3) Db Uuid Call Writes} {c : Fin 3},
      (∀ d y, d ≠ c → s.active d = some y → y.locked = []) → ¬ s.HeldByOther c task := by
    rintro s c hlocked ⟨d, y, hne, hy, hk⟩
    rw [hlocked d y hne hy] at hk
    cases hk
  have hinit : (Locks.system (Fin 3) (replicas {} schemas)).Run [] ⟨.empty, fun _ => none⟩ :=
    .nil ⟨⟨rfl, rfl, rfl⟩, fun _ => rfl⟩
  have hbegin := hinit.snoc (.begin (c := 0) rfl
    (show (replicas {} schemas).scan enqueueCall .empty [] from ⟨[], .refl _, trivial, rfl⟩))
  have hstage := hbegin.snoc (.stage (c := 0) rfl rfl (.inl rfl))
  have hcommit := hstage.snoc (.commit (c := 0)
    (x := ⟨enqueueCall, [], [], [], some (enqueueCall.exec {} schemas .empty [])⟩) rfl
    rfl ⟨_, rfl⟩ rfl)
  have hbegins := ((hcommit.snoc (.begin (c := 0) rfl hscan)).snoc
    (.begin (c := 1) rfl hscanRival)).snoc (.begin (c := 2) rfl hscanRival)
  have hlock := hbegins.snoc (.lock (c := 0) (x := ⟨dequeueCall, [task], [], [], none⟩) rfl rfl rfl
    Nat.one_pos (hfree fun d y hne hy => ?_)
    (show (replicas {} schemas).passes dequeueCall enqueued task = true by decide +kernel))
  have hskip := hlock.snoc (.skip (c := 1) (x := ⟨rivalCall, [task], [], [], none⟩) rfl rfl rfl
    Nat.one_pos rfl ⟨0, ⟨dequeueCall, [], [task], [task], none⟩, by decide, rfl, .head _⟩)
  have hstage' := hskip.snoc (.stage (c := 0) rfl rfl (.inl rfl))
  have hrollback := hstage'.snoc (.rollback (c := 1) (x := ⟨rivalCall, [], [], [], none⟩) rfl)
  have hcommit' := hrollback.snoc (.commit (c := 0)
    (x := ⟨dequeueCall, [], [task], [task], some (dequeueCall.exec {} schemas enqueued [task])⟩)
    rfl rfl ⟨by simp, by decide, by decide, by simp⟩ trivial)
  have hdrop := hcommit'.snoc (.drop (c := 2) (x := ⟨rivalCall, [task], [], [], none⟩) rfl rfl rfl
    Nat.one_pos (hfree fun d y hne hy => ?_)
    (show (replicas {} schemas).passes rivalCall afterClaim task = false by decide +kernel))
  · exact ⟨_, hdrop.snoc (.rollback (c := 2) (x := ⟨rivalCall, [], [task], [], none⟩) rfl)⟩
  · obtain ⟨_ | _ | _ | _, hd⟩ := d
    · cases hy
    · cases hy
    · exact absurd rfl hne
    · omega
  · obtain ⟨_ | _ | _ | _, hd⟩ := d
    · exact absurd rfl hne
    · obtain rfl := Option.some.inj hy
      rfl
    · obtain rfl := Option.some.inj hy
      rfl
    · omega

end Demo

end TaskFleet.Model
