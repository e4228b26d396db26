import TaskFleet.Logic.WorkerWrites
import TaskFleet.Model.QueueRun

/-!
# Only the latest token of an unrevoked worker authenticates

A refresh takes the next generation of its worker and stores the token in two
commands, and a check reads three stores one after another. In every
interleaving an accepted token was, at the moment its check read the counter,
the last one issued to its worker (`accepted_token_is_latest`).
-/

namespace TaskFleet.Model

open Py Handler

/-- The token a check is given. -/
def WorkerRequest.presents : WorkerRequest → Option String
  | .verify authorization => bearerToken authorization
  | .authenticateWs rawToken => some rawToken
  | _ => none

/-- The worker an accepting check names. -/
def WorkerOutcome.accepts : WorkerOutcome → Option Uuid
  | .verified (.ok id) => some id
  | .authenticated (some id) => some id
  | _ => none

section

variable (sec : SecurityConfig) (i : ℕ) (p : WorkerPool) (es : List WorkerEvent)
  (record : TokenRecord)

/-- Request `i` read the clock in the events `es`, before the record expired. -/
def ReadUnexpired : Prop := ∃ as bs now, es = as ++ .reply i .now now :: bs ∧ now < record.expiresAt

/-- Request `i` read the counter in the events `es` from `p`, when the record was
that of the token and no token of the worker was newer. -/
def ReadLatest (rawToken : String) : Prop :=
  ∃ as bs u generation, es = as ++ .reply i (.getTokenGen record.workerId) generation :: bs ∧
    (identities sec).Trace p as u ∧ u.store.tokenGen record.workerId = some record.generation ∧
      (rawToken, record) ∈ u.store.issued ∧
        ∀ issued ∈ u.store.issued, issued.2.workerId = record.workerId →
          issued.2.generation ≤ record.generation

/-- Request `i` read the row in the events `es` from `p`, when the worker was not
revoked. -/
def ReadUnrevoked : Prop :=
  ∃ as bs u row, es = as ++ .reply i (.getWorker record.workerId) (some row) :: bs ∧
    (identities sec).Trace p as u ∧ u.store.workers record.workerId = some row ∧ row.revoked = false

/-- What the check `i` saw, in the events `es` from `p`, of a token it accepts. -/
structure AcceptedCheck (rawToken : String) : Prop where
  unexpired : ReadUnexpired i es record
  latest : ReadLatest sec i p es record rawToken
  unrevoked : ReadUnrevoked sec i p es record

end

section

variable {sec : SecurityConfig} {p t : WorkerPool} {e : WorkerEvent}
  {es : List WorkerEvent} {id : Uuid}
  {i : ℕ}

/-! ## Steps -/

/-- A token is issued by storing it. -/
theorem issued_step (hs : (identities sec).step p e t) {x : String × TokenRecord}
    (hx : x ∈ t.store.issued) :
    x ∈ p.store.issued ∨ ∃ i id generation r, e = .reply i (.setAccessToken id generation) r ∧
      x = (r.1, ⟨id, generation, r.2 + sec.accessTokenTtlSeconds⟩) ∧
        ∀ y ∈ p.store.issued, y.1 ≠ r.1 := by
  cases hs with
  | start => exact .inl hx
  | @reply j q c next r htask hreply =>
      cases c with
      | setAccessToken id generation =>
          rcases List.mem_cons.mp hx with rfl | hold
          · exact .inr ⟨j, id, generation, r, rfl, rfl, hreply⟩
          · exact .inl hold
      | _ => exact .inl hx

/-- No token is forgotten to have been issued. -/
theorem issued_mono (hs : (identities sec).step p e t) {x : String × TokenRecord}
    (hx : x ∈ p.store.issued) : x ∈ t.store.issued := by
  cases hs with
  | start => exact hx
  | @reply j q c next r htask hreply =>
      cases c with
      | setAccessToken id generation => exact List.mem_cons_of_mem _ hx
      | _ => exact hx

/-- A counter moves by being incremented. -/
theorem tokenGen_step (id : Uuid) (hs : (identities sec).step p e t) :
    t.store.tokenGen id = p.store.tokenGen id ∨
      ∃ i, e = .reply i (.incrTokenGen id) ((p.store.tokenGen id).getD 0 + 1) ∧
        t.store.tokenGen id = some ((p.store.tokenGen id).getD 0 + 1) := by
  cases hs with
  | start => exact .inl rfl
  | @reply j q c next r htask hreply =>
      cases c with
      | incrTokenGen id' =>
          have hr : r = (p.store.tokenGen id').getD 0 + 1 := hreply
          by_cases hid : id = id'
          · subst hid
            exact .inr ⟨j, by rw [hr], by simp [workerStore, WorkerStore.after, hr]⟩
          · exact .inl (by simp [workerStore, WorkerStore.after, hid])
      | _ => exact .inl rfl

/-- A counter never goes back. -/
theorem tokenGen_mono (h : (identities sec).Trace p es t) {n : ℕ}
    (hn : p.store.tokenGen id = some n) :
    ∃ m, t.store.tokenGen id = some m ∧ n ≤ m := by
  induction h with
  | nil => exact ⟨n, hn, le_rfl⟩
  | snoc _ hs ih =>
      obtain ⟨m, hm, hle⟩ := ih
      rcases tokenGen_step id hs with hsame | ⟨i, -, hincr⟩
      · exact ⟨m, hsame.trans hm, hle⟩
      · rw [hm] at hincr
        exact ⟨_, hincr, hle.trans (Nat.le_succ m)⟩

theorem issued_trace (h : (identities sec).Trace p es t) {x : String × TokenRecord}
    (hx : x ∈ p.store.issued) : x ∈ t.store.issued := by
  induction h with
  | nil => exact hx
  | snoc _ hs ih => exact issued_mono hs ih

/-- The record behind a hash is that of an issued token. -/
theorem stored_issued (h : (identities sec).Reachable p) :
    ∀ k record, p.store.accessTokens k = some record →
      ∃ rawToken, k = sec.hashCredential rawToken ∧ (rawToken, record) ∈ p.store.issued := by
  refine Pool.store_invariant (I := fun s => ∀ k record, s.accessTokens k = some record →
    ∃ rawToken, k = sec.hashCredential rawToken ∧ (rawToken, record) ∈ s.issued) ?_ ?_ h
  · rintro s rfl k record hk
    cases hk
  · intro s c r ih _ k record hk
    cases c with
    | setAccessToken id generation =>
        simp only [workerStore, WorkerStore.after, Function.update_apply] at hk
        split at hk
        · next hkey => cases hk; exact ⟨r.1, hkey, List.mem_cons_self⟩
        · obtain ⟨rawToken, hraw, hissued⟩ := ih k record hk
          exact ⟨rawToken, hraw, List.mem_cons_of_mem _ hissued⟩
    | expireAccessToken hash =>
        simp only [workerStore, WorkerStore.after, Function.update_apply] at hk
        split at hk
        · cases hk
        · exact ih k record hk
    | _ => exact ih k record hk

/-! ## Generations -/

/-- The generation of `id` that a request is about to give a token is its own. -/
structure OwnGeneration (p : WorkerPool) (i : ℕ) (id : Uuid) (generation : ℕ) : Prop where
  counted : ∃ n, p.store.tokenGen id = some n ∧ generation ≤ n
  unissued : ∀ x ∈ p.store.issued, x.2.workerId = id → x.2.generation ≠ generation
  alone : ∀ j q h, j ≠ i → p.tasks j = some (q, h) →
    pendingWrite h ≠ some (.setAccessToken id generation)

/-- Issued tokens carry generations the counters have reached, each its own, and
so will those on their way. -/
structure GenerationsSound (p : WorkerPool) : Prop where
  counted : ∀ x ∈ p.store.issued, ∃ n, p.store.tokenGen x.2.workerId = some n ∧ x.2.generation ≤ n
  unique : ∀ x ∈ p.store.issued, ∀ y ∈ p.store.issued, x.2.workerId = y.2.workerId →
    x.2.generation = y.2.generation → x = y
  distinct : ∀ x ∈ p.store.issued, ∀ y ∈ p.store.issued, x.1 = y.1 → x = y
  pending : ∀ i q h id generation, p.tasks i = some (q, h) →
    pendingWrite h = some (.setAccessToken id generation) → OwnGeneration p i id generation

namespace GenerationsSound

/-- What storing a token finds. -/
theorem of_set (h : GenerationsSound p) (hs : (identities sec).step p e t) {generation : ℕ}
    {r : String × Seconds} (he : e = .reply i (.setAccessToken id generation) r) :
    OwnGeneration p i id generation := by
  obtain ⟨q, next, htask, -⟩ := pending_of_reply hs he
  exact h.pending i q _ id generation htask rfl

theorem counted_step (h : GenerationsSound p) (hs : (identities sec).step p e t) :
    ∀ x ∈ t.store.issued, ∃ n, t.store.tokenGen x.2.workerId = some n ∧ x.2.generation ≤ n := by
  intro x hx
  have hbefore : ∃ n, p.store.tokenGen x.2.workerId = some n ∧ x.2.generation ≤ n := by
    rcases issued_step hs hx with hold | ⟨i, id, generation, r, he, rfl, -⟩
    · exact h.counted x hold
    · exact (h.of_set hs he).counted
  obtain ⟨n, hn, hle⟩ := hbefore
  obtain ⟨m, hm, hnm⟩ := tokenGen_mono (.single hs) hn
  exact ⟨m, hm, hle.trans hnm⟩

theorem unique_step (h : GenerationsSound p) (hs : (identities sec).step p e t) :
    ∀ x ∈ t.store.issued, ∀ y ∈ t.store.issued, x.2.workerId = y.2.workerId →
      x.2.generation = y.2.generation → x = y := by
  intro x hx y hy hid hgeneration
  rcases issued_step hs hx with hx | ⟨i, id, generation, r, he, rfl, -⟩
  · rcases issued_step hs hy with hy | ⟨j, id, generation, r, he, rfl, -⟩
    · exact h.unique x hx y hy hid hgeneration
    · exact absurd hgeneration ((h.of_set hs he).unissued x hx hid)
  · rcases issued_step hs hy with hy | ⟨j, id', generation', r', he', rfl, -⟩
    · exact absurd hgeneration.symm ((h.of_set hs he).unissued y hy hid.symm)
    · cases he.symm.trans he'
      rfl

theorem distinct_step (h : GenerationsSound p) (hs : (identities sec).step p e t) :
    ∀ x ∈ t.store.issued, ∀ y ∈ t.store.issued, x.1 = y.1 → x = y := by
  intro x hx y hy hraw
  rcases issued_step hs hx with hx | ⟨i, id, generation, r, he, rfl, hfresh⟩
  · rcases issued_step hs hy with hy | ⟨j, id, generation, r, he, rfl, hfresh⟩
    · exact h.distinct x hx y hy hraw
    · exact absurd hraw (hfresh x hx)
  · rcases issued_step hs hy with hy | ⟨j, id', generation', r', he', rfl, -⟩
    · exact absurd hraw.symm (hfresh y hy)
    · cases he.symm.trans he'
      rfl

/-- Only the increment that yields a generation makes it pending, so a pending one
stays alone. -/
theorem pending_step (h : GenerationsSound p) (hreach : (identities sec).Reachable p)
    (hs : (identities sec).step p e t) {q : WorkerRequest} {h' : WorkerHandler WorkerOutcome}
    {generation : ℕ} (htask : t.tasks i = some (q, h'))
    (hpending : pendingWrite h' = some (.setAccessToken id generation)) :
    OwnGeneration t i id generation := by
  rcases pendingWrite_step hreach hs htask hpending with ⟨hold, hother⟩ | ⟨c, r, he, hleads, hreply⟩
  · have hown := h.pending i q h' id generation hold hpending
    obtain ⟨n, hn, hle⟩ := hown.counted
    refine ⟨?_, fun x hx hid hgeneration => ?_, fun j q' h'' hne htask' hpending' => ?_⟩
    · obtain ⟨m, hm, hnm⟩ := tokenGen_mono (.single hs) hn
      exact ⟨m, hm, hle.trans hnm⟩
    · rcases issued_step hs hx with hx | ⟨j, id', generation', r, he, rfl, -⟩
      · exact hown.unissued x hx hid hgeneration
      · cases hid
        cases hgeneration
        obtain ⟨q', next, htask', -⟩ := pending_of_reply hs he
        by_cases hji : j = i
        · subst hji
          exact hother _ _ he
        · exact hown.alone j q' _ hji htask' rfl
    · rcases pendingWrite_step hreach hs htask' hpending'
        with ⟨hold', -⟩ | ⟨c, r, -, hleads, hreply⟩
      · exact hown.alone j q' h'' hne hold' hpending'
      · cases c with
        | incrTokenGen id' =>
            obtain ⟨rfl, hr⟩ := hleads
            have hnext : generation = (p.store.tokenGen id').getD 0 + 1 := hr.symm.trans hreply
            rw [hn, Option.getD_some] at hnext
            omega
        | _ => exact hleads.elim
  · cases c with
    | incrTokenGen id' =>
        obtain ⟨rfl, hr⟩ := hleads
        have hnext : generation = (p.store.tokenGen id').getD 0 + 1 := hr.symm.trans hreply
        have hpast : ∀ n, p.store.tokenGen id' = some n → n < generation := by
          intro n hn
          rw [hn, Option.getD_some] at hnext
          omega
        refine ⟨⟨generation, ?_, le_rfl⟩, fun x hx hid hgeneration => ?_,
          fun j q' h'' hne htask' hpending' => ?_⟩
        · subst he
          cases hs with
          | reply => simp [workerStore, WorkerStore.after, hr]
        · rcases issued_step hs hx with hx | ⟨j, id, generation', r', he', -⟩
          · obtain ⟨n, hn, hle⟩ := h.counted x hx
            rw [hid] at hn
            have := hpast n hn
            omega
          · cases he.symm.trans he'
        · rcases pendingWrite_step hreach hs htask' hpending' with ⟨hold', -⟩ | ⟨c, r', he', -⟩
          · obtain ⟨n, hn, hle⟩ := (h.pending j q' h'' id' generation hold' hpending').counted
            have := hpast n hn
            omega
          · cases he.symm.trans he'
            exact hne rfl
    | _ => exact hleads.elim

end GenerationsSound

/-- **Every reachable state** keeps it so. -/
theorem generationsSound (h : (identities sec).Reachable p) : GenerationsSound p := by
  refine h.invariant (P := GenerationsSound) ?_ ?_
  · rintro s ⟨hstore, hnone⟩
    have hissued : s.store.issued = [] := by rw [hstore]
    refine ⟨?_, ?_, ?_, fun i q h id generation htask => ?_⟩
    · simp [hissued]
    · simp [hissued]
    · simp [hissued]
    · rw [hnone i] at htask
      cases htask
  · intro s e t hreach hsound hs
    exact ⟨hsound.counted_step hs, hsound.unique_step hs, hsound.distinct_step hs,
      fun i q h id generation => hsound.pending_step hreach hs⟩

/-! ## Checks -/

theorem ReadLatest.append {record : TokenRecord} {fs : List WorkerEvent} {rawToken : String}
    (htrace : (identities sec).Trace p es t) (h : ReadLatest sec i t fs record rawToken) :
    ReadLatest sec i p (es ++ fs) record rawToken := by
  obtain ⟨as, bs, u, generation, rfl, hu, hseen⟩ := h
  exact ⟨es ++ as, bs, u, generation, by simp, htrace.append hu, hseen⟩

theorem ReadUnrevoked.append {record : TokenRecord} {fs : List WorkerEvent}
    (htrace : (identities sec).Trace p es t) (h : ReadUnrevoked sec i t fs record) :
    ReadUnrevoked sec i p (es ++ fs) record := by
  obtain ⟨as, bs, u, row, rfl, hu, hseen⟩ := h
  exact ⟨es ++ as, bs, u, row, by simp, htrace.append hu, hseen⟩

section

variable {reject : TokenRejection → WorkerOutcome} {accept : Uuid → WorkerOutcome}
  {out : WorkerOutcome}
  {record : TokenRecord} {rawToken : String}

/-- The request's course from `p` on. -/
abbrev CheckFinishes (sec : SecurityConfig) (i : ℕ) (h : WorkerHandler WorkerOutcome)
    (p : WorkerPool)
    (es : List WorkerEvent) (out : WorkerOutcome) : Prop :=
  Pool.Finishes (workerStore sec) (WorkerRequest.handler sec) (· = {}) i h p es out

/-- The two kinds of results of a check. -/
structure Verdicts (reject : TokenRejection → WorkerOutcome)
    (accept : Uuid → WorkerOutcome) : Prop where
  reject : ∀ r, (reject r).accepts = none
  accept : ∀ id, (accept id).accepts = some id

theorem Verdicts.reject_ne (h : Verdicts reject accept) (hout : out.accepts = some id)
    (r : TokenRejection) :
    reject r ≠ out := by
  intro hr
  rw [← hr, h.reject] at hout
  cases hout

/-- The row is read last. -/
theorem checkRow_accepts (hv : Verdicts reject accept) (hout : out.accepts = some id)
    (hf : CheckFinishes sec i (checkRow reject accept record) p es out) :
    record.workerId = id ∧ ReadUnrevoked sec i p es record := by
  obtain ⟨row, as, bs, u, u', rfl, htrace, -, hrow, hf⟩ := hf
  cases row with
  | none => exact absurd hf (hv.reject_ne hout _)
  | some worker =>
      cases hrevoked : worker.revoked with
      | true =>
          simp only [hrevoked, if_true] at hf
          exact absurd hf (hv.reject_ne hout _)
      | false =>
          simp only [hrevoked, Bool.false_eq_true, if_false, Pool.finishes_done] at hf
          refine ⟨?_, as, bs, u, worker, rfl, htrace, hrow.symm, hrevoked⟩
          rw [← hf, hv.accept] at hout
          exact Option.some.inj hout

/-- The counter is at the generation of a token that was issued, since it has
reached it. -/
theorem checkGeneration_accepts (hv : Verdicts reject accept) (hout : out.accepts = some id)
    (hreach : (identities sec).Reachable p) (hissued : (rawToken, record) ∈ p.store.issued)
    (hf : CheckFinishes sec i (checkGeneration reject accept record) p es out) :
    record.workerId = id ∧ ReadLatest sec i p es record rawToken ∧
      ReadUnrevoked sec i p es record := by
  obtain ⟨generation, as, bs, u, u', rfl, htrace, hstep, hgeneration, hf⟩ := hf
  dsimp only at hf
  split at hf
  · exact absurd hf (hv.reject_ne hout _)
  · next hsame =>
      obtain ⟨hid, hrow⟩ := checkRow_accepts hv hout hf
      obtain ⟨past, hpast⟩ := hreach
      have hsound := generationsSound (hpast.extend htrace).reachable
      have hissued' := issued_trace htrace hissued
      obtain ⟨n, hn, hle⟩ := hsound.counted _ hissued'
      have hlatest : n = record.generation := by
        have hread : generation = some n := Eq.trans hgeneration hn
        by_contra hne
        exact hsame (by rw [hread]; exact ⟨Option.some_ne_none n, fun h => hne (Option.some.inj h)⟩)
      subst hlatest
      refine ⟨hid, ⟨as, bs, u, generation, rfl, htrace, hn, hissued', fun y hy hworker => ?_⟩, ?_⟩
      · obtain ⟨m, hm, hym⟩ := hsound.counted y hy
        rw [hworker, hn] at hm
        cases hm
        exact hym
      · simpa using hrow.append (htrace.snoc hstep)

/-- **One check.** What the shared course saw if it accepted. -/
theorem checkToken_accepts (hinj : Function.Injective sec.hashCredential)
    (hv : Verdicts reject accept)
    (hout : out.accepts = some id) (hreach : (identities sec).Reachable p)
    (hf : CheckFinishes sec i (checkToken sec reject accept rawToken) p es out) :
    ∃ record, record.workerId = id ∧ AcceptedCheck sec i p es record rawToken := by
  obtain ⟨stored, as, bs, u, u', rfl, htrace, hstep, hstored, hf⟩ := hf
  cases stored with
  | none => exact absurd hf (hv.reject_ne hout _)
  | some record =>
      obtain ⟨past, hpast⟩ := hreach
      obtain ⟨rawToken', hhash, hissued⟩ :=
        stored_issued (hpast.extend htrace).reachable _ record hstored.symm
      obtain rfl := hinj hhash
      have hread : (identities sec).Trace p (as ++ [_]) u' := htrace.snoc hstep
      obtain ⟨now, as', bs', v, v', rfl, htrace', hstep', -, hf⟩ := hf
      dsimp only at hf
      split at hf
      · exact absurd hf (hv.reject_ne hout _)
      · next hnow =>
          have hclock : (identities sec).Trace u' (as' ++ [_]) v' :=
              System.Trace.snoc htrace' hstep'
          obtain ⟨hid, hlatest, hrow⟩ := checkGeneration_accepts hv hout
            ((hpast.extend hread).extend hclock).reachable
            (issued_trace hclock (issued_mono hstep hissued)) hf
          refine ⟨record, hid,
            ⟨as ++ .reply i (.getAccessToken (sec.hashCredential rawToken)) (some record) ::
            as', bs', now, by simp, not_le.mp hnow⟩, ?_, ?_⟩
          · simpa using (hlatest.append hclock).append hread
          · simpa using (hrow.append hclock).append hread

end

/-- A request that accepts is one of the two checks. -/
theorem accepts_of_finishes (hinj : Function.Injective sec.hashCredential)
    (hreach : (identities sec).Reachable p) {q : WorkerRequest} {out : WorkerOutcome}
    (hout : out.accepts = some id) (hf : CheckFinishes sec i (q.handler sec) p es out) :
    ∃ rawToken record, q.presents = some rawToken ∧ record.workerId = id ∧
      AcceptedCheck sec i p es record rawToken := by
  have hother {α : Type} {h : WorkerHandler α} {g : α → WorkerOutcome}
      (hg : ∀ a, (g a).accepts = none)
      (hf : CheckFinishes sec i (h.bind fun a => .done (g a)) p es out) : False := by
    obtain ⟨a, rfl⟩ := Pool.Finishes.of_bind_done hf
    rw [hg] at hout
    cases hout
  cases q with
  | register raw => exact (hother (fun _ => rfl) hf).elim
  | refresh workerId credential => exact (hother (fun _ => rfl) hf).elim
  | revoke workerId secret => exact (hother (fun _ => rfl) hf).elim
  | transition workerUuid trigger => exact (hother (fun _ => rfl) hf).elim
  | expire hash => exact (hother (fun _ => rfl) hf).elim
  | verify authorization =>
      cases htoken : bearerToken authorization with
      | none =>
          simp only [WorkerRequest.handler, verifyToken, htoken] at hf
          rw [← (hf : _ = out)] at hout
          cases hout
      | some rawToken =>
          rw [handler_verify htoken] at hf
          obtain ⟨record, hid, hcheck⟩ :=
            checkToken_accepts hinj ⟨fun _ => rfl, fun _ => rfl⟩ hout hreach hf
          exact ⟨rawToken, record, htoken, hid, hcheck⟩
  | authenticateWs rawToken =>
      rw [handler_authenticateWs] at hf
      obtain ⟨record, hid, hcheck⟩ :=
        checkToken_accepts hinj ⟨fun _ => rfl, fun _ => rfl⟩ hout hreach hf
      exact ⟨rawToken, record, rfl, hid, hcheck⟩

/-- A token a check found issued is so at the end. -/
theorem ReadLatest.issued {fs : List WorkerEvent} {raw : String} {record : TokenRecord}
    (h : ReadLatest sec i p fs record raw) (htrace : (identities sec).Trace p fs t) :
    (raw, record) ∈ t.store.issued := by
  obtain ⟨as, bs, u, generation, rfl, hu, -, hissued, -⟩ := h
  obtain ⟨v, hv, hrest⟩ := htrace.split as _ rfl
  obtain rfl := hu.unique Pool.deterministic v hv
  exact issued_trace hrest hissued

/-- Two accepted tokens of one worker, whose generations the counter had reached
when both checks began, are one. -/
theorem eq_of_latest {fs : List WorkerEvent} (hrun : (identities sec).Run es p)
    (htrace : (identities sec).Trace p fs t) {j : ℕ} {raw raw' : String}
    {record record' : TokenRecord}
    (hid : record.workerId = record'.workerId) (h : ReadLatest sec i p fs record raw)
    (h' : ReadLatest sec j p fs record' raw') {n : ℕ}
    (hn : p.store.tokenGen record.workerId = some n)
    (hle : record.generation ≤ n) (hle' : record'.generation ≤ n) : raw = raw' := by
  have hreached : ∀ {k raw record}, ReadLatest sec k p fs record raw →
      p.store.tokenGen record.workerId = some n → record.generation ≤ n →
        record.generation = n := by
    rintro k raw record ⟨as, bs, u, generation, rfl, hu, hgeneration, -⟩ hn hle
    obtain ⟨m, hm, hnm⟩ := tokenGen_mono hu hn
    rw [hgeneration] at hm
    cases hm
    exact le_antisymm hle hnm
  have hsame := (hreached h hn hle).trans (hreached h' (hid ▸ hn) hle').symm
  have heq := (generationsSound (hrun.extend htrace).reachable).unique _ (h.issued htrace) _
    (h'.issued htrace) hid hsame
  exact (Prod.mk.inj heq).1

theorem bearerToken_append (rawToken : String) :
    bearerToken ("Bearer " ++ rawToken) = some rawToken := by
  have hchars : ("Bearer " ++ rawToken).toList = "Bearer ".toList ++ rawToken.toList :=
      String.toList_append
  have hlength : "Bearer ".toList.length = 7 := by decide
  rw [bearerToken, hchars, ← hlength, List.take_left, List.drop_left, if_pos rfl,
    String.ofList_toList]

/-- **Only the latest token of an unrevoked worker authenticates.** With a
collision-free hash, in every run of the identity service:

* a check that accepts a token, having come in after the state `p`, read the clock
  before the token expired, the counter when no newer token of the worker was
  issued, and the row when the worker was not revoked;
* of two tokens of one worker never both are accepted by checks that come in when
  the counter has reached both generations;
* on one state the two checks accept the same tokens. -/
theorem accepted_token_is_latest (hinj : Function.Injective sec.hashCredential) :
    (∀ es p fs t i q out id, (identities sec).Run es p → (identities sec).Trace p fs t →
      p.tasks i = none → t.tasks i = some (q, .done out) → out.accepts = some id →
        ∃ rawToken record, q.presents = some rawToken ∧ record.workerId = id ∧
          AcceptedCheck sec i p fs record rawToken) ∧
    (∀ es p fs t i j q q' out out' raw raw' record record' id n,
      (identities sec).Run es p → (identities sec).Trace p fs t → p.tasks i = none →
        p.tasks j = none →
        t.tasks i = some (q, .done out) → t.tasks j = some (q', .done out') →
        q.presents = some raw → q'.presents = some raw' → raw ≠ raw' →
        (raw, record) ∈ t.store.issued → (raw', record') ∈ t.store.issued →
        p.store.tokenGen id = some n → record.generation ≤ n → record'.generation ≤ n →
          ¬ (out.accepts = some id ∧ out'.accepts = some id)) ∧
    ∀ (s : WorkerStore) (answer : (c : WorkerCmd) → c.Reply), (∀ c, s.replies c (answer c)) →
      ∀ rawToken id, (verifyToken sec ("Bearer " ++ rawToken)).eval answer = .ok id ↔
        (authenticateWsToken sec rawToken).eval answer = some id := by
  have hcheck : ∀ es p fs t i q out id, (identities sec).Run es p → (identities sec).Trace p fs t →
      p.tasks i = none → t.tasks i = some (q, .done out) → out.accepts = some id →
        ∃ rawToken record, q.presents = some rawToken ∧ record.workerId = id ∧
          AcceptedCheck sec i p fs record rawToken := by
    intro es p fs t i q out id hrun htrace hnew hdone hout
    exact accepts_of_finishes hinj hrun.reachable hout (Pool.finishes htrace hnew hdone)
  refine ⟨hcheck, ?_, ?_⟩
  · rintro es p fs t i j q q' out out' raw raw' record record' id n hrun htrace hi hj hdone
      hdone' hraw hraw'
      hne hissued hissued' hn hle hle' ⟨hout, hout'⟩
    have hdistinct := (generationsSound (hrun.extend htrace).reachable).distinct
    have hown : ∀ {k q out raw record}, p.tasks k = none → t.tasks k = some (q, .done out) →
        q.presents = some raw → (raw, record) ∈ t.store.issued → out.accepts = some id →
          record.workerId = id ∧ ReadLatest sec k p fs record raw := by
      intro k q out raw record hnew hdone hraw hissued hout
      obtain ⟨raw₀, record₀, hraw₀, hid, hchecked⟩ :=
        hcheck es p fs t k q out id hrun htrace hnew hdone hout
      obtain rfl : raw₀ = raw := Option.some.inj (hraw₀.symm.trans hraw)
      cases hdistinct _ (hchecked.latest.issued htrace) _ hissued rfl
      exact ⟨hid, hchecked.latest⟩
    obtain ⟨hid, hlatest⟩ := hown hi hdone hraw hissued hout
    obtain ⟨hid', hlatest'⟩ := hown hj hdone' hraw' hissued' hout'
    exact hne (eq_of_latest hrun htrace (hid.trans hid'.symm) hlatest hlatest' (hid ▸ hn) hle hle')
  · intro s answer _ rawToken id
    have hsame : authenticateWsToken sec rawToken =
        (verifyToken sec ("Bearer " ++ rawToken)).bind fun r => .done (Except.toOption r) := by
      rw [authenticateWsToken_eq, verifyToken_eq (bearerToken_append rawToken), checkToken_bind]
      rfl
    rw [hsame, eval_bind_done]
    cases (verifyToken sec ("Bearer " ++ rawToken)).eval answer <;> simp [Except.toOption]

end

namespace Demo

/-- A worker enrolls, refreshes its token and has it verified. -/
def tokenVerified : List (Pool.Move workerCommands WorkerStore WorkerRequest) :=
  [.start 0 (.register "secret"), served 0 worker,
   .start 1 (.refresh worker.str "secret"), served 1 worker, served 1 worker, served 1 worker,
   .start 2 (.verify "Bearer token"), served 2 worker, served 2 worker, served 2 worker,
     served 2 worker]

theorem hash_injective : Function.Injective security.hashCredential := by
  intro a b h
  have hchars := congrArg String.toList h
  exact String.toList_injective (by simpa [security] using hchars)

end Demo

/-- The token of the small deployment, as its check saw it. -/
theorem accepted_token_is_latest_verified :
    ∃ es t, (identities Demo.security).Run es t ∧ ∃ rawToken record,
      AcceptedCheck Demo.security 2 Demo.noRequests es record rawToken := by
  have hheader : bearerToken "Bearer token" = some "token" := by decide
  have hlive : ¬ (60 : Seconds) ≤ 0 := by norm_num
  have hplayable : Pool.Playable (workerStore Demo.security) (WorkerRequest.handler Demo.security)
      Demo.noRequests Demo.tokenVerified := by
    simp [Demo.tokenVerified, Pool.Playable, Demo.noRequests, Demo.served, WorkerRequest.handler,
      refreshToken, verifyToken, hheader, hlive, Demo.security, workerStore, WorkerStore.replies,
        WorkerStore.after,
      WorkerStore.answer, WorkerRow.hasCredential]
  have hrun : (identities Demo.security).Run [] Demo.noRequests :=
      System.Run.nil ⟨rfl, fun _ => rfl⟩
  have htrace : (identities Demo.security).Trace _ _ _ := Pool.play_trace hplayable
  have hdone : (Pool.play (workerStore Demo.security) (WorkerRequest.handler Demo.security)
      Demo.noRequests Demo.tokenVerified).2.tasks 2 =
        some (.verify "Bearer token", .done (.verified (.ok Demo.worker))) := by
    simp [Demo.tokenVerified, Pool.play, Demo.noRequests, Demo.served, WorkerRequest.handler,
      refreshToken, verifyToken, hheader, hlive, Demo.security, workerStore, WorkerStore.after,
      WorkerStore.answer, WorkerRow.hasCredential]
  obtain ⟨rawToken, record, -, -, hcheck⟩ :=
    (accepted_token_is_latest Demo.hash_injective).1 [] _ _ _ 2 _ _ _
    hrun htrace rfl hdone rfl
  exact ⟨_, _, hrun.extend htrace, rawToken, record, hcheck⟩

end TaskFleet.Model
