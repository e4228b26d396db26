import TaskFleet.Logic.WorkerWrites
import TaskFleet.Model.QueueRun

/-!
# Quarantine is sticky, up to stale commits

`_transition_status` leaves a quarantined worker alone if it finds it
quarantined. It reads the row without a lock and writes what it decided then, so
what counts is whether a revocation committed in between
(`quarantine_sticky_iff`).
-/

namespace TaskFleet.Model

open Py Handler

/-- The worker is quarantined. -/
def Quarantined (p : WorkerPool) (id : Uuid) : Prop :=
  ∃ row, p.store.workers id = some row ∧ row.status = .quarantined

/-- A transition is committed only over a row whose `revoked` is as it was
read. -/
def FreshCommit (p : WorkerPool) (e : WorkerEvent) : Prop :=
  ∀ i id loaded wanted, e = .reply i (.commitWorker id loaded wanted) () →
    wanted.status ≠ .quarantined → ∀ row, p.store.workers id = some row →
      row.revoked = loaded.revoked

/-- A quarantined row is a revoked one. -/
def WorkerRow.Sound (row : WorkerRow) : Prop := row.status = .quarantined → row.revoked = true

section

variable {sec : SecurityConfig} {p t : WorkerPool} {e : WorkerEvent} {es : List WorkerEvent}
  {id : Uuid} {loaded wanted row : WorkerRow}

/-! ## Commits -/

/-- A commit takes no revocation back. -/
theorem WorkerChange.revoked (h : WorkerChange loaded wanted) (hrow : row.revoked = true) :
    (loaded.flush wanted row).revoked = true := by
  cases h with
  | transition => simpa [WorkerRow.flush] using hrow
  | revoke =>
      simp only [WorkerRow.flush]
      split
      · exact hrow
      · rfl

/-- Where the row is at least as revoked as what was loaded, a commit leaves it
sound. -/
theorem WorkerChange.sound (h : WorkerChange loaded wanted)
    (hsince : loaded.revoked = true → row.revoked = true) : (loaded.flush wanted row).Sound := by
  cases h with
  | transition newStatus hne _ hnew =>
      intro hstatus
      simp only [WorkerRow.flush, if_neg (Ne.symm hne)] at hstatus
      exact absurd hstatus hnew
  | revoke =>
      intro _
      simp only [WorkerRow.flush]
      split
      · next hsame => exact hsince hsame.symm
      · rfl

/-- The rows are sound, and what a request is about to commit was loaded from a
sound row, that the row there is now is at least as revoked as. -/
structure WorkersSound (p : WorkerPool) : Prop where
  rows : ∀ id row, p.store.workers id = some row → row.Sound
  pending : ∀ i q h id loaded wanted, p.tasks i = some (q, h) →
    pendingWrite h = some (.commitWorker id loaded wanted) →
      WorkerChange loaded wanted ∧ loaded.Sound ∧
        ∃ row, p.store.workers id = some row ∧ (loaded.revoked = true → row.revoked = true)

/-- What a commit in a run does. -/
theorem WorkersSound.of_commit (h : WorkersSound p) (hs : (identities sec).step p e t) {i : ℕ}
    (he : e = .reply i (.commitWorker id loaded wanted) ()) :
    WorkerChange loaded wanted ∧ loaded.Sound ∧
      ∃ row, p.store.workers id = some row ∧ (loaded.revoked = true → row.revoked = true) := by
  obtain ⟨q, next, htask, -⟩ := pending_of_reply hs he
  exact h.pending i q _ id loaded wanted htask rfl

/-- **Every reachable state** keeps it so. -/
theorem workersSound (h : (identities sec).Reachable p) : WorkersSound p := by
  refine h.invariant (P := WorkersSound) ?_ ?_
  · rintro s ⟨hstore, hnone⟩
    refine ⟨fun id row hrow => ?_, fun i q h id loaded wanted htask => ?_⟩
    · rw [hstore] at hrow
      cases hrow
    · rw [hnone i] at htask
      cases htask
  · intro s e t hreach hsound hs
    have hforward : ∀ id row, s.store.workers id = some row →
        ∃ row', t.store.workers id = some row' ∧ (row.revoked = true → row'.revoked = true) := by
      intro id row hrow
      rcases row_kept hs hrow with hsame | ⟨i, loaded, wanted, he, hflush⟩
      · exact ⟨row, hsame, fun hrevoked => hrevoked⟩
      · exact ⟨_, hflush, fun hrevoked => (hsound.of_commit hs he).1.revoked hrevoked⟩
    refine ⟨fun id row hrow => ?_, fun i q h id loaded wanted htask hpending => ?_⟩
    · rcases row_step hs hrow with hold | ⟨-, hnew, -⟩ | ⟨i, loaded, wanted, old, he, hold, rfl⟩
      · exact hsound.rows id row hold
      · exact fun hstatus => (by rw [hnew] at hstatus; cases hstatus)
      · obtain ⟨hchange, -, row, hrow', hsince⟩ := hsound.of_commit hs he
        cases hold.symm.trans hrow'
        exact hchange.sound hsince
    · rcases pendingWrite_step hreach hs htask hpending with ⟨hold, -⟩ | ⟨c, r, rfl, hleads, hreply⟩
      · obtain ⟨hchange, hloaded, row, hrow, hsince⟩ :=
          hsound.pending i q h id loaded wanted hold hpending
        obtain ⟨row', hrow', hmore⟩ := hforward id row hrow
        exact ⟨hchange, hloaded, row', hrow', fun hl => hmore (hsince hl)⟩
      · cases c with
        | getWorker id' =>
            obtain ⟨rfl, hr, hchange⟩ := hleads
            have hrow : s.store.workers id' = some loaded := hr ▸ hreply.symm
            obtain ⟨row', hrow', hmore⟩ := hforward id' loaded hrow
            exact ⟨hchange, hsound.rows id' loaded hrow, row', hrow', hmore⟩
        | _ => exact hleads.elim

/-! ## The past of a row -/

/-- In every run, a revoked worker has been quarantined at some point. -/
theorem revoked_was_quarantined (h : (identities sec).Run es t) :
    ∀ id row, t.store.workers id = some row → row.revoked = true →
      ∃ as bs u, es = as ++ bs ∧ (identities sec).Run as u ∧ (identities sec).Trace u bs t ∧
        Quarantined u id := by
  refine h.invariant (I := fun es t => ∀ id row, t.store.workers id = some row →
    row.revoked = true →
    ∃ as bs u, es = as ++ bs ∧ (identities sec).Run as u ∧ (identities sec).Trace u bs t ∧
      Quarantined u id) ?_ ?_
  · rintro s ⟨hstore, -⟩ id row hrow
    rw [hstore] at hrow
    cases hrow
  · intro es s e t hrun ih hs id row hrow hrevoked
    have hearlier : ∀ old, s.store.workers id = some old → old.revoked = true →
        ∃ as bs u, es ++ [e] = as ++ bs ∧ (identities sec).Run as u ∧
          (identities sec).Trace u bs t ∧
          Quarantined u id := by
      intro old hold holdrevoked
      obtain ⟨as, bs, u, rfl, hu, htrace, hq⟩ := ih id old hold holdrevoked
      exact ⟨as, bs ++ [e], u, List.append_assoc .., hu, htrace.snoc hs, hq⟩
    rcases row_step hs hrow with hold | ⟨-, -, hnew⟩ | ⟨i, loaded, wanted, old, he, hold, rfl⟩
    · exact hearlier row hold hrevoked
    · rw [hnew] at hrevoked
      cases hrevoked
    · obtain ⟨hchange, hloaded, -⟩ := (workersSound hrun.reachable).of_commit hs he
      cases holdrevoked : old.revoked with
      | true => exact hearlier old hold holdrevoked
      | false =>
          -- the commit that revokes also quarantines
          refine ⟨es ++ [e], [], t, (List.append_nil _).symm, hrun.snoc hs, .nil, _, hrow, ?_⟩
          cases hchange with
          | transition => simp [WorkerRow.flush, holdrevoked] at hrevoked
          | revoke =>
              simp only [WorkerRow.flush] at hrevoked ⊢
              split at hrevoked
              · rw [holdrevoked] at hrevoked
                cases hrevoked
              · next hne =>
                  rw [if_neg fun hsame => hne (hloaded hsame.symm).symm]

/-- In every run, what a request is about to commit was the row at some point. -/
theorem pending_was_row (h : (identities sec).Run es t) :
    ∀ i q h id loaded wanted, t.tasks i = some (q, h) →
      pendingWrite h = some (.commitWorker id loaded wanted) →
        ∃ as bs u, es = as ++ bs ∧ (identities sec).Run as u ∧ (identities sec).Trace u bs t ∧
          u.store.workers id = some loaded := by
  refine h.invariant (I := fun es t => ∀ i q h id loaded wanted, t.tasks i = some (q, h) →
      pendingWrite h = some (.commitWorker id loaded wanted) →
        ∃ as bs u, es = as ++ bs ∧ (identities sec).Run as u ∧ (identities sec).Trace u bs t ∧
          u.store.workers id = some loaded) ?_ ?_
  · rintro s ⟨-, hnone⟩ i q h id loaded wanted htask
    rw [hnone i] at htask
    cases htask
  · intro es s e t hrun ih hs i q h id loaded wanted htask hpending
    rcases pendingWrite_step hrun.reachable hs htask hpending
      with ⟨hold, -⟩ | ⟨c, r, -, hleads, hreply⟩
    · obtain ⟨as, bs, u, rfl, hu, htrace, hrow⟩ := ih i q h id loaded wanted hold hpending
      exact ⟨as, bs ++ [e], u, List.append_assoc .., hu, htrace.snoc hs, hrow⟩
    · cases c with
      | getWorker id' =>
          obtain ⟨rfl, hr, -⟩ := hleads
          exact ⟨es, [e], s, rfl, hrun, .single hs, hr ▸ hreply.symm⟩
      | _ => exact hleads.elim

/-! ## Runs -/

/-- There is one initial state, so the events determine the state. -/
theorem run_unique (h : (identities sec).Run es p) (h' : (identities sec).Run es t) : p = t := by
  obtain ⟨⟨_, tasks⟩, ⟨hstore, hnone⟩, htrace⟩ := h
  obtain ⟨⟨_, tasks'⟩, ⟨hstore', hnone'⟩, htrace'⟩ := h'
  obtain rfl := hstore.trans hstore'.symm
  obtain rfl : tasks = tasks' := funext fun i => (hnone i).trans (hnone' i).symm
  exact htrace.unique Pool.deterministic t htrace'

/-- Along the events `es`, a quarantined worker stays quarantined. -/
def StaysQuarantined (sec : SecurityConfig) (es : List WorkerEvent) : Prop :=
  ∀ as bs cs u v id, es = as ++ bs ++ cs → (identities sec).Run as u →
    (identities sec).Trace u bs v →
    Quarantined u id → Quarantined v id

/-- A stale commit is what takes a worker out of quarantine. -/
theorem not_stays_of_stale (hrun : (identities sec).Run es p) (hs : (identities sec).step p e t)
    (hstale : ¬ FreshCommit p e) : ¬ StaysQuarantined sec (es ++ [e]) := by
  intro hstays
  obtain ⟨i, id, loaded, wanted, he, hwanted, row, hrow, hne⟩ : ∃ i id loaded wanted,
      e = .reply i (.commitWorker id loaded wanted) () ∧ wanted.status ≠ .quarantined ∧
        ∃ row, p.store.workers id = some row ∧ row.revoked ≠ loaded.revoked := by
    simpa only [FreshCommit, not_forall, exists_prop] using hstale
  obtain ⟨hchange, -, row', hrow', hsince⟩ := (workersSound hrun.reachable).of_commit hs he
  cases hrow.symm.trans hrow'
  have hrevoked : row.revoked = true := by
    cases h : row.revoked with
    | true => rfl
    | false =>
        cases hl : loaded.revoked with
        | false => exact absurd (h.trans hl.symm) hne
        | true => exact absurd (hsince hl) (by rw [h]; exact Bool.noConfusion)
  obtain ⟨as, bs, u, rfl, hu, htrace, hq⟩ := revoked_was_quarantined hrun id row hrow hrevoked
  obtain ⟨row'', hrow'', hstatus⟩ := hstays as (bs ++ [e]) [] u t id (by simp) hu
    (htrace.snoc hs) hq
  cases hrow''.symm.trans (row_committed hs he hrow)
  cases hchange with
  | revoke => exact hwanted rfl
  | transition newStatus hdiffers _ hnew =>
      simp only [WorkerRow.flush, if_neg (Ne.symm hdiffers)] at hstatus
      exact hnew hstatus

/-- Where commits have been fresh and quarantine has held, a fresh commit leaves
a quarantined worker quarantined. -/
theorem quarantined_step (hrun : (identities sec).Run es p) (hstays : StaysQuarantined sec es)
    (hs : (identities sec).step p e t) (hfresh : FreshCommit p e) (hq : Quarantined p id) :
    Quarantined t id := by
  obtain ⟨row, hrow, hstatus⟩ := hq
  rcases row_kept hs hrow with hsame | ⟨i, loaded, wanted, he, hflush⟩
  · exact ⟨row, hsame, hstatus⟩
  · have hsound := workersSound hrun.reachable
    obtain ⟨hchange, -⟩ := hsound.of_commit hs he
    cases hchange with
    | revoke =>
        refine ⟨_, hflush, ?_⟩
        simp only [WorkerRow.flush]
        split
        · exact hstatus
        · rfl
    | transition newStatus _ hloaded hnew =>
        -- a row that was read revoked had left quarantine before it was read
        exfalso
        have hrevoked : loaded.revoked = true := by
          rw [← hfresh i id loaded _ he hnew row hrow]
          exact hsound.rows id row hrow hstatus
        obtain ⟨q, next, htask, -⟩ := pending_of_reply hs he
        obtain ⟨as, bs, u, rfl, hu, htrace, hread⟩ :=
          pending_was_row hrun i q _ id loaded _ htask rfl
        obtain ⟨as', bs', u', rfl, hu', htrace', hq'⟩ :=
          revoked_was_quarantined hu id loaded hread hrevoked
        obtain ⟨row', hrow', hstatus'⟩ := hstays as' bs' bs u' u id rfl hu' htrace' hq'
        cases hrow'.symm.trans hread
        exact hloaded hstatus'

/-- One more event keeps the runs so far sticky exactly if it is no stale
commit. -/
theorem stays_snoc_iff (hrun : (identities sec).Run es p) (hs : (identities sec).step p e t)
    (hstays : StaysQuarantined sec es) : StaysQuarantined sec (es ++ [e]) ↔ FreshCommit p e := by
  refine ⟨fun h => not_not.mp fun hstale => not_stays_of_stale hrun hs hstale h, fun hfresh => ?_⟩
  intro as bs cs u v id hsplit hu htrace hq
  rcases List.eq_nil_or_concat cs with rfl | ⟨cs', c, rfl⟩
  · rcases List.eq_nil_or_concat bs with rfl | ⟨bs', b, rfl⟩
    · rw [htrace.eq_of_nil]
      exact hq
    · rw [List.append_nil, List.concat_eq_append, ← List.append_assoc] at hsplit
      obtain ⟨rfl, he⟩ := List.append_inj' hsplit rfl
      obtain rfl : e = b := by simpa using he
      rw [List.concat_eq_append] at htrace
      obtain ⟨w, hleft, hlast⟩ := htrace.last
      obtain rfl := run_unique (hu.extend hleft) hrun
      exact quarantined_step hrun hstays hlast hfresh
        (hstays as bs' [] u w id (by simp) hu hleft hq)
  · rw [List.concat_eq_append, ← List.append_assoc] at hsplit
    obtain ⟨rfl, -⟩ := List.append_inj' hsplit rfl
    exact hstays as bs cs' u v id rfl hu htrace hq

/-- **Quarantine is sticky exactly up to stale commits.** Along a run of the
identity service, whatever requests interleave on whatever replicas, no worker
ever leaves quarantine exactly if no `_transition_status` commits over a
revocation that came after its read. -/
theorem quarantine_sticky_iff {p₀ : WorkerPool} (hinit : (identities sec).init p₀)
    (h : (identities sec).Trace p₀ es t) :
    ((identities sec).guarded FreshCommit).Trace p₀ es t ↔
      ∀ as bs cs u v id, es = as ++ bs ++ cs → (identities sec).Trace p₀ as u →
        (identities sec).Trace u bs v → Quarantined u id → Quarantined v id := by
  have hstart : ∀ as u, (identities sec).Run as u → (identities sec).Trace p₀ as u := by
    rintro as u ⟨p₁, hp₁, htrace⟩
    rwa [run_unique (System.Run.nil hinit) (System.Run.nil hp₁)]
  have hempty : ∀ p, (identities sec).init p → StaysQuarantined sec [] := by
    intro p _ as bs cs u v id hsplit hu htrace hq
    obtain ⟨rfl, rfl, rfl⟩ : as = [] ∧ bs = [] ∧ cs = [] := by simpa using hsplit
    rw [htrace.eq_of_nil]
    exact hq
  refine (System.Trace.guarded_iff_history (S := identities sec)
    (P := fun es _ => StaysQuarantined sec es)
    Pool.deterministic hempty (fun _ _ _ _ hrun hs => stays_snoc_iff hrun hs) hinit h).trans
      ⟨?_, ?_⟩
  · intro hall as bs cs u v id hsplit hu htrace hq
    exact hall es [] t (List.append_nil _).symm h as bs cs u v id hsplit ⟨p₀, hinit, hu⟩ htrace hq
  · intro hall as bs u hsplit _ as' bs' cs' u' v' id hsplit' hu' htrace' hq'
    exact hall as' bs' (cs' ++ bs) u' v' id (by rw [hsplit, hsplit']; simp) (hstart as' u' hu')
      htrace' hq'

end

namespace Demo

/-- A worker that is being revoked just as it connects: the handshake has read
the row, then the revocation commits. -/
def revokedWhileConnecting : List (Pool.Move workerCommands WorkerStore WorkerRequest) :=
  [.start 0 (.register "secret"), served 0 worker,
   .start 1 (.transition worker .wsAuthenticated), served 1 worker,
   .start 2 (.revoke worker.str "admin"), served 2 worker, served 2 worker]

/-- The handshake commits. -/
def thenConnecting : List (Pool.Move workerCommands WorkerStore WorkerRequest) := [served 1 worker]

/-- The state between the two. -/
def revokedPool : WorkerPool :=
  (Pool.play (workerStore security) (WorkerRequest.handler security) noRequests
    revokedWhileConnecting).2

theorem revokedPool_trace :
    ∃ es, (identities security).Trace noRequests es revokedPool := by
  have hplayable : Pool.Playable (workerStore security) (WorkerRequest.handler security) noRequests
      revokedWhileConnecting := by
    simp [revokedWhileConnecting, Pool.Playable, noRequests, served, WorkerRequest.handler,
      transitionStatus,
      revokeWorker, security, workerStore, WorkerStore.replies, WorkerStore.after,
        WorkerStore.answer,
      Trigger.newStatus]
  exact ⟨_, Pool.play_trace hplayable⟩

theorem revokedPool_quarantined : Quarantined revokedPool worker := by
  simp [Quarantined, revokedPool, revokedWhileConnecting, Pool.play, noRequests, served,
    WorkerRequest.handler, transitionStatus, revokeWorker, security, workerStore, WorkerStore.after,
    WorkerStore.answer, WorkerRow.flush, Trigger.newStatus]

/-- The commit of the handshake ends the quarantine. -/
theorem revokedPool_lifted :
    ∃ es v, (identities security).Trace revokedPool es v ∧ ¬ Quarantined v worker := by
  have hplayable : Pool.Playable (workerStore security) (WorkerRequest.handler security) revokedPool
      thenConnecting := by
    simp [thenConnecting, revokedPool, revokedWhileConnecting, Pool.play, Pool.Playable,
      noRequests, served,
      WorkerRequest.handler, transitionStatus, revokeWorker, security, workerStore,
        WorkerStore.replies,
      WorkerStore.after, WorkerStore.answer, Trigger.newStatus]
  refine ⟨_, _, Pool.play_trace hplayable, ?_⟩
  simp [Quarantined, thenConnecting, revokedPool, revokedWhileConnecting, Pool.play,
    noRequests, served,
    WorkerRequest.handler, transitionStatus, revokeWorker, security, workerStore, WorkerStore.after,
    WorkerStore.answer, WorkerRow.flush, Trigger.newStatus]

end Demo

/-- The handshake of the small deployment is not fresh when it commits. -/
theorem quarantine_sticky_iff_revoked :
    ∃ es v, (identities Demo.security).Trace Demo.noRequests es v ∧
      ¬ ((identities Demo.security).guarded FreshCommit).Trace Demo.noRequests es v := by
  obtain ⟨es, htrace⟩ := Demo.revokedPool_trace
  obtain ⟨fs, v, hlast, hlifted⟩ := Demo.revokedPool_lifted
  refine ⟨es ++ fs, v, htrace.append hlast, fun hguarded => hlifted ?_⟩
  exact (quarantine_sticky_iff ⟨rfl, fun _ => rfl⟩ (htrace.append hlast)).mp hguarded es fs [] _ v _
    (List.append_nil _).symm htrace hlast Demo.revokedPool_quarantined

/-- **A stale handshake lifts a quarantine.** The handshake of a worker read its
row before the revocation committed, and commits `CONNECTING` after it. -/
theorem stale_handshake_lifts_quarantine :
    ∃ es u fs v, (identities Demo.security).Run es u ∧ (identities Demo.security).Trace u fs v ∧
      Quarantined u Demo.worker ∧ ¬ Quarantined v Demo.worker := by
  obtain ⟨es, htrace⟩ := Demo.revokedPool_trace
  obtain ⟨fs, v, hlast, hlifted⟩ := Demo.revokedPool_lifted
  exact ⟨es, _, fs, v, ⟨_, ⟨rfl, fun _ => rfl⟩, htrace⟩, hlast,
    Demo.revokedPool_quarantined, hlifted⟩

end TaskFleet.Model
