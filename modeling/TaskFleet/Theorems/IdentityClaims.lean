import TaskFleet.Lib.LastWriter
import TaskFleet.Logic.PresenceSteps

/-!
# An identity is active once

A worker that starts claims its identity for a while, and one that stops gives the claim back.
The claim in Redis is what the last grant or release left (`claims_eq`), so an identity is
granted to one caller at a time: until its time is over, or somebody with the credential
releases it, every other caller is refused, and nobody is refused for any other reason
(`identity_claims`).
-/

namespace TaskFleet.Model

open Py Handler

/-- What an event does to the claim of an identity: it grants it, at a time, or releases it. -/
def claimWrite (id : Uuid) : PresenceEvent → Option (Option Seconds)
  | .reply _ (.setClaim claimed _) (true, now) => if claimed = id then some (some now) else none
  | .reply _ (.deleteClaim released) _ => if released = id then some none else none
  | _ => none

/-- When the identity was last granted, if it has not been released since. -/
def outstandingGrant (id : Uuid) (es : List PresenceEvent) : Option Seconds :=
  lastWritten (claimWrite id) none es

/-- The request read the row in the events. -/
def ReadRow (i : ℕ) (id : Uuid) (row : WorkerRow) (es : List PresenceEvent) : Prop :=
  .reply i (.worker (.getWorker id)) (some row) ∈ es

section

variable {cfg : PresenceSettings} {p t u : PresencePool} {e : PresenceEvent}
  {es : List PresenceEvent} {i : ℕ} {id : Uuid}

/-! ## The claim -/

/-- A claim with its time to live. -/
def claimEntry (cfg : PresenceSettings) (granted : Option Seconds) : Option (Unit × Seconds) :=
  granted.map fun now => ((), now + cfg.workerClaimTtlSeconds)

theorem claims_step (hs : (presence cfg).step p e t) : t.store.claims id =
    ((claimWrite id e).map (claimEntry cfg)).getD (p.store.claims id) := by
  cases hs with
  | start => rfl
  | @reply j q c next r htask hreply =>
      cases c with
      | setClaim claimed nx =>
          obtain ⟨granted, now⟩ := r
          cases granted with
          | false => rfl
          | true =>
              by_cases hid : claimed = id
              · subst hid
                simp [presenceStore, PresenceStore.after, claimWrite, claimEntry]
              · simp [presenceStore, PresenceStore.after, claimWrite, hid,
                  ExpiringKeys.put_of_ne (Ne.symm hid)]
      | deleteClaim released =>
          by_cases hid : released = id
          · subst hid
            simp [presenceStore, PresenceStore.after, claimWrite, claimEntry]
          · simp [presenceStore, PresenceStore.after, claimWrite, hid,
              ExpiringKeys.drop_of_ne (Ne.symm hid)]
      | _ => rfl

/-- **The claim in Redis** is what the last grant or release left. -/
theorem claims_eq (h : (presence cfg).Run es p) :
    p.store.claims id = claimEntry cfg (outstandingGrant id es) := by
  obtain ⟨s, ⟨hinit, -⟩, htrace⟩ := h
  have hnone : s.store.claims id = claimEntry cfg none := by
    rw [hinit]
    rfl
  have hlast : p.store.claims id = lastWritten _ (s.store.claims id) es :=
    htrace.lastWritten fun _ _ _ hs => claims_step hs
  rw [hlast, hnone, lastWritten_map, outstandingGrant]

/-- Whether a claim is set depends on the grant that is outstanding. -/
theorem setClaim_iff (h : (presence cfg).Run es p) {granted : Bool} {now : Seconds}
    (hreply : (presenceStore cfg).replies p.store (.setClaim id true) (granted, now)) :
    now = p.store.clock ∧ (granted = true ↔
      ∀ before, outstandingGrant id es = some before →
        before + (cfg.workerClaimTtlSeconds : Seconds) ≤ now) := by
  obtain ⟨hnow, hgranted⟩ := hreply
  refine ⟨hnow, ?_⟩
  rw [hgranted, Bool.not_true, Bool.false_or, Option.isNone_iff_eq_none,
    ExpiringKeys.live_eq_none_iff, claims_eq h, hnow]
  cases outstandingGrant id es with
  | none => simp [claimEntry]
  | some before => simp [claimEntry]

/-- A grant that is not released is outstanding, or a later one is. -/
theorem granted_trace {before : Seconds} {mid : List PresenceEvent}
    (hgrant : outstandingGrant id es = some before) (hclock : before ≤ p.store.clock)
    (h : (presence cfg).Trace p mid t) (hkept : ∀ k, .reply k (.deleteClaim id) () ∉ mid) :
    ∃ after, outstandingGrant id (es ++ mid) = some after ∧ before ≤ after := by
  induction h with
  | nil => exact ⟨before, by rw [List.append_nil]; exact hgrant, le_rfl⟩
  | @snoc mid u t e htrace hs ih =>
      obtain ⟨after, hafter, hle⟩ := ih fun k hmem => hkept k (List.mem_append_left _ hmem)
      rw [← List.append_assoc, outstandingGrant, lastWritten_snoc]
      cases hwrite : claimWrite id e with
      | none => exact ⟨after, hafter, hle⟩
      | some value =>
          cases hs with
          | start => cases hwrite
          | @reply j q c next r htask hreply =>
              cases c with
              | setClaim claimed nx =>
                  obtain ⟨granted, now⟩ := r
                  cases granted with
                  | false => cases hwrite
                  | true =>
                      simp only [claimWrite] at hwrite
                      split at hwrite
                      · obtain rfl := Option.some.inj hwrite
                        obtain ⟨hnow, -⟩ := hreply
                        exact ⟨now, rfl, hnow ▸ hclock.trans (clock_trace htrace)⟩
                      · cases hwrite
              | deleteClaim released =>
                  simp only [claimWrite] at hwrite
                  split at hwrite
                  · next hid =>
                      subst hid
                      exact absurd (List.mem_append_right mid (List.mem_singleton.mpr rfl))
                        (hkept j)
                  · cases hwrite
              | _ => cases hwrite

/-! ## How a request gets to its reply -/

/-- Request `i`, of which `h` is left, replies to a registration. -/
abbrev Replies (cfg : PresenceSettings) (i : ℕ) (h : PresenceHandler RegisterReply)
    (p : PresencePool) (es : List PresenceEvent) (reply : RegisterReply) : Prop :=
  Pool.Finishes (presenceStore cfg) (PresenceRequest.handler cfg) (· = {}) i
    (h.bind fun a => .done (PresenceOutcome.register a)) p es (.register reply)

/-- An enrollment presents no identity. -/
theorem enrollWorker_replies {secret rawCredential : String} {reply : RegisterReply}
    (hf : Replies cfg i (enrollWorker cfg secret rawCredential) p es reply) :
    reply ≠ .alreadyActive ∧ ∀ id, reply ≠ .reaffirmed id := by
  unfold enrollWorker at hf
  split at hf
  · cases hf
    exact ⟨RegisterReply.noConfusion, fun _ => RegisterReply.noConfusion⟩
  · split at hf
    · cases hf
      exact ⟨RegisterReply.noConfusion, fun _ => RegisterReply.noConfusion⟩
    · cases hf
      exact ⟨RegisterReply.noConfusion, fun _ => RegisterReply.noConfusion⟩
    · obtain ⟨_, _, _, _, _, -, -, -, -, _, _, _, _, _, -, -, -, -, hf⟩ := hf
      cases hf
      exact ⟨RegisterReply.noConfusion, fun _ => RegisterReply.noConfusion⟩

/-- The claim of a request that got so far, in the events it got there by. -/
structure ClaimExchange (cfg : PresenceSettings) (i : ℕ) (workerId credential : String)
    (p : PresencePool) (es : List PresenceEvent) (reply : RegisterReply) (id : Uuid)
    (granted : Bool) (now : Seconds) (as : List PresenceEvent) : Prop where
  parsed : Uuid.parse workerId = some id
  row : ∃ row, ReadRow i id row as ∧ row.revoked = false ∧
    row.hasCredential cfg.toSecurityConfig credential = true
  claimed : ∃ bs u, es = as ++ .reply i (.setClaim id true) (granted, now) :: bs ∧
    (presence cfg).Trace p as u ∧
    (presenceStore cfg).replies u.store (.setClaim id true) (granted, now)
  reply_eq : reply = if granted then .reaffirmed id else .alreadyActive

/-- A presented identity that is not refused as invalid got as far as the claim. -/
theorem reaffirmWorker_replies {workerId credential : String} {reply : RegisterReply}
    (hf : Replies cfg i (reaffirmWorker cfg workerId credential) p es reply)
    (hvalid : reply ≠ .invalidIdentity) :
    ∃ id granted now as, ClaimExchange cfg i workerId credential p es reply id granted now as := by
  cases hid : Uuid.parse workerId with
  | none =>
      simp only [Replies, reaffirmWorker, hid] at hf
      cases hf
      exact absurd rfl hvalid
  | some id =>
      rw [Replies, reaffirmWorker_eq hid] at hf
      obtain ⟨row, as, bs, u, u', rfl, hread, hreadStep, -, hf⟩ := hf
      cases row with
      | none =>
          cases hf
          exact absurd rfl hvalid
      | some row =>
          dsimp only at hf
          split at hf
          · cases hf
            exact absurd rfl hvalid
          · next haccepted =>
              simp only [Bool.or_eq_true, Bool.not_eq_true', not_or, Bool.not_eq_true,
                Bool.not_eq_false] at haccepted
              obtain ⟨claimSet, as', bs', v, v', rfl, hclaim, -, hclaimed, hf⟩ := hf
              obtain ⟨granted, now⟩ := claimSet
              refine ⟨id, granted, now, as ++ .reply i (.worker (.getWorker id)) (some row) :: as',
                hid, ⟨row, by simp [ReadRow], haccepted⟩, ⟨bs', v, by simp, ?_, hclaimed⟩, ?_⟩
              · exact hread.append (.cons hreadStep hclaim)
              · cases granted with
                | false =>
                    cases hf
                    rfl
                | true =>
                    obtain ⟨_, _, _, _, _, -, -, -, -, hf⟩ := hf
                    cases hf
                    rfl

/-- What came before does not matter to it. -/
theorem ClaimExchange.append {workerId credential : String} {reply : RegisterReply}
    {granted : Bool} {now : Seconds} {as bs : List PresenceEvent}
    (htrace : (presence cfg).Trace p es t)
    (hc : ClaimExchange cfg i workerId credential t bs reply id granted now as) :
    ClaimExchange cfg i workerId credential p (es ++ bs) reply id granted now (es ++ as) := by
  obtain ⟨hparsed, ⟨row, hread, hrow⟩, ⟨cs, u, rfl, hbefore, hclaimed⟩, hreply⟩ := hc
  exact ⟨hparsed, ⟨row, List.mem_append_right _ hread, hrow⟩,
    ⟨cs, u, by simp, htrace.append hbefore, hclaimed⟩, hreply⟩

/-- A reaffirmation, or a refusal for an active identity, goes by one exchange with Redis. -/
theorem claim_exchange {s : PresencePool} (hinit : (presence cfg).init s)
    (htrace : (presence cfg).Trace s es p) {body : RegisterRequest} {rawCredential : String}
    {reply : RegisterReply}
    (hdone : p.tasks i = some (.register body rawCredential, .done (.register reply)))
    (hreply : reply = .alreadyActive ∨ ∃ id, reply = .reaffirmed id) :
    ∃ id granted now as, ClaimExchange cfg i (body.workerId.getD "")
      (body.workerCredential.getD "") s es reply id granted now as := by
  have hf : Replies cfg i (registerWorker cfg body rawCredential) s es reply :=
    Pool.finishes htrace (hinit.2 i) hdone
  rw [Replies, registerWorker_eq] at hf
  obtain ⟨limited, as, bs, u, u', rfl, hbefore, hstep, -, hf⟩ := hf
  dsimp only at hf
  split at hf
  · cases hf
    rcases hreply with hreply | ⟨_, hreply⟩ <;> cases hreply
  · split at hf
    · have hvalid : reply ≠ .invalidIdentity := by
        rintro rfl
        rcases hreply with hreply | ⟨_, hreply⟩ <;> cases hreply
      obtain ⟨id, granted, now, cs, hc⟩ := reaffirmWorker_replies hf hvalid
      have hall := hc.append (hbefore.snoc hstep)
      rw [List.append_assoc] at hall
      exact ⟨id, granted, now, _, hall⟩
    · obtain ⟨hactive, hreaffirmed⟩ := enrollWorker_replies hf
      rcases hreply with hreply | ⟨id, hreply⟩
      · exact absurd hreply hactive
      · exact absurd hreply (hreaffirmed id)

/-- A deletion comes from a release whose caller showed the credential. -/
theorem deletion_released {s : PresencePool} (hinit : (presence cfg).init s)
    (htrace : (presence cfg).Trace s es p)
    (hs : (presence cfg).step p (.reply i (.deleteClaim id) ()) t) :
    ∃ body row, .start i (.release body) ∈ es ∧ Uuid.parse body.workerId = some id ∧
      ReadRow i id row es ∧
      row.hasCredential cfg.toSecurityConfig body.workerCredential = true := by
  cases hs with
  | @reply _ q _ next _ htask _ =>
      have hcourse := Pool.course htrace (hinit.2 i) htask
      have hstart := Pool.started htrace (hinit.2 i) htask
      obtain ⟨body, rfl⟩ := (hcourse.sends (sends_request q)).1
      simp only [PresenceRequest.handler, map_eq_bind] at hcourse
      cases hid : Uuid.parse body.workerId with
      | none =>
          simp only [releaseWorker, hid] at hcourse
          cases Pool.course_done hcourse
      | some id' =>
          rw [releaseWorker_eq hid, bind_send] at hcourse
          obtain ⟨hawaits, -⟩ | ⟨row, as, bs, u, u', rfl, -, -, -, hcourse⟩ :=
            Pool.course_send hcourse
          · cases hawaits
          cases row with
          | none => cases Pool.course_done hcourse
          | some row =>
              dsimp only at hcourse
              split at hcourse
              · next hcredential =>
                  obtain ⟨hawaits, -⟩ | ⟨_, _, _, _, _, rfl, -, -, -, hcourse⟩ :=
                    Pool.course_send hcourse
                  · cases hawaits
                    exact ⟨body, row, hstart, hid, by simp [ReadRow], hcredential⟩
                  · cases Pool.course_done hcourse
              · cases Pool.course_done hcourse

/-! ## The theorem -/

/-- **An identity is active once.** A caller is reaffirmed only for the credential of an
unrevoked row, and only if the grant before it has run out or been given back; a caller is
refused as active only while a grant is outstanding. Of a grant (by an enrollment or a
reaffirmation) and a later reaffirmation the second comes after the first has run out, or was
released in between: the claim of an enrollment is of a new identity, so no other grant can be
the second. What deletes a claim is a release by a caller that has the credential, nothing
else. -/
theorem identity_claims (h : (presence cfg).Run es p) :
    (∀ i body rawCredential id,
      p.tasks i = some (.register body rawCredential, .done (.register (.reaffirmed id))) →
      ∃ as bs now row, es = as ++ .reply i (.setClaim id true) (true, now) :: bs ∧
        Uuid.parse (body.workerId.getD "") = some id ∧ ReadRow i id row as ∧
        row.revoked = false ∧
        row.hasCredential cfg.toSecurityConfig (body.workerCredential.getD "") = true ∧
        ∀ before, outstandingGrant id as = some before →
          before + (cfg.workerClaimTtlSeconds : Seconds) ≤ now) ∧
    (∀ i body rawCredential,
      p.tasks i = some (.register body rawCredential, .done (.register .alreadyActive)) →
      ∃ id as bs now before, es = as ++ .reply i (.setClaim id true) (false, now) :: bs ∧
        Uuid.parse (body.workerId.getD "") = some id ∧ outstandingGrant id as = some before ∧
        now < before + (cfg.workerClaimTtlSeconds : Seconds)) ∧
    (∀ as bs cs i j id nx now now',
      es = as ++ .reply i (.setClaim id nx) (true, now) :: bs ++
        .reply j (.setClaim id true) (true, now') :: cs →
      now + (cfg.workerClaimTtlSeconds : Seconds) ≤ now' ∨
        ∃ k, .reply k (.deleteClaim id) () ∈ bs) ∧
    ∀ as bs i id, es = as ++ .reply i (.deleteClaim id) () :: bs →
      ∃ body row, .start i (.release body) ∈ as ∧ Uuid.parse body.workerId = some id ∧
        ReadRow i id row as ∧
        row.hasCredential cfg.toSecurityConfig body.workerCredential = true := by
  obtain ⟨s, hinit, htrace⟩ := h
  refine ⟨?_, ?_, ?_, ?_⟩
  · intro i body rawCredential id hdone
    obtain ⟨id', granted, now, as, hparsed, ⟨row, hrow⟩, ⟨bs, u, hes, hbefore, hclaimed⟩, hreply⟩ :=
      claim_exchange hinit htrace hdone (.inr ⟨_, rfl⟩)
    cases granted with
    | false => cases hreply
    | true =>
        cases hreply
        obtain ⟨-, hgranted⟩ := setClaim_iff ⟨s, hinit, hbefore⟩ hclaimed
        exact ⟨as, bs, now, row, hes, hparsed, hrow.1, hrow.2.1, hrow.2.2, hgranted.mp rfl⟩
  · intro i body rawCredential hdone
    obtain ⟨id', granted, now, as, hparsed, -, ⟨bs, u, hes, hbefore, hclaimed⟩, hreply⟩ :=
      claim_exchange hinit htrace hdone (.inl rfl)
    cases granted with
    | true => cases hreply
    | false =>
        obtain ⟨-, hgranted⟩ := setClaim_iff ⟨s, hinit, hbefore⟩ hclaimed
        have hactive : ¬ ∀ before, outstandingGrant id' as = some before →
            before + (cfg.workerClaimTtlSeconds : Seconds) ≤ now :=
          fun hfree => Bool.false_ne_true (hgranted.mpr hfree)
        push Not at hactive
        obtain ⟨before, houtstanding, hnow⟩ := hactive
        exact ⟨id', as, bs, now, before, hes, hparsed, houtstanding, hnow⟩
  · rintro as bs cs i j id nx now now' rfl
    by_cases hreleased : ∃ k, .reply k (.deleteClaim id) () ∈ bs
    · exact .inr hreleased
    refine .inl ?_
    obtain ⟨v, v', hleft, hsecond, -⟩ := htrace.at_event
    obtain ⟨u, u', hbefore, hfirst, hmid⟩ := hleft.at_event
    have hclock : now ≤ u'.store.clock := by
      obtain ⟨hnow, -⟩ : (presenceStore cfg).replies u.store (.setClaim id nx) (true, now) := by
        cases hfirst
        assumption
      exact hnow ▸ clock_step hfirst
    have hgrant : outstandingGrant id
        (as ++ [.reply i (.setClaim id nx) (true, now)]) = some now := by
      rw [outstandingGrant, lastWritten_snoc]
      simp [claimWrite]
    obtain ⟨after, hafter, hle⟩ := granted_trace hgrant hclock hmid fun k hk => hreleased ⟨k, hk⟩
    have hreplies : (presenceStore cfg).replies v.store (.setClaim id true) (true, now') := by
      cases hsecond
      assumption
    obtain ⟨-, hgranted⟩ := setClaim_iff ⟨s, hinit, hleft⟩ hreplies
    rw [List.append_assoc, List.singleton_append] at hafter
    exact (add_le_add_left hle _).trans (hgranted.mp rfl after hafter)
  · rintro as bs i id rfl
    obtain ⟨u, u', hbefore, hstep, -⟩ := htrace.at_event
    exact deletion_released hinit hbefore hstep

end

namespace Demo

/-- What a worker presents that starts a second time. -/
def presented : RegisterRequest :=
    { workerId := some worker.str, workerCredential := some "secret" }

/-- A worker enrolls, and starts a second time while it is still there. -/
def startedTwice : List (Pool.Move presenceCommands PresenceStore PresenceRequest) :=
  let served (i : ℕ) := .answer i (PresenceStore.answer worker [])
  [.start 0 (.register { enrollmentSecret := some "join" } "secret"), served 0, served 0, served 0,
   .start 1 (.register presented ""), served 1, served 1, served 1]

/-- Then it stops, and starts again. -/
def startedAgain : List (Pool.Move presenceCommands PresenceStore PresenceRequest) :=
  let served (i : ℕ) := .answer i (PresenceStore.answer worker [])
  [.start 2 (.release ⟨worker.str, "secret"⟩), served 2, served 2,
   .start 3 (.register presented ""), served 3, served 3, served 3, served 3]

/-- Where the second start leaves the deployment. -/
structure Refused (p : PresencePool) : Prop where
  active : p.tasks 1 = some (.register presented "", .done (.register .alreadyActive))
  free : p.tasks 2 = none ∧ p.tasks 3 = none
  row : ∃ row, p.store.identities.workers worker = some row ∧ row.revoked = false ∧
    row.hasCredential security "secret" = true

theorem startedTwice_run : ∃ es p, (presence presenceSettings).Run es p ∧ Refused p := by
  have henrolled : compareDigest "join" "join" = some true := by decide
  have hpresented : worker.str ≠ "" := by decide
  have hparsed : Uuid.parse worker.str = some worker := Uuid.parse_str _
  have hplayable : Pool.Playable (presenceStore presenceSettings)
      (PresenceRequest.handler presenceSettings) nobodyThere startedTwice := by
    simp [startedTwice, Pool.Playable, nobodyThere, PresenceRequest.handler,
      registerWorker_eq, reaffirmWorker_eq hparsed, enrollWorker, presented, henrolled,
      hpresented, PresenceSettings.verifyEnrollmentSecret, presenceSettings, security,
      presenceStore, PresenceStore.replies, PresenceStore.after, PresenceStore.answer,
      WorkerStore.replies, WorkerStore.after, WorkerStore.answer, WorkerRow.hasCredential]
  refine ⟨_, _, ⟨nobodyThere, ⟨rfl, fun _ => rfl⟩, Pool.play_trace hplayable⟩, ?_⟩
  constructor <;>
    simp [startedTwice, Pool.play, nobodyThere, PresenceRequest.handler,
      registerWorker_eq, reaffirmWorker_eq hparsed, enrollWorker, presented, henrolled,
      hpresented, PresenceSettings.verifyEnrollmentSecret, presenceSettings, security,
      presenceStore, PresenceStore.after, PresenceStore.answer, WorkerStore.after,
      WorkerStore.answer, WorkerRow.hasCredential, ExpiringKeys.live]

theorem startedAgain_trace {p : PresencePool} (h : Refused p) :
    ∃ es p', (presence presenceSettings).Trace p es p' ∧ p'.tasks 1 = p.tasks 1 ∧
      p'.tasks 3 = some (.register presented "", .done (.register (.reaffirmed worker))) := by
  obtain ⟨-, ⟨hfree2, hfree3⟩, row, hrow, hrevoked, hcredential⟩ := h
  have hpresented : worker.str ≠ "" := by decide
  have hparsed : Uuid.parse worker.str = some worker := Uuid.parse_str _
  have hnamed : Uuid.parse (ReleaseRequest.mk worker.str "secret").workerId = some worker := hparsed
  have hplayable : Pool.Playable (presenceStore presenceSettings)
      (PresenceRequest.handler presenceSettings) p startedAgain := by
    simp [startedAgain, Pool.Playable, hfree2, hfree3, PresenceRequest.handler,
      registerWorker_eq, reaffirmWorker_eq hparsed, releaseWorker_eq hnamed, presented, hrow,
      hrevoked, hcredential, hpresented, presenceSettings, presenceStore,
      PresenceStore.replies, PresenceStore.after, PresenceStore.answer,
      WorkerStore.replies, WorkerStore.after, WorkerStore.answer, ExpiringKeys.live]
  refine ⟨_, _, Pool.play_trace hplayable, ?_⟩
  simp [startedAgain, Pool.play, PresenceRequest.handler,
    registerWorker_eq, reaffirmWorker_eq hparsed, releaseWorker_eq hnamed, presented, hrow,
    hrevoked, hcredential, hpresented, presenceSettings, presenceStore,
    PresenceStore.after, PresenceStore.answer, WorkerStore.after, WorkerStore.answer,
    ExpiringKeys.live]

end Demo

/-- The second start is refused for the claim of the first; the third is let in, for the claim
was released in between. -/
theorem identity_claims_started_again : ∃ es p, (presence Demo.presenceSettings).Run es p ∧
    (∃ id as bs now before, es = as ++ .reply 1 (.setClaim id true) (false, now) :: bs ∧
      outstandingGrant id as = some before ∧ now < before + 10) ∧
    ∃ as bs now row, es = as ++ .reply 3 (.setClaim Demo.worker true) (true, now) :: bs ∧
      ReadRow 3 Demo.worker row as ∧ row.revoked = false ∧
      ∀ before, outstandingGrant Demo.worker as = some before → before + 10 ≤ now := by
  obtain ⟨es, p, hrun, hrefused⟩ := Demo.startedTwice_run
  obtain ⟨fs, p', htrace, hkept, hdone⟩ := Demo.startedAgain_trace hrefused
  have hrun' := hrun.extend htrace
  obtain ⟨hreaffirmed, hactive, -, -⟩ := identity_claims hrun'
  refine ⟨_, p', hrun', ?_, ?_⟩
  · obtain ⟨id, as, bs, now, before, hes, -, hbefore, hnow⟩ :=
      hactive 1 _ _ (hkept.trans hrefused.active)
    exact ⟨id, as, bs, now, before, hes, hbefore, hnow⟩
  · obtain ⟨as, bs, now, row, hes, -, hread, hrevoked, -, hfree⟩ := hreaffirmed 3 _ _ _ hdone
    exact ⟨as, bs, now, row, hes, hread, hrevoked, hfree⟩

end TaskFleet.Model
