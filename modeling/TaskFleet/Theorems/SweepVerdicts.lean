import TaskFleet.Logic.Heartbeats

/-!
# What the sweep makes of a silence

The sweep goes over the workers that are thought to be there, one Redis lookup and one status
write at a time, while sessions come and go. As long as a worker has one session at a time, and
everybody goes by one clock, it takes down no worker whose last heartbeat is recent, and a sweep
that ends has settled every worker that was silent for too long when it began and still silent
when it was looked at (`sweep_verdicts`).
-/

namespace TaskFleet.Model

open Py Handler

/-- The request has seen to it that the worker's row has the status, unless the row is gone or
quarantined. -/
def Marked (i : ℕ) (id : Uuid) (status : WorkerStatus) (es : List PresenceEvent) : Prop :=
  ∃ row, .reply i (.worker (.getWorker id)) row ∈ es ∧ ∀ worker, row = some worker →
    worker.status = status ∨ worker.status = .quarantined ∨
      .reply i (.worker (.commitWorker id worker { worker with status := status })) () ∈ es

theorem Marked.mono {i : ℕ} {id : Uuid} {status : WorkerStatus} {es fs : List PresenceEvent}
    (h : Marked i id status es) (hsub : es ⊆ fs) : Marked i id status fs := by
  obtain ⟨row, hrow, hmarked⟩ := h
  exact ⟨row, hsub hrow, fun worker hw => (hmarked worker hw).imp_right (.imp_right (hsub ·))⟩

section

variable {cfg : PresenceSettings} {p t u : PresencePool} {es : List PresenceEvent} {i : ℕ}
  {id : Uuid}

/-! ## A verdict -/

/-- A verdict is for a silence. -/
theorem verdict_silent (hpos : 0 < cfg.heartbeatOfflineThresholdSeconds) {now clock : Seconds}
    {status : WorkerStatus} {metrics : Option Metrics} {last : Option Seconds} {trigger : Trigger}
    (hseen : Seen cfg clock last (metrics.bind Metrics.lastHeartbeatAt)) (hnow : now ≤ clock)
    (hverdict : sweepVerdict cfg now status metrics = some trigger) :
    (trigger.newStatus = .offline ∧ ∀ stamp, last = some stamp →
      (cfg.heartbeatOfflineThresholdSeconds : Seconds) < clock - stamp) ∨
    (trigger.newStatus = .suspect ∧ ∃ stamp, last = some stamp ∧
      (cfg.heartbeatSuspectThresholdSeconds : Seconds) < clock - stamp) := by
  have hpos' : (0 : Seconds) < cfg.heartbeatOfflineThresholdSeconds := Int.cast_pos.mpr hpos
  unfold sweepVerdict at hverdict
  split at hverdict
  · next hfound =>
      split at hverdict
      · cases hverdict
        refine .inl ⟨rfl, fun stamp hlast => ?_⟩
        rcases hseen with hsame | ⟨-, hlong⟩
        · rw [hfound, hlast] at hsame
          cases hsame
        · have hgone := hlong stamp hlast
          linarith
      · cases hverdict
  · next found hfound =>
      rw [hfound] at hseen
      have hlast := hseen.last_eq
      dsimp only at hverdict
      split at hverdict
      · next hoffline =>
          split at hverdict
          · cases hverdict
            refine .inl ⟨rfl, fun stamp hstamp => ?_⟩
            obtain rfl := Option.some.inj (hlast.symm.trans hstamp)
            linarith
          · cases hverdict
      · split at hverdict
        · next hsuspect =>
            cases hverdict
            exact .inr ⟨rfl, found, hlast, by linarith [hsuspect.1]⟩
        · cases hverdict

/-- A silence as long as that gets a verdict. -/
theorem verdict_offline {now clock : Seconds} {status : WorkerStatus} {metrics : Option Metrics}
    {last : Option Seconds} (hseen : Seen cfg clock last (metrics.bind Metrics.lastHeartbeatAt))
    (hstatus : status ≠ .offline) (hsilent : ∀ stamp, last = some stamp →
      (cfg.heartbeatOfflineThresholdSeconds : Seconds) < now - stamp) :
    sweepVerdict cfg now status metrics = some .heartbeatMissedOfflineThreshold := by
  unfold sweepVerdict
  split
  · exact if_pos hstatus
  · next found hfound =>
      rw [hfound] at hseen
      have hlast := hseen.last_eq
      dsimp only
      rw [if_pos (hsilent found hlast), if_pos hstatus]

theorem verdict_suspect {now clock : Seconds} {status : WorkerStatus} {metrics : Option Metrics}
    {last : Option Seconds} (hseen : Seen cfg clock last (metrics.bind Metrics.lastHeartbeatAt))
    (hstatus : status ≠ .offline) (hsuspect : status ≠ .suspect)
    (hsilent : ∀ stamp, last = some stamp →
      (cfg.heartbeatSuspectThresholdSeconds : Seconds) < now - stamp) :
    ∃ trigger, sweepVerdict cfg now status metrics = some trigger ∧
      (trigger.newStatus = .suspect ∨ trigger.newStatus = .offline) := by
  unfold sweepVerdict
  split
  · exact ⟨_, if_pos hstatus, .inr rfl⟩
  · next found hfound =>
      rw [hfound] at hseen
      have hlast := hseen.last_eq
      dsimp only
      by_cases hoffline : (cfg.heartbeatOfflineThresholdSeconds : Seconds) < now - found
      · exact ⟨_, by rw [if_pos hoffline, if_pos hstatus], .inr rfl⟩
      · exact ⟨_, by rw [if_neg hoffline, if_pos ⟨hsilent found hlast, hsuspect⟩], .inl rfl⟩

/-! ## What a sweep does of a candidate -/

/-- Request `i` looks a worker up, in the events since `p`. -/
structure Looks (cfg : PresenceSettings) (i : ℕ) (id : Uuid) (metrics : Option Metrics)
    (p : PresencePool) (es as bs : List PresenceEvent) (u : PresencePool) : Prop where
  events : es = as ++ .reply i (.getMetrics id) metrics :: bs
  before : (presence cfg).Trace p as u
  found : metrics = u.store.metrics.live u.store.clock id

theorem Looks.append {metrics : Option Metrics} {fs as bs : List PresenceEvent}
    (htrace : (presence cfg).Trace p es t) (h : Looks cfg i id metrics t fs as bs u) :
    Looks cfg i id metrics p (es ++ fs) (es ++ as) bs u :=
  ⟨by rw [h.events, List.append_assoc], htrace.append h.before, h.found⟩

theorem Looks.extend {metrics : Option Metrics} {as bs : List PresenceEvent}
    (h : Looks cfg i id metrics p es as bs u) (fs : List PresenceEvent) :
    Looks cfg i id metrics p (es ++ fs) as (bs ++ fs) u :=
  ⟨by rw [h.events, List.append_assoc, List.cons_append], h.before, h.found⟩

/-- A status is committed over the row that was read. -/
theorem transition_commits {of : Uuid} {newStatus : WorkerStatus} {loaded wanted : WorkerRow}
    {next : Unit → PresenceHandler Unit}
    (hc : Left cfg i t (.send (.worker (.commitWorker id loaded wanted)) next)
      (ofWorkers (transitionStatus of newStatus)) p es) :
    id = of ∧ loaded.status ≠ .quarantined ∧ wanted = { loaded with status := newStatus } := by
  rw [transition_eq] at hc
  obtain ⟨hawaits, -⟩ | ⟨row, _, _, _, _, -, -, -, -, hc⟩ := Pool.course_send hc
  · cases hawaits
  cases row with
  | none => cases Pool.course_done hc
  | some worker =>
      dsimp only at hc
      split at hc
      · cases Pool.course_done hc
      · split at hc
        · cases Pool.course_done hc
        · next hquarantined =>
            obtain ⟨hawaits, -⟩ | ⟨_, _, _, _, _, -, -, -, -, hc⟩ := Pool.course_send hc
            · cases hawaits
              exact ⟨rfl, hquarantined, rfl⟩
            · cases Pool.course_done hc

/-- A transition that is over has settled the row. -/
theorem transition_marks {newStatus : WorkerStatus}
    (hc : Left cfg i t (.done ()) (ofWorkers (transitionStatus id newStatus)) p es) :
    Marked i id newStatus es := by
  rw [transition_eq] at hc
  obtain ⟨hawaits, -⟩ | ⟨row, as, bs, _, _, rfl, -, -, -, hc⟩ := Pool.course_send hc
  · cases hawaits
  refine ⟨row, by simp, fun worker hrow => ?_⟩
  subst hrow
  dsimp only at hc
  split at hc
  · next hsame => exact .inl hsame
  · split at hc
    · next hquarantined => exact .inr (.inl hquarantined)
    · obtain ⟨hawaits, -⟩ | ⟨_, _, _, _, _, rfl, -, -, -, -⟩ := Pool.course_send hc
      · cases hawaits
      · exact .inr (.inr (by simp))

/-- A row is committed as the verdict on a look asks for. -/
def CommittedBy (cfg : PresenceSettings) (i : ℕ) (id : Uuid) (loaded wanted : WorkerRow)
    (now : Seconds) (p : PresencePool) (es : List PresenceEvent) : Prop :=
  ∃ status trigger metrics as bs u, Looks cfg i id metrics p es as bs u ∧
    sweepVerdict cfg now status metrics = some trigger ∧ loaded.status ≠ .quarantined ∧
    wanted = { loaded with status := trigger.newStatus }

theorem CommittedBy.append {loaded wanted : WorkerRow} {now : Seconds} {fs : List PresenceEvent}
    (htrace : (presence cfg).Trace p es t) (h : CommittedBy cfg i id loaded wanted now t fs) :
    CommittedBy cfg i id loaded wanted now p (es ++ fs) := by
  obtain ⟨status, trigger, metrics, as, bs, u, hlooks, hrest⟩ := h
  exact ⟨status, trigger, metrics, _, bs, u, hlooks.append htrace, hrest⟩

/-- What the loop commits is the verdict on a look. -/
theorem candidates_commit {now : Seconds} {rows : List (Uuid × WorkerStatus)}
    {loaded wanted : WorkerRow} {next : Unit → PresenceHandler Unit}
    (hc : Left cfg i t (.send (.worker (.commitWorker id loaded wanted)) next)
      (sweepCandidates cfg now rows) p es) : CommittedBy cfg i id loaded wanted now p es := by
  induction rows generalizing p es with
  | nil => cases Pool.course_done hc
  | cons row rows ih =>
      rw [sweepCandidates_cons] at hc
      obtain ⟨hawaits, -⟩ | ⟨metrics, as, bs, u, u', rfl, hbefore, hs, hfound, hc⟩ :=
        Pool.course_send hc
      · cases hawaits
      have hlooked : (presence cfg).Trace p (as ++ [.reply i (.getMetrics row.1) metrics]) u' :=
        hbefore.snoc hs
      rw [List.append_cons]
      cases hverdict : sweepVerdict cfg now row.2 metrics with
      | none =>
          simp only [hverdict] at hc
          exact (ih hc).append hlooked
      | some trigger =>
          simp only [hverdict] at hc
          obtain ⟨next', hc⟩ | ⟨_, cs, ds, v, rfl, hmoved, hc⟩ := Pool.course_bind_send hc
          · obtain ⟨rfl, hloaded, hwanted⟩ := transition_commits hc
            exact ⟨row.2, trigger, metrics, as, bs, u, ⟨by simp, hbefore, hfound⟩, hverdict,
              hloaded, hwanted⟩
          · exact ((ih hc).append hmoved).append hlooked

/-- A loop that is over has looked every candidate up and settled the verdict. -/
theorem candidates_marked {now : Seconds} {rows : List (Uuid × WorkerStatus)}
    (hc : Left cfg i t (.done ()) (sweepCandidates cfg now rows) p es) :
    ∀ row ∈ rows, ∃ metrics as bs u, Looks cfg i row.1 metrics p es as bs u ∧
      ∀ trigger, sweepVerdict cfg now row.2 metrics = some trigger →
        Marked i row.1 trigger.newStatus bs := by
  induction rows generalizing p es with
  | nil => exact fun _ h => absurd h List.not_mem_nil
  | cons row rows ih =>
      rw [sweepCandidates_cons] at hc
      obtain ⟨hawaits, -⟩ | ⟨metrics, as, bs, u, u', rfl, hbefore, hs, hfound, hc⟩ :=
        Pool.course_send hc
      · cases hawaits
      have hlooked : (presence cfg).Trace p (as ++ [.reply i (.getMetrics row.1) metrics]) u' :=
        hbefore.snoc hs
      obtain ⟨cs, ds, v, rfl, hmoved, hmarked, hc⟩ : ∃ cs ds v, bs = cs ++ ds ∧
          (presence cfg).Trace u' cs v ∧
          (∀ trigger, sweepVerdict cfg now row.2 metrics = some trigger →
            Marked i row.1 trigger.newStatus cs) ∧
          Left cfg i t (.done ()) (sweepCandidates cfg now rows) v ds := by
        cases hverdict : sweepVerdict cfg now row.2 metrics with
        | none =>
            simp only [hverdict] at hc
            exact ⟨[], bs, u', rfl, .nil, fun _ h => (by cases h), hc⟩
        | some trigger =>
            simp only [hverdict] at hc
            obtain ⟨_, cs, ds, v, rfl, htransition, hc⟩ := Pool.course_bind_done hc
            refine ⟨cs, ds, v, rfl, htransition.trace, fun trigger' h => ?_, hc⟩
            cases h
            exact transition_marks htransition
      intro row' hrow'
      rcases List.mem_cons.mp hrow' with rfl | hrow'
      · exact ⟨metrics, as, cs ++ ds, u, ⟨rfl, hbefore, hfound⟩, fun trigger h =>
          (hmarked trigger h).mono (List.subset_append_left cs ds)⟩
      · obtain ⟨metrics', as', bs', u', hlooks, hrest⟩ := ih hc row' hrow'
        rw [List.append_cons]
        exact ⟨metrics', _, bs', u', (hlooks.append hmoved).append hlooked, hrest⟩

/-! ## A sweep -/

/-- A sweep that has got to its candidates took the time before. -/
theorem sweep_left {h' : PresenceHandler Unit} (hc : Left cfg i t h' (sweepHeartbeats cfg) p es)
    (hnow : ∀ k, h' ≠ .send (.worker .now) k) (hcandidates : ∀ k, h' ≠ .send .candidates k) :
    ∃ now rows as bs u, es = as ++ bs ∧ (presence cfg).Trace p as u ∧ now ≤ u.store.clock ∧
      .reply i (.worker .now) now ∈ as ∧ .reply i .candidates rows ∈ as ∧
      (∀ row ∈ rows, row.2.swept = true) ∧ Left cfg i t h' (sweepCandidates cfg now rows) u bs := by
  rw [sweepHeartbeats_eq] at hc
  obtain ⟨hawaits, -⟩ | ⟨now, as, bs, u, u', rfl, hbefore, hs, hclock, hc⟩ := Pool.course_send hc
  · exact absurd hawaits (hnow _)
  obtain ⟨hawaits, -⟩ | ⟨rows, cs, ds, v, v', rfl, hwait, hs', hrows, hc⟩ := Pool.course_send hc
  · exact absurd hawaits (hcandidates _)
  have htrace := (hbefore.snoc hs).append (hwait.snoc hs')
  refine ⟨now, rows, _, ds, v', by simp, htrace, ?_, by simp, by simp, ?_, hc⟩
  · exact hclock.le.trans ((clock_step hs).trans ((clock_trace hwait).trans (clock_step hs')))
  · intro row hrow
    exact ((hrows.2 row.1 row.2).mp hrow).1

/-- What a look in an orderly run finds. -/
theorem looks_seen {s : PresencePool} (hinit : (presence cfg).init s)
    (htrace : (orderlyPresence cfg).Trace s es p) {metrics : Option Metrics}
    {as bs : List PresenceEvent} (h : Looks cfg i id metrics s es as bs u) :
    (orderlyPresence cfg).Run as u ∧
      Seen cfg u.store.clock (lastHeartbeat id as) (metrics.bind Metrics.lastHeartbeatAt) := by
  have hrun : (orderlyPresence cfg).Run as u :=
      ⟨s, hinit, orderly_prefix (h.events ▸ htrace) h.before⟩
  refine ⟨hrun, ?_⟩
  rw [h.found]
  exact (heard hrun).seen

/-- **The sweep goes by the heartbeats.** Redis and the replicas go by one clock, and every worker
has one session at a time. Then a status that a sweep writes is for a silence longer than the
threshold at the moment of its look; and when a sweep is over, each of its candidates that was
silent at its look, and already for longer than the threshold when the sweep began, has been
settled, as offline or as suspect. -/
theorem sweep_verdicts (hpos : 0 < cfg.heartbeatOfflineThresholdSeconds)
    (h : (orderlyPresence cfg).Run es p) :
    (∀ as bs i id loaded wanted,
      es = as ++ .reply i (.worker (.commitWorker id loaded wanted)) () :: bs →
      .start i .sweep ∈ as →
      ∃ looked metrics rest u, as = looked ++ .reply i (.getMetrics id) metrics :: rest ∧
        (orderlyPresence cfg).Run looked u ∧ loaded.status ≠ .quarantined ∧
        ((wanted = { loaded with status := .offline } ∧
            ∀ stamp, lastHeartbeat id looked = some stamp →
              (cfg.heartbeatOfflineThresholdSeconds : Seconds) < u.store.clock - stamp) ∨
          (wanted = { loaded with status := .suspect } ∧
            ∃ stamp, lastHeartbeat id looked = some stamp ∧
              (cfg.heartbeatSuspectThresholdSeconds : Seconds) < u.store.clock - stamp))) ∧
    ∀ i, p.tasks i = some (.sweep, .done .unit) →
      ∃ now rows, .reply i (.worker .now) now ∈ es ∧ .reply i .candidates rows ∈ es ∧
        ∀ row ∈ rows, ∃ as metrics bs, es = as ++ .reply i (.getMetrics row.1) metrics :: bs ∧
          ((∀ stamp, lastHeartbeat row.1 as = some stamp →
              (cfg.heartbeatOfflineThresholdSeconds : Seconds) < now - stamp) →
            Marked i row.1 .offline bs) ∧
          ((∀ stamp, lastHeartbeat row.1 as = some stamp →
              (cfg.heartbeatSuspectThresholdSeconds : Seconds) < now - stamp) →
            row.2 = .suspect ∨ Marked i row.1 .suspect bs ∨ Marked i row.1 .offline bs) := by
  obtain ⟨s, hinit, htrace⟩ := h
  constructor
  · rintro as bs i id loaded wanted rfl hstart
    obtain ⟨v, v', hleft, hs, -⟩ := htrace.at_event
    obtain ⟨h', htask⟩ := Pool.task_of_start hleft.of_guarded hstart
    obtain ⟨hs, -⟩ := hs
    cases hs with
    | @reply _ q _ next _ hawaits _ =>
        obtain ⟨rfl, rfl⟩ := Prod.mk.inj (Option.some.inj (htask.symm.trans hawaits))
        obtain ⟨next', hc⟩ := left_of_map (Pool.course hleft.of_guarded (hinit.2 i) htask)
        obtain ⟨now, rows, cs, ds, u, rfl, hbefore, hnow, -, -, -, hc⟩ :=
          sweep_left hc (fun _ h => by cases h) fun _ h => by cases h
        obtain ⟨status, trigger, metrics, es', fs, w, hlooks, hverdict, hloaded, hwanted⟩ :=
          candidates_commit hc
        have hlook := hlooks.append hbefore
        obtain ⟨hrun, hseen⟩ := looks_seen hinit hleft hlook
        refine ⟨_, metrics, fs, w, hlook.events, hrun, hloaded, ?_⟩
        rcases verdict_silent hpos hseen (hnow.trans (clock_trace hlooks.before)) hverdict
          with ⟨hoffline, hsilent⟩ | ⟨hsuspect, hsilent⟩
        · exact .inl ⟨hoffline ▸ hwanted, hsilent⟩
        · exact .inr ⟨hsuspect ▸ hwanted, hsilent⟩
  · intro i hdone
    have hcourse := Pool.course htrace.of_guarded (hinit.2 i) hdone
    obtain ⟨_, as, bs, v, rfl, hc, -⟩ := Pool.course_bind_done (h := sweepHeartbeats cfg) hcourse
    obtain ⟨now, rows, cs, ds, u, rfl, hbefore, hnow, hclock, hcandidates, hswept, hc⟩ :=
      sweep_left hc (fun _ h => by cases h) fun _ h => by cases h
    refine ⟨now, rows, by simp [hclock], by simp [hcandidates], fun row hrow => ?_⟩
    obtain ⟨metrics, es', fs, w, hlooks, hmarked⟩ := candidates_marked hc row hrow
    have hlook := (hlooks.append hbefore).extend bs
    obtain ⟨-, hseen⟩ := looks_seen hinit htrace hlook
    have hoffline : row.2 ≠ .offline := fun h => by
      have hrow' := hswept row hrow
      rw [h] at hrow'
      cases hrow'
    have hmono : ∀ {status}, Marked i row.1 status fs → Marked i row.1 status (fs ++ bs) :=
      fun h => h.mono (List.subset_append_left fs bs)
    refine ⟨_, metrics, _, hlook.events, fun hsilent => ?_, fun hsilent => ?_⟩
    · exact hmono (hmarked _ (verdict_offline hseen hoffline hsilent))
    · by_cases hsuspect : row.2 = .suspect
      · exact .inl hsuspect
      · obtain ⟨trigger, hverdict, htrigger⟩ := verdict_suspect hseen hoffline hsuspect hsilent
        refine .inr (htrigger.imp (fun h => ?_) fun h => ?_)
        · exact h ▸ hmono (hmarked trigger hverdict)
        · exact h ▸ hmono (hmarked trigger hverdict)

end

namespace Demo

/-- A worker joins, says nothing for half a minute, and a sweep is made. -/
def wentSilent : List (Pool.Move presenceCommands PresenceStore PresenceRequest) :=
  let served (i : ℕ) := .answer i (PresenceStore.answer worker [(worker, .online)])
  [.start 0 (.register { enrollmentSecret := some "join" } "secret"), served 0, served 0, served 0,
   .start 1 (.established worker), served 1, served 1, served 1, served 1, served 1,
   .start 2 (.elapse 30), served 2,
   .start 3 .sweep, served 3, served 3, served 3, served 3, served 3]

theorem online_swept (id : Uuid) (status : WorkerStatus) :
    id = worker ∧ status = .online ↔ status.swept = true ∧ ∃ row : WorkerRow,
      Function.update (fun _ => none) worker (some ⟨some "hmac:secret", .online, false⟩) id =
        some row ∧ row.status = status := by
  constructor
  · rintro ⟨rfl, rfl⟩
    exact ⟨rfl, _, Function.update_self .., rfl⟩
  · rintro ⟨-, row, hrow, rfl⟩
    by_cases hid : id = worker
    · subst hid
      rw [Function.update_self] at hrow
      cases hrow
      exact ⟨rfl, rfl⟩
    · rw [Function.update_of_ne hid] at hrow
      cases hrow

theorem enrolled : compareDigest "join" "join" = some true := by decide

theorem silent_stored : (30 : Seconds) < 25 * 3 := by norm_num

theorem silent_late : (25 : Seconds) < 30 := by norm_num

theorem wentSilent_playable : Pool.Playable (presenceStore presenceSettings)
    (PresenceRequest.handler presenceSettings) nobodyThere wentSilent := by
  simp [wentSilent, Pool.Playable, nobodyThere, PresenceRequest.handler, registerWorker_eq,
    enrollWorker, PresenceSettings.verifyEnrollmentSecret, enrolled, transition_eq,
    sweepHeartbeats_eq, sessionEstablished_eq, mergeMetrics_eq, Metrics.update,
    sweepCandidates_cons, sweepVerdict, silent_stored, silent_late, Trigger.newStatus,
    ExpiringKeys.live, WorkerRow.flush, online_swept, presenceSettings, security, presenceStore,
    PresenceStore.replies, PresenceStore.after, PresenceStore.answer, WorkerStore.replies,
    WorkerStore.after, WorkerStore.answer]

theorem wentSilent_once (id : Uuid) : ((Pool.play (presenceStore presenceSettings)
    (PresenceRequest.handler presenceSettings) nobodyThere wentSilent).1.filter
      (startsMerge id)).length ≤ 1 := by
  simp [wentSilent, Pool.play, nobodyThere, PresenceRequest.handler, registerWorker_eq,
    enrollWorker, PresenceSettings.verifyEnrollmentSecret, enrolled, transition_eq,
    sweepHeartbeats_eq, sessionEstablished_eq, mergeMetrics_eq, Metrics.update,
    sweepCandidates_cons, sweepVerdict, silent_stored, silent_late, Trigger.newStatus,
    ExpiringKeys.live, WorkerRow.flush, presenceSettings, security, presenceStore,
    PresenceStore.after, PresenceStore.answer, WorkerStore.after, WorkerStore.answer,
    startsMerge, PresenceRequest.mergesFor, List.filter_cons]
  split <;> simp

theorem wentSilent_done : (Pool.play (presenceStore presenceSettings)
    (PresenceRequest.handler presenceSettings) nobodyThere wentSilent).2.tasks 3 =
      some (.sweep, .done .unit) := by
  simp [wentSilent, Pool.play, nobodyThere, PresenceRequest.handler, registerWorker_eq,
    enrollWorker, PresenceSettings.verifyEnrollmentSecret, enrolled, transition_eq,
    sweepHeartbeats_eq, sessionEstablished_eq, mergeMetrics_eq, Metrics.update,
    sweepCandidates_cons, sweepVerdict, silent_stored, silent_late, Trigger.newStatus,
    ExpiringKeys.live, WorkerRow.flush, presenceSettings, security, presenceStore,
    PresenceStore.after, PresenceStore.answer, WorkerStore.after, WorkerStore.answer]
  rfl

end Demo

/-- The sweep has settled its only candidate. -/
theorem sweep_verdicts_silent : ∃ es p, (orderlyPresence Demo.presenceSettings).Run es p ∧
    ∃ now rows, .reply 3 (.worker .now) now ∈ es ∧ .reply 3 .candidates rows ∈ es ∧
      ∀ row ∈ rows, ∃ as metrics bs, es = as ++ .reply 3 (.getMetrics row.1) metrics :: bs ∧
        ((∀ stamp, lastHeartbeat row.1 as = some stamp → (25 : Seconds) < now - stamp) →
          Marked 3 row.1 .offline bs) := by
  have hrun : (orderlyPresence Demo.presenceSettings).Run _ _ :=
    ⟨Demo.nobodyThere, ⟨rfl, fun _ => rfl⟩, orderly_of_once ⟨rfl, fun _ => rfl⟩
      (Pool.play_trace Demo.wentSilent_playable) Demo.wentSilent_once⟩
  obtain ⟨now, rows, hnow, hrows, hmarked⟩ :=
    (sweep_verdicts (by decide) hrun).2 3 Demo.wentSilent_done
  refine ⟨_, _, hrun, now, rows, hnow, hrows, fun row hrow => ?_⟩
  obtain ⟨as, metrics, bs, hes, hoffline, -⟩ := hmarked row hrow
  exact ⟨as, metrics, bs, hes, hoffline⟩

end TaskFleet.Model
