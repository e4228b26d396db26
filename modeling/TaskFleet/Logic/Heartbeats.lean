import TaskFleet.Lib.LastWriter
import TaskFleet.Logic.PresenceSteps

/-!
# What Redis knows of a heartbeat

`_merge_metrics` reads a worker's metrics and writes them back. As long as no two merges of one
worker overlap, what a reader finds is the last heartbeat, or nothing, and then there was none
or it is three times the offline threshold ago (`heard`).
-/

namespace TaskFleet.Model

open Py Handler

/-- Request `i` merges into the metrics of `id` and is not done. -/
def Merging (p : PresencePool) (i : ℕ) (id : Uuid) : Prop :=
  ∃ q h', p.tasks i = some (q, h') ∧ q.mergesFor = some id ∧ ∀ a, h' ≠ .done a

/-- A worker has one session at a time, which handles one message after another. -/
def OneSession (p : PresencePool) : PresenceEvent → Prop
  | .start _ q => ∀ id, q.mergesFor = some id → ∀ j, ¬ Merging p j id
  | .reply .. => True

/-- The coordinator while every worker has one session at a time. -/
abbrev orderlyPresence (cfg : PresenceSettings) : System PresencePool PresenceEvent :=
  (presence cfg).guarded OneSession

/-- The heartbeat an event records. -/
def heartbeatWrite (id : Uuid) : PresenceEvent → Option (Option Seconds)
  | .reply _ (.setMetrics of _ (some stamp)) _ => if of = id then some (some stamp) else none
  | _ => none

/-- The last heartbeat of the worker. -/
def lastHeartbeat (id : Uuid) (es : List PresenceEvent) : Option Seconds :=
  lastWritten (heartbeatWrite id) none es

section

variable {cfg : PresenceSettings} {p t u : PresencePool} {e : PresenceEvent}
  {es : List PresenceEvent} {i j : ℕ} {id : Uuid}

theorem orderly_prefix {s : PresencePool} {as bs : List PresenceEvent}
    (h : (orderlyPresence cfg).Trace s (as ++ bs) t) (hu : (presence cfg).Trace s as u) :
    (orderlyPresence cfg).Trace s as u := by
  obtain ⟨v, hv, -⟩ := h.split as bs rfl
  rwa [hu.unique Pool.deterministic v hv.of_guarded]

/-! ## One merge at a time -/

/-- A request that is at work after a step was at work before it, or has just come in. -/
theorem merging_step (hs : (presence cfg).step p e t) (h : Merging t i id) :
    Merging p i id ∨ ∃ q, e = .start i q ∧ q.mergesFor = some id := by
  obtain ⟨q, h', htask, hmerges, hdone⟩ := h
  rcases Pool.Step.task hs htask with ⟨hold, -⟩ | ⟨rfl, -, -⟩ | ⟨c, next, r, -, hsend, -, -⟩
  · exact .inl ⟨q, h', hold, hmerges, hdone⟩
  · exact .inr ⟨q, rfl, hmerges⟩
  · exact .inl ⟨q, _, hsend, hmerges, fun _ hd => by cases hd⟩

theorem merging_unique (h : (orderlyPresence cfg).Reachable p) :
    ∀ i j, Merging p i id → Merging p j id → i = j := by
  refine h.invariant (P := fun p => ∀ i j, Merging p i id → Merging p j id → i = j) ?_ ?_
  · rintro s ⟨-, hnone⟩ i j ⟨q, h', htask, -⟩ -
    rw [hnone i] at htask
    cases htask
  · rintro s e t - ih ⟨hs, hone⟩ i j hi hj
    rcases merging_step hs hi with hi | ⟨q, rfl, hq⟩
    · rcases merging_step hs hj with hj | ⟨q, rfl, hq⟩
      · exact ih i j hi hj
      · exact absurd hi (hone id hq i)
    · rcases merging_step hs hj with hj | ⟨q', he, -⟩
      · exact absurd hj (hone id hq j)
      · cases he
        rfl

/-- A request that has come in and is at work later is at work until then. -/
theorem merging_until {x : PresenceRequest × PresenceHandler PresenceOutcome}
    (h : (presence cfg).Trace p es t) (hin : p.tasks i = some x) (hlate : Merging t i id) :
    Merging p i id := by
  induction h with
  | nil => exact hlate
  | @snoc es s u e htrace hs ih =>
      rcases merging_step hs hlate with hbefore | ⟨q, rfl, -⟩
      · exact ih hbefore
      · obtain ⟨y, hy⟩ := Pool.kept htrace hin
        cases hs with
        | start hnew =>
            rw [hnew] at hy
            cases hy

/-- A merge for the worker comes in. -/
def startsMerge (id : Uuid) : PresenceEvent → Bool
  | .start _ q => q.mergesFor = some id
  | .reply .. => false

/-- A run in which a worker has one merge is orderly. -/
theorem orderly_of_once {s : PresencePool} (hinit : (presence cfg).init s)
    (h : (presence cfg).Trace s es p)
    (honce : ∀ id, (es.filter (startsMerge id)).length ≤ 1) :
    (orderlyPresence cfg).Trace s es p := by
  induction h with
  | nil => exact .nil
  | @snoc es u t e htrace hs ih =>
      simp only [List.filter_append, List.length_append] at honce
      refine (ih fun id => (Nat.le_add_right _ _).trans (honce id)).snoc ⟨hs, ?_⟩
      cases e with
      | reply i c r => trivial
      | start i q =>
          rintro id hmerges j ⟨q', h', htask, hmerges', -⟩
          have hstarted : .start j q' ∈ es.filter (startsMerge id) :=
            List.mem_filter.mpr ⟨Pool.started htrace (hinit.2 j) htask, decide_eq_true hmerges'⟩
          have hlast : ([.start i q].filter (startsMerge id)).length = 1 := by
            simp [startsMerge, hmerges]
          have hfirst := List.length_pos_of_mem hstarted
          have hboth := honce id
          omega

/-! ## What a merge writes -/

/-- The request that records metrics is at work on them. -/
theorem setMetrics_merging (h : (presence cfg).Run es p) {metrics : Metrics}
    {heartbeat : Option Seconds} {now : Seconds}
    (hs : (presence cfg).step p (.reply i (.setMetrics id metrics heartbeat) now) t) :
    Merging p i id := by
  cases hs with
  | @reply _ q _ next _ htask _ =>
      obtain ⟨s, hinit, htrace⟩ := h
      have hsends := (Pool.course htrace (hinit.2 i) htask).sends (sends_request q)
      exact ⟨q, _, htask, hsends.1, fun _ hd => by cases hd⟩

/-- What a merge read before it wrote, in the events since `p`. -/
structure MergeRead (cfg : PresenceSettings) (i : ℕ) (id : Uuid) (metrics : Metrics)
    (heartbeat : Option Seconds) (p : PresencePool) (es as : List PresenceEvent)
    (u : PresencePool) :
    Prop where
  before : (presence cfg).Trace p as u
  read : ∃ bs u' existing fields, es = as ++ .reply i (.getMetrics id) existing :: bs ∧
    (presence cfg).step u (.reply i (.getMetrics id) existing) u' ∧
    (∀ c r, .reply i c r ∉ bs) ∧ existing = u.store.metrics.live u.store.clock id ∧
    metrics = (existing.getD {}).update heartbeat fields
  stamped : ∀ stamp, heartbeat = some stamp → stamp ≤ u.store.clock

/-- What is left of a request, or of a part of it. -/
abbrev Left (cfg : PresenceSettings) (i : ℕ) (t : PresencePool) {α : Type}
    (h' h : PresenceHandler α) (p : PresencePool) (es : List PresenceEvent) : Prop :=
  Pool.Course (presenceStore cfg) (PresenceRequest.handler cfg) (· = {}) i t h' h p es

theorem merge_read {metrics : Metrics} {heartbeat : Option Seconds} {of : Uuid}
    {recorded : Option Seconds} {fields : List (String × Json)}
    {next : Seconds → PresenceHandler Unit}
    (hc : Left cfg i t (.send (.setMetrics id metrics heartbeat) next)
      (mergeMetrics of recorded fields) p es)
    (hstamp : ∀ stamp, recorded = some stamp → stamp ≤ p.store.clock) :
    ∃ as u, MergeRead cfg i id metrics heartbeat p es as u := by
  rw [mergeMetrics_eq] at hc
  obtain ⟨hawaits, -⟩ | ⟨existing, as, bs, u, u', rfl, hbefore, hstep, hread, hc⟩ :=
    Pool.course_send hc
  · cases hawaits
  obtain ⟨hawaits, hquiet⟩ | ⟨_, _, _, _, _, rfl, -, -, -, hc⟩ := Pool.course_send hc
  · cases hawaits
    exact ⟨as, u, hbefore, ⟨bs, u', existing, fields, rfl, hstep, hquiet, hread, rfl⟩,
      fun stamp hs => (hstamp stamp hs).trans (clock_trace hbefore)⟩
  · cases Pool.course_done hc

theorem MergeRead.append {metrics : Metrics} {heartbeat : Option Seconds}
    {as bs : List PresenceEvent} (htrace : (presence cfg).Trace p es t)
    (hm : MergeRead cfg i id metrics heartbeat t bs as u) :
    MergeRead cfg i id metrics heartbeat p (es ++ bs) (es ++ as) u := by
  obtain ⟨hbefore, ⟨cs, u', existing, fields, rfl, hread⟩, hstamp⟩ := hm
  exact ⟨htrace.append hbefore, ⟨cs, u', existing, fields, by simp, hread⟩, hstamp⟩

/-- A handler that wraps another does what the other does. -/
theorem left_of_map {α : Type} {h : PresenceHandler α} {g : α → PresenceOutcome} {c : PresenceCmd}
    {next : c.Reply → PresenceHandler PresenceOutcome}
    (hc : Left cfg i t (.send c next) (g <$> h) p es) :
    ∃ next', Left cfg i t (.send c next') h p es := by
  obtain hfirst | ⟨_, _, _, _, -, -, hdone⟩ := Pool.course_bind_send hc
  · exact hfirst
  · cases Pool.course_done hdone

/-- A handler of `Workers` records no metrics. -/
theorem not_left_ofWorkers {α : Type} {h : WorkerHandler α} {metrics : Metrics}
    {heartbeat : Option Seconds} {next : Seconds → PresenceHandler α} :
    ¬ Left cfg i t (.send (.setMetrics id metrics heartbeat) next) (ofWorkers h) p es := by
  intro hc
  cases (hc.sends (sends_ofWorkers (q := .sweep) h)).1

/-- A merge that is stamped takes the stamp before it reads. -/
theorem stamped_read {α : Type} {metrics : Metrics} {heartbeat : Option Seconds}
    {next : Seconds → PresenceHandler α} {k : Seconds → PresenceHandler α}
    (hc : Left cfg i t (.send (.setMetrics id metrics heartbeat) next)
      (.send (.worker .now) k) p es)
    (hk : ∀ {now v bs}, now ≤ v.store.clock →
      Left cfg i t (.send (.setMetrics id metrics heartbeat) next) (k now) v bs →
      ∃ as u, MergeRead cfg i id metrics heartbeat v bs as u) :
    ∃ as u, MergeRead cfg i id metrics heartbeat p es as u := by
  obtain ⟨hawaits, -⟩ | ⟨now, as, bs, v, v', rfl, hwait, hstep, hnow, hc⟩ := Pool.course_send hc
  · cases hawaits
  obtain ⟨cs, w, hm⟩ := hk (hnow.le.trans (clock_step hstep)) hc
  have hall := hm.append (hwait.snoc hstep)
  rw [List.append_assoc] at hall
  exact ⟨_, w, hall⟩

/-- **A merge** writes what it read, with what it merges in. -/
theorem merging_read {s : PresencePool} (hinit : (presence cfg).init s)
    (htrace : (presence cfg).Trace s es p) {metrics : Metrics} {heartbeat : Option Seconds}
    {now : Seconds}
    (hs : (presence cfg).step p (.reply i (.setMetrics id metrics heartbeat) now) t) :
    ∃ as u, MergeRead cfg i id metrics heartbeat s es as u := by
  cases hs with
  | @reply _ q _ next _ htask _ =>
      have hcourse := Pool.course htrace (hinit.2 i) htask
      have hmerges : q.mergesFor = some id := (hcourse.sends (sends_request q)).1
      cases q with
      | established of =>
          obtain ⟨next', hc⟩ := left_of_map hcourse
          rw [sessionEstablished_eq] at hc
          obtain ⟨_, hworkers⟩ | ⟨_, as, bs, u, rfl, hbefore, hc⟩ := Pool.course_bind_send hc
          · exact absurd hworkers not_left_ofWorkers
          obtain ⟨cs, w, hm⟩ := stamped_read hc fun hnow hc => merge_read hc fun stamp h =>
            Option.some.inj h ▸ hnow
          exact ⟨as ++ cs, w, hm.append hbefore⟩
      | heartbeat of payload =>
          obtain ⟨next', hc⟩ := left_of_map hcourse
          rw [heartbeatReceived_eq] at hc
          refine stamped_read hc fun hnow hc => ?_
          obtain ⟨next'', hc⟩ | ⟨_, _, _, _, -, -, hworkers⟩ := Pool.course_bind_send hc
          · exact merge_read hc fun stamp h => Option.some.inj h ▸ hnow
          · exact absurd hworkers not_left_ofWorkers
      | pong of latencyMs =>
          obtain ⟨next', hc⟩ := left_of_map hcourse
          exact merge_read hc fun _ h => by cases h
      | _ => cases hmerges

/-! ## What is stored -/

/-- A reader finds the stamp of the last heartbeat, or none, and then it is long ago. -/
def Seen (cfg : PresenceSettings) (clock : Seconds) (last found : Option Seconds) : Prop :=
  found = last ∨ found = none ∧
    ∀ stamp, last = some stamp → stamp + cfg.heartbeatOfflineThresholdSeconds * 3 ≤ clock

theorem Seen.mono {clock clock' : Seconds} {last found : Option Seconds}
    (h : Seen cfg clock last found) (hclock : clock ≤ clock') : Seen cfg clock' last found :=
  h.imp_right fun hlong => ⟨hlong.1, fun stamp hlast => (hlong.2 stamp hlast).trans hclock⟩

theorem Seen.last_eq {clock stamp : Seconds} {last : Option Seconds}
    (h : Seen cfg clock last (some stamp)) : last = some stamp := by
  rcases h with hsame | ⟨hnone, -⟩
  · exact hsame.symm
  · cases hnone

/-- What the store holds of the worker whose last heartbeat is `last`. -/
structure Heard (cfg : PresenceSettings) (id : Uuid) (last : Option Seconds) (s : PresenceStore) :
    Prop where
  past : ∀ stamp, last = some stamp → stamp ≤ s.clock
  absent : s.metrics id = none → last = none
  stored : ∀ metrics expiresAt, s.metrics id = some (metrics, expiresAt) →
    Seen cfg s.clock last metrics.lastHeartbeatAt ∧
    ∀ stamp, last = some stamp → metrics.lastHeartbeatAt = some stamp →
      stamp + cfg.heartbeatOfflineThresholdSeconds * 3 ≤ expiresAt

/-- What `GET` finds of it. -/
theorem Heard.seen {last : Option Seconds} {s : PresenceStore} (h : Heard cfg id last s) :
    Seen cfg s.clock last ((s.metrics.live s.clock id).bind Metrics.lastHeartbeatAt) := by
  cases hlive : s.metrics.live s.clock id with
  | some metrics =>
      obtain ⟨expiresAt, hstored, -⟩ := ExpiringKeys.live_eq_some_iff.mp hlive
      exact (h.stored metrics expiresAt hstored).1
  | none =>
      cases hstored : s.metrics id with
      | none => exact .inl (h.absent hstored).symm
      | some entry =>
          obtain ⟨metrics, expiresAt⟩ := entry
          have hexpired : expiresAt ≤ s.clock :=
            ExpiringKeys.live_eq_none_iff.mp hlive metrics expiresAt hstored
          obtain ⟨hseen | hlong, hkept⟩ := h.stored metrics expiresAt hstored
          · refine .inr ⟨rfl, fun stamp hlast => ?_⟩
            exact (hkept stamp hlast (hseen.trans hlast)).trans hexpired
          · exact .inr ⟨rfl, hlong.2⟩

/-- Time alone changes nothing. -/
theorem Heard.elapse {last : Option Seconds} {s s' : PresenceStore} (h : Heard cfg id last s)
    (hmetrics : s'.metrics id = s.metrics id) (hclock : s.clock ≤ s'.clock) :
    Heard cfg id last s' where
  past stamp hlast := (h.past stamp hlast).trans hclock
  absent hnone := h.absent (hmetrics ▸ hnone)
  stored metrics expiresAt hstored := by
    obtain ⟨hseen, hkept⟩ := h.stored metrics expiresAt (hmetrics ▸ hstored)
    exact ⟨hseen.mono hclock, hkept⟩

/-- A merge of what was read leaves what is known up to date. -/
theorem Heard.merge {last found heartbeat : Option Seconds} {s s' : PresenceStore}
    {metrics : Metrics} (h : Heard cfg id last s) (hfound : Seen cfg s.clock last found)
    (hstamp : ∀ stamp, heartbeat = some stamp → stamp ≤ s.clock)
    (hmetrics : metrics.lastHeartbeatAt = heartbeat.or found)
    (hstored : s'.metrics id = some (metrics, s.clock + cfg.heartbeatOfflineThresholdSeconds * 3))
    (hclock : s'.clock = s.clock) : Heard cfg id (heartbeat.or last) s' := by
  have hpast : ∀ stamp, heartbeat.or last = some stamp → stamp ≤ s.clock := by
    intro stamp hlast
    rcases Option.or_eq_some_iff.mp hlast with hnew | ⟨-, hold⟩
    · exact hstamp stamp hnew
    · exact h.past stamp hold
  refine ⟨fun stamp hlast => hclock ▸ hpast stamp hlast, fun hnone => ?_, ?_⟩
  · rw [hstored] at hnone
    cases hnone
  · intro metrics' expiresAt hstored'
    obtain ⟨rfl, rfl⟩ := Prod.mk.inj (Option.some.inj (hstored.symm.trans hstored'))
    refine ⟨?_, fun stamp hlast _ => add_le_add_left (hpast stamp hlast) _⟩
    rw [hmetrics, hclock]
    cases heartbeat with
    | some stamp => exact .inl rfl
    | none => exact hfound

/-- What an event does to the metrics of the worker: nothing, or it records them. -/
theorem metrics_step (id : Uuid) (hs : (presence cfg).step p e t) :
    (t.store.metrics id = p.store.metrics id ∧ heartbeatWrite id e = none) ∨
    ∃ i metrics heartbeat now, e = .reply i (.setMetrics id metrics heartbeat) now ∧
      t.store.metrics id =
        some (metrics, p.store.clock + cfg.heartbeatOfflineThresholdSeconds * 3) ∧
      t.store.clock = p.store.clock := by
  cases hs with
  | start => exact .inl ⟨rfl, rfl⟩
  | @reply i q c next r htask hreply =>
      cases c with
      | setMetrics of metrics heartbeat =>
          by_cases hid : of = id
          · subst hid
            obtain rfl : r = p.store.clock := hreply
            exact .inr ⟨i, metrics, heartbeat, _, rfl, ExpiringKeys.put_self .., rfl⟩
          · refine .inl ⟨ExpiringKeys.put_of_ne (Ne.symm hid), ?_⟩
            cases heartbeat with
            | none => rfl
            | some stamp => exact if_neg hid
      | setClaim claimed nx =>
          obtain ⟨granted, now⟩ := r
          cases granted <;> exact .inl ⟨rfl, rfl⟩
      | _ => exact .inl ⟨rfl, rfl⟩

/-- While a merge goes on no other one writes. -/
theorem silent_while_merging {s : PresencePool} (hinit : (presence cfg).init s)
    {as bs : List PresenceEvent} (hbefore : (orderlyPresence cfg).Trace s as u)
    (htrace : (orderlyPresence cfg).Trace u bs t)
    {x : PresenceRequest × PresenceHandler PresenceOutcome} (hin : u.tasks i = some x)
    (hlate : Merging t i id) (hquiet : ∀ c r, .reply i c r ∉ bs) :
    ∀ e ∈ bs, heartbeatWrite id e = none := by
  intro e he
  obtain ⟨cs, ds, rfl⟩ := List.append_of_mem he
  obtain ⟨v, v', hleft, hs, hright⟩ := htrace.at_event
  rcases metrics_step id hs.1 with ⟨-, hnone⟩ | ⟨j, metrics, heartbeat, now, rfl, -, -⟩
  · exact hnone
  · have hrun : (orderlyPresence cfg).Run (as ++ cs) v := ⟨s, hinit, hbefore.append hleft⟩
    have hother : Merging v j id := setMetrics_merging hrun.of_guarded hs.1
    obtain ⟨y, hy⟩ := Pool.kept hleft.of_guarded hin
    have hthis : Merging v i id :=
      merging_until (System.Trace.cons hs.1 hright.of_guarded) hy hlate
    obtain rfl := merging_unique hrun.reachable i j hthis hother
    exact absurd he (hquiet _ _)

theorem lastHeartbeat_setMetrics {metrics : Metrics} {heartbeat : Option Seconds} {now : Seconds}
    (es : List PresenceEvent) : lastHeartbeat id
      (es ++ [.reply i (.setMetrics id metrics heartbeat) now]) =
        heartbeat.or (lastHeartbeat id es) := by
  rw [lastHeartbeat, lastWritten_snoc]
  cases heartbeat <;> simp [heartbeatWrite, lastHeartbeat]

/-- **What Redis knows** of a worker's heartbeats in every orderly run. -/
theorem heard (h : (orderlyPresence cfg).Run es p) :
    Heard cfg id (lastHeartbeat id es) p.store := by
  -- A merge writes what it read some events ago, when the same was known.
  induction hlength : es.length using Nat.strong_induction_on generalizing es p with
  | _ n ih =>
      subst hlength
      obtain ⟨s, hinit, htrace⟩ := h
      rcases List.eq_nil_or_concat es with rfl | ⟨es, e, rfl⟩
      · obtain rfl := htrace.eq_of_nil
        have hempty : p.store = {} := hinit.1
        rw [hempty]
        exact ⟨fun _ hlast => (by cases hlast), fun _ => rfl, fun _ _ hnone => (by cases hnone)⟩
      rw [List.concat_eq_append] at htrace ih ⊢
      obtain ⟨u, hbefore, hs, -⟩ := htrace.last
      have hu : Heard cfg id (lastHeartbeat id es) u.store :=
        ih es.length (by simp) ⟨s, hinit, hbefore⟩ rfl
      rcases metrics_step id hs
        with ⟨hsame, hsilent⟩ | ⟨i, metrics, heartbeat, now, rfl, hstored, hclock⟩
      · rw [lastHeartbeat, lastWritten_snoc, hsilent]
        exact hu.elapse hsame (clock_step hs)
      · obtain ⟨as, v, hread, ⟨bs, v', existing, fields, rfl, -, hquiet, hfound, rfl⟩, hstamp⟩ :=
          merging_read hinit hbefore.of_guarded hs
        obtain ⟨w, w', hleft, hgot, hmid⟩ := hbefore.at_event
        obtain rfl : w = v := hleft.of_guarded.unique Pool.deterministic v hread
        have hw : Heard cfg id (lastHeartbeat id as) w.store :=
          ih as.length (by simp) ⟨s, hinit, hleft⟩ rfl
        have hmerging := setMetrics_merging ⟨s, hinit, hbefore.of_guarded⟩ hs
        obtain ⟨x, hin⟩ : ∃ x, w'.tasks i = some x := by
          cases hgot.1
          exact ⟨_, Function.update_self ..⟩
        have hsilent := silent_while_merging hinit (hleft.snoc hgot) hmid hin hmerging hquiet
        have hlast : lastHeartbeat id (as ++ .reply i (.getMetrics id) existing :: bs) =
            lastHeartbeat id as := by
          refine lastWritten_append_of_silent as fun e he => ?_
          rcases List.mem_cons.mp he with rfl | hmem
          · rfl
          · exact hsilent e hmem
        have hsame : w.store.clock ≤ u.store.clock :=
          (clock_step hgot.1).trans (clock_trace hmid.of_guarded)
        rw [lastHeartbeat_setMetrics, hlast]
        rw [hlast] at hu
        have hseen : Seen cfg u.store.clock (lastHeartbeat id as)
            (existing.bind Metrics.lastHeartbeatAt) := by
          rw [hfound]
          exact hw.seen.mono hsame
        refine hu.merge hseen (fun stamp h => (hstamp stamp h).trans hsame) ?_ hstored hclock
        cases existing <;> rfl

end

end TaskFleet.Model
