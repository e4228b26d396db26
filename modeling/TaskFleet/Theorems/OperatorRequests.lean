import TaskFleet.Model.ApiRuns

/-!
# A response tells what was committed

The operator interface is a client of the queue. Whatever requests are in flight and
however they interleave, with each other and with the rest of the coordinator, the
database goes through a run of the queue, and that run can be cut at the events: an event of
the coordinator is its own transaction, the serving of a request is what the request is (or
would have been) told, and nothing else writes.
-/

namespace TaskFleet.Model

open Py

/-! ## What an outcome tells -/

/-- The call set a policy. -/
def ToldSet (call : ApiCall) (ctx : ApiContext) (taskType : String)
    (applied : List (PolicyField × Int)) (log : List Event) : Prop :=
  ∃ values, call = .upsertTaskPolicy taskType values ∧ validatePolicy values = .ok applied ∧
    log = [⟨ctx.now, .setPolicy taskType values, .policySet⟩]

/-- The call reset a policy, if there was one. -/
def ToldCleared (call : ApiCall) (ctx : ApiContext) (taskType : String) (any : Bool)
    (log : List Event) : Prop :=
  call = .deleteTaskPolicy taskType ∧
    log = if any then [⟨ctx.now, .clearPolicy taskType, .policyCleared true⟩] else []

/-- What the call has committed, as far as the body of its response says. -/
def ApiBody.Tells (s : ApiSettings) (call : ApiCall) (ctx : ApiContext) (body : ApiBody)
    (log : List Event) : Prop :=
  match body with
  | .queued count taskIds correlationId =>
      ∃ request ids, call = .enqueueTasks request ∧ count = request.count.toNat ∧
        ids.length = count ∧ (taskIds = if count = 1 then some ids else none) ∧
        correlationId = ctx.correlationId ∧
        log = enqueueEvents ctx.now (request.request correlationId) ids
  | .claimed count rows =>
      ∃ request worker, call = .dequeueTasks request ∧
        Uuid.parse request.workerId = some worker ∧ rows.length = count ∧
        log = [⟨ctx.now, .dequeue worker request.limit s.cfg.taskDequeueMaxBatch none ctx.locked,
          .claimed rows⟩]
  | .cancelled taskId previousStatus =>
      call = .cancelTask taskId ∧
        log = [⟨ctx.now, .cancel taskId, .cancelled .transitioned previousStatus⟩]
  | .policyApplied taskType applied _ => ToldSet call ctx taskType applied log
  | .policyRemoved taskType any _ => ToldCleared call ctx taskType any log
  | _ => log = []

/-- The same of a handler that has still to read. -/
def ApiRest.Tells (call : ApiCall) (ctx : ApiContext) (rest : ApiRest) (log : List Event) : Prop :=
  match rest with
  | .applied taskType values => ToldSet call ctx taskType values log
  | .removed taskType any => ToldCleared call ctx taskType any log
  | _ => log = []

def ApiOutcome.Tells (s : ApiSettings) (call : ApiCall) (ctx : ApiContext) (outcome : ApiOutcome)
    (log : List Event) : Prop :=
  match outcome with
  | .reads rest => rest.Tells call ctx log
  | .replies response => response.body.Tells s call ctx log

/-- What is read after the transaction changes nothing about what was committed. -/
theorem ApiRest.tells_resume {s : ApiSettings} {call : ApiCall} {ctx : ApiContext}
    {rest : ApiRest} {log : List Event} (h : rest.Tells call ctx log) (db : Db) :
    (rest.resume s db).Tells s call ctx log := by
  cases rest <;> exact h

theorem ApiRest.resume_not_refused (s : ApiSettings) (db : Db) (rest : ApiRest) :
    ¬ (rest.resume s db).refused := by
  have hok : ¬ 400 ≤ 200 := by decide
  cases rest with
  | counts depth => exact id
  | fenced depth byStatus => exact hok
  | attempts taskId detail timeline => exact hok
  | applied taskType values => exact hok
  | removed taskType any => exact hok

/-! ## One transaction -/

section

variable {s : ApiSettings} {schemas : Schemas} {ctx : ApiContext} {db : Db}

/-- What a call comes to: it commits a trace of the queue, which its outcome tells, and a
refused request commits nothing. -/
def Serves (s : ApiSettings) (schemas : Schemas) (ctx : ApiContext) (db : Db) (call : ApiCall)
    (r : Db × ApiOutcome) : Prop :=
  ∃ log, (queue s.cfg schemas).Trace db log r.1 ∧ r.2.Tells s call ctx log ∧
    (r.2.refused → log = [])

/-- A call that leaves the database alone and says nothing that would mean otherwise. -/
theorem serves_nothing {call : ApiCall} {o : ApiOutcome} (h : o.Tells s call ctx []) :
    Serves s schemas ctx db call (db, o) :=
  ⟨[], .nil, h, fun _ => rfl⟩

/-- A call that commits one transaction. -/
theorem serves_one {call : ApiCall} {o : ApiOutcome} {db' : Db} (op : Op) (reply : Reply)
    (hadm : op.Admissible db) (happly : apply s.cfg schemas db ctx.now op = (db', reply))
    (hok : ¬ o.refused) (h : o.Tells s call ctx [⟨ctx.now, op, reply⟩]) :
    Serves s schemas ctx db call (db', o) :=
  ⟨_, .single ⟨hadm, happly⟩, h, fun hr => absurd hr hok⟩

theorem not_refused_ok : ¬ 400 ≤ 200 := by decide

/-- The batch is committed whole, and its ids are the ones it answers with. -/
theorem serves_enqueueTasks (body : EnqueueTaskRequest)
    (hfresh : FreshIds db ctx.taskIds body.count.toNat) :
    Serves s schemas ctx db (.enqueueTasks body) (enqueueTasks s schemas ctx db body) := by
  unfold enqueueTasks
  split
  · exact serves_nothing rfl
  · next db' taskIds henqueue =>
      split
      · obtain ⟨-, -, hnew, -⟩ := enqueueBatch_eq_ok henqueue
        have hlength : taskIds.length = body.count.toNat := by
          rw [hnew, List.length_map, List.length_range]
        refine ⟨_, enqueueBatch_trace henqueue hfresh,
          ⟨body, taskIds, rfl, hlength, rfl, rfl, rfl, rfl⟩, fun hr => ?_⟩
        exact absurd hr (show ¬ 400 ≤ 201 by decide)
      · exact serves_nothing rfl

theorem serves_dequeueTasks (body : DequeueTaskRequest) :
    Serves s schemas ctx db (.dequeueTasks body) (dequeueTasks s ctx db body) := by
  unfold dequeueTasks
  split
  · exact serves_nothing rfl
  · next worker hworker =>
      split
      · exact serves_nothing rfl
      · next db' rows hdequeue =>
          split
          · refine serves_one (.dequeue worker body.limit s.cfg.taskDequeueMaxBatch none
              ctx.locked) (.claimed rows) trivial ?_ not_refused_ok
              ⟨body, worker, rfl, hworker, rfl, rfl⟩
            simp only [apply, hdequeue]
          · exact serves_nothing rfl

theorem serves_cancelTask (taskId : String) :
    Serves s schemas ctx db (.cancelTask taskId) (cancelTask ctx db taskId) := by
  unfold cancelTask
  split
  · next db' current hcancel =>
      refine serves_one (.cancel taskId) (.cancelled .transitioned current) trivial ?_
        not_refused_ok ⟨rfl, rfl⟩
      simp only [apply, hcancel]
  · exact serves_nothing rfl
  · exact serves_nothing rfl

theorem serves_upsertTaskPolicy (taskType : String) (body : List (PolicyField × Option Int)) :
    Serves s schemas ctx db (.upsertTaskPolicy taskType body)
      (upsertTaskPolicy ctx db taskType body) := by
  unfold upsertTaskPolicy
  split
  · exact serves_nothing rfl
  · next values hvalid =>
      split
      · exact serves_nothing rfl
      · next db' hset =>
          refine serves_one (.setPolicy taskType body) .policySet trivial ?_ id
            ⟨body, rfl, hvalid, rfl⟩
          simp only [apply, hset]

/-- A policy that was not there is no change. -/
theorem serves_deleteTaskPolicy (taskType : String) :
    Serves s schemas ctx db (.deleteTaskPolicy taskType) (deleteTaskPolicy db taskType) := by
  unfold deleteTaskPolicy
  split
  · exact serves_nothing rfl
  · next db' removed hclear =>
      cases removed with
      | false => exact serves_nothing ⟨rfl, rfl⟩
      | true =>
          refine serves_one (.clearPolicy taskType) (.policyCleared true) trivial ?_ id ⟨rfl, rfl⟩
          simp only [apply, hclear]
          rfl

/-- **One request.** -/
theorem transact_serves (call : ApiCall) (hfresh : FreshIds db ctx.taskIds call.draws) :
    Serves s schemas ctx db call (call.transact s schemas ctx db) := by
  cases call with
  | enqueueTasks body => exact serves_enqueueTasks body hfresh
  | dequeueTasks body => exact serves_dequeueTasks body
  | cancelTask taskId => exact serves_cancelTask taskId
  | upsertTaskPolicy taskType body => exact serves_upsertTaskPolicy taskType body
  | deleteTaskPolicy taskType => exact serves_deleteTaskPolicy taskType
  | listTasks params =>
      refine serves_nothing ?_
      show (listTasksEndpoint s db params).body.Tells s _ ctx []
      unfold listTasksEndpoint
      split
      · rfl
      · dsimp only
        split <;> rfl
  | listAttempts params =>
      refine serves_nothing ?_
      show (listAttempts s ctx db params).body.Tells s _ ctx []
      unfold listAttempts
      split
      · rfl
      · split <;> rfl
  | taskThroughput minutes =>
      refine serves_nothing ?_
      show (taskThroughput s ctx db minutes).body.Tells s _ ctx []
      unfold taskThroughput
      split <;> rfl
  | inspectTask taskId =>
      refine serves_nothing ?_
      show (inspectTask db taskId).Tells s _ ctx []
      unfold inspectTask
      split <;> rfl
  | taskQueueDepth => exact serves_nothing rfl
  | listTaskPolicies => exact serves_nothing rfl

/-- A rejection tells of nothing. -/
theorem rejection_tells {req : ApiRequest} {rateLimited : Bool} {response : ApiResponse}
    (h : req.rejection s rateLimited = some response) :
    response.body.Tells s req.call ctx [] := by
  unfold ApiRequest.rejection at h
  split at h
  · cases h; rfl
  · split at h
    · cases h; rfl
    · cases h; rfl
    · cases h

/-- **One request, guard and all.** -/
theorem answer_trace {a : Api} {req : ApiRequest}
    (hfresh : FreshIds a.db ctx.taskIds req.call.draws) (rateLimited : Bool) :
    ∃ log, (queue s.cfg schemas).Trace a.db log (a.answer s schemas req rateLimited ctx).1 ∧
      (a.answer s schemas req rateLimited ctx).2.Tells s req.call ctx log ∧
      (log ≠ [] → req.authorized s = true ∧
        ¬ (a.answer s schemas req rateLimited ctx).2.refused) := by
  unfold Api.answer
  cases hreject : req.rejection s rateLimited with
  | some response => exact ⟨[], .nil, rejection_tells hreject, fun h => absurd rfl h⟩
  | none =>
      obtain ⟨log, htrace, htells, hrefused⟩ := transact_serves (s := s) req.call hfresh
      refine ⟨log, htrace, htells, fun hne => ⟨?_, fun hr => hne (hrefused hr)⟩⟩
      by_contra hauth
      obtain ⟨response, hsome⟩ :=
        rejection_of_not_authorized (Bool.not_eq_true _ ▸ hauth) rateLimited
      rw [hreject] at hsome
      cases hsome

/-! ## How a request goes on -/

/-- The request whose transaction is over. -/
def ApiEvent.served : ApiEvent → Option ℕ
  | .serve i _ => some i
  | _ => none

/-- What an event may do to the request `i`: it gets past its transaction by its own serving
only, and from then on its outcome is the same, or it has read on. -/
structure GoesOn (s : ApiSettings) (e : ApiEvent) (i : ℕ) (f f' : ApiFlight) : Prop where
  request : f'.request = f.request
  before : f.phase.outcome = none → f'.phase.outcome = none ∨ e.served = some i
  after : ∀ o, f.phase.outcome = some o → ∃ o', f'.phase.outcome = some o' ∧
    (o' = o ∨ ∃ rest db, o = .reads rest ∧ o' = rest.resume s db)

theorem GoesOn.same {e : ApiEvent} {i : ℕ} {f f' : ApiFlight} (hreq : f'.request = f.request)
    (hout : f'.phase.outcome = f.phase.outcome) : GoesOn s e i f f' where
  request := hreq
  before h := .inl (hout.trans h)
  after o h := ⟨o, hout.trans h, .inl rfl⟩

/-- What is before its transaction now has been so all along. -/
theorem GoesOn.outcome_none {e : ApiEvent} {i : ℕ} {f f' : ApiFlight} (h : GoesOn s e i f f')
    (hnone : f'.phase.outcome = none) : f.phase.outcome = none := by
  cases hout : f.phase.outcome with
  | none => rfl
  | some o =>
      obtain ⟨o', ho', -⟩ := h.after o hout
      rw [hnone] at ho'
      cases ho'

/-- What is answered stays so. -/
theorem GoesOn.outcome_replies {e : ApiEvent} {i : ℕ} {f f' : ApiFlight} (h : GoesOn s e i f f')
    {response : ApiResponse} (hout : f.phase.outcome = some (.replies response)) :
    f'.phase.outcome = some (.replies response) := by
  obtain ⟨o', ho', rfl | ⟨rest, db, hrest, -⟩⟩ := h.after _ hout
  · exact ho'
  · cases hrest

/-- Every request goes on, the event being about it or not. -/
theorem flight_step {a a' : Api} {e : ApiEvent} (hmove : ApiMove s schemas a e a') {i : ℕ}
    {f : ApiFlight} (hf : a.flights i = some f) :
    ∃ f', a'.flights i = some f' ∧ GoesOn s e i f f' := by
  -- an event moves one request to another phase, or none
  have hmoved : ∀ {j : ℕ} {g : ApiFlight} {phase : ApiPhase}, a.flights j = some g →
      (j = i → GoesOn s e i f { f with phase := phase }) →
      ∃ f', Function.update a.flights j (some { g with phase := phase }) i = some f' ∧
        GoesOn s e i f f' := by
    intro j g phase hg hgoes
    by_cases hj : j = i
    · subst hj
      obtain rfl := Option.some.inj (hf.symm.trans hg)
      exact ⟨_, Function.update_self .., hgoes rfl⟩
    · refine ⟨f, ?_, .same rfl rfl⟩
      rw [Function.update_of_ne (Ne.symm hj)]
      exact hf
  have hthis : ∀ {j : ℕ} {g : ApiFlight}, a.flights j = some g → j = i → f = g := by
    rintro j g hg rfl
    exact Option.some.inj (hf.symm.trans hg)
  cases hmove with
  | @arrive j request hnew =>
      refine ⟨f, ?_, .same rfl rfl⟩
      have hj : i ≠ j := by
        rintro rfl
        rw [hf] at hnew
        cases hnew
      show Function.update a.flights j _ i = _
      rw [Function.update_of_ne hj]
      exact hf
  | @count j g hg hphase =>
      refine hmoved hg fun hj => .same rfl ?_
      rw [hthis hg hj, hphase]
      rfl
  | @serve j ctx g rateLimited hg hphase =>
      refine hmoved hg fun hj => ⟨rfl, fun _ => .inr (congrArg some hj), fun o ho => ?_⟩
      rw [hthis hg hj, hphase] at ho
      cases ho
  | @read j g rest hg hphase =>
      refine hmoved hg fun hj =>
        ⟨rfl, fun h => ?_, fun o ho => ⟨_, rfl, .inr ⟨rest, a.db, ?_, rfl⟩⟩⟩
      · rw [hthis hg hj, hphase] at h
        cases h
      · rw [hthis hg hj, hphase] at ho
        exact (Option.some.inj ho).symm
  | @reply j g response hg hphase =>
      refine hmoved hg fun hj => .same rfl ?_
      rw [hthis hg hj, hphase]
      rfl
  | @drop j g hg =>
      refine hmoved hg fun hj => .same rfl ?_
      rw [hthis hg hj]
      rfl
  | expire => exact ⟨f, hf, .same rfl rfl⟩
  | internal => exact ⟨f, hf, .same rfl rfl⟩

/-- A request that was not there has just arrived. -/
theorem flight_new {a a' : Api} {e : ApiEvent} (hmove : ApiMove s schemas a e a') {i : ℕ}
    {f : ApiFlight} (hnone : a.flights i = none) (hf : a'.flights i = some f) :
    f.phase = Api.entry f.request := by
  have hold : ∀ {j : ℕ} {g : ApiFlight} {phase : ApiPhase}, a.flights j = some g →
      Function.update a.flights j (some { g with phase := phase }) i ≠ some f := by
    intro j g phase hg hupdate
    have hj : i ≠ j := by
      rintro rfl
      rw [hg] at hnone
      cases hnone
    rw [Function.update_of_ne hj, hnone] at hupdate
    cases hupdate
  cases hmove with
  | @arrive j request hnew =>
      have harrived :
          Function.update a.flights j (some ⟨request, Api.entry request⟩) i = some f := hf
      by_cases hj : i = j
      · subst hj
        rw [Function.update_self, Option.some.injEq] at harrived
        rw [← harrived]
      · rw [Function.update_of_ne hj, hnone] at harrived
        cases harrived
  | count hg hphase => exact absurd hf (hold hg)
  | serve hg hphase => exact absurd hf (hold hg)
  | read hg hphase => exact absurd hf (hold hg)
  | reply hg hphase => exact absurd hf (hold hg)
  | drop hg => exact absurd hf (hold hg)
  | expire => rw [show a.flights i = some f from hf] at hnone; cases hnone
  | internal => rw [show a.flights i = some f from hf] at hnone; cases hnone

/-- A request that comes to its transaction names numbers in range. -/
theorem Run.inRange {es : List ApiEvent} {a : Api} (h : (operatorApi s schemas).Run es a) :
    ∀ i f, a.flights i = some f → f.phase.outcome = none → f.request.call.inRange = true := by
  refine h.invariant (I := fun _ a => ∀ i f, a.flights i = some f →
    f.phase.outcome = none → f.request.call.inRange = true) ?_ ?_
  · rintro a ⟨-, hnone⟩ i f hf
    rw [hnone] at hf
    cases hf
  · rintro es a e a' - ih ⟨-, hnext⟩ i f' hf' hout
    have hmove := Api.next_move hnext
    cases hf : a.flights i with
    | none =>
        rw [flight_new hmove hf hf', Api.entry] at hout
        by_contra hrange
        rw [if_neg hrange] at hout
        cases hout
    | some f =>
        obtain ⟨g, hg, hgoes⟩ := flight_step hmove hf
        obtain rfl := Option.some.inj (hf'.symm.trans hg)
        rw [hgoes.request]
        exact ih i f hf (hgoes.outcome_none hout)

/-! ## The log of a run -/

/-- What an event has written, as the state that was reached lets one tell. -/
def Wrote (s : ApiSettings) (a : Api) : ApiEvent → List Event → Prop
  | .internal now op, told => ∃ reply, told = [⟨now, op, reply⟩]
  | .serve i ctx, told =>
      ∃ f outcome, a.flights i = some f ∧ f.phase.outcome = some outcome ∧
        outcome.Tells s f.request.call ctx told ∧
        (told ≠ [] → f.request.authorized s = true ∧ f.request.call.inRange = true ∧
          ¬ outcome.refused)
  | _, told => told = []

/-- What was written can be told from every later state. -/
theorem Wrote.step {a a' : Api} {e e' : ApiEvent} {told : List Event} (h : Wrote s a e told)
    (hmove : ApiMove s schemas a e' a') : Wrote s a' e told := by
  cases e with
  | serve i ctx =>
      obtain ⟨f, o, hf, ho, htells, hmay⟩ := h
      obtain ⟨f', hf', hgoes⟩ := flight_step hmove hf
      rw [← hgoes.request] at htells hmay
      obtain ⟨o', ho', rfl | ⟨rest, db, rfl, rfl⟩⟩ := hgoes.after o ho
      · exact ⟨f', o', hf', ho', htells, hmay⟩
      · exact ⟨f', rest.resume s db, hf', ho', ApiRest.tells_resume htells db,
          fun hne => ⟨(hmay hne).1, (hmay hne).2.1, rest.resume_not_refused s db⟩⟩
  | arrive i request => exact h
  | count i => exact h
  | read i => exact h
  | reply i => exact h
  | drop i => exact h
  | expire key => exact h
  | internal now op => exact h

/-- Who has been served has an outcome. -/
theorem outcome_of_served {a : Api} {es : List ApiEvent} {log : List (List Event)}
    (h : List.Forall₂ (Wrote s a) es log) {i : ℕ} (hi : i ∈ es.filterMap ApiEvent.served) :
    ∃ f o, a.flights i = some f ∧ f.phase.outcome = some o := by
  induction h with
  | nil => cases hi
  | @cons e told es log hwrote _ ih =>
      cases e with
      | serve j ctx =>
          rcases List.mem_cons.mp hi with rfl | hrest
          · obtain ⟨f, o, hf, ho, -⟩ := hwrote
            exact ⟨f, o, hf, ho⟩
          · exact ih hrest
      | _ => exact ih hi

/-- **Every outcome comes of a serving**, or of a number out of range. -/
theorem Run.served {es : List ApiEvent} {a : Api} (h : (operatorApi s schemas).Run es a) :
    ∀ i f, a.flights i = some f → f.phase.outcome = none ∨
      f.phase.outcome = some (.replies ⟨422, .unprocessable⟩) ∨
      i ∈ es.filterMap ApiEvent.served := by
  refine h.invariant (I := fun es a => ∀ i f, a.flights i = some f → f.phase.outcome = none ∨
    f.phase.outcome = some (.replies ⟨422, .unprocessable⟩) ∨
    i ∈ es.filterMap ApiEvent.served) ?_ ?_
  · rintro a ⟨-, hnone⟩ i f hf
    rw [hnone] at hf
    cases hf
  · rintro es a e a' - ih ⟨-, hnext⟩ i f' hf'
    rw [List.filterMap_append]
    have hmove := Api.next_move hnext
    cases hf : a.flights i with
    | none =>
        rw [flight_new hmove hf hf', Api.entry]
        split
        · split
          · exact .inl rfl
          · exact .inl rfl
        · exact .inr (.inl rfl)
    | some f =>
        obtain ⟨g, hg, hgoes⟩ := flight_step hmove hf
        obtain rfl := Option.some.inj (hf'.symm.trans hg)
        rcases ih i f hf with hold | hold | hold
        · rcases hgoes.before hold with hstill | hserved
          · exact .inl hstill
          · refine .inr (.inr (List.mem_append_right _ ?_))
            rw [List.filterMap_cons_some hserved]
            exact List.mem_cons_self
        · exact .inr (.inl (hgoes.outcome_replies hold))
        · exact .inr (.inr (List.mem_append_left _ hold))

/-- A run of the queue cut at the events of a run of the interface. -/
def ApiLedger (s : ApiSettings) (schemas : Schemas) (es : List ApiEvent) (a : Api)
    (log : List (List Event)) : Prop :=
  (queue s.cfg schemas).Run log.flatten a.db ∧ List.Forall₂ (Wrote s a) es log ∧
    (es.filterMap ApiEvent.served).Nodup

/-- One more event, and what it writes. -/
theorem ApiLedger.snoc {es : List ApiEvent} {a a' : Api} {e : ApiEvent} {log : List (List Event)}
    {told : List Event} (h : ApiLedger s schemas es a log) (hmove : ApiMove s schemas a e a')
    (htrace : (queue s.cfg schemas).Trace a.db told a'.db) (hwrote : Wrote s a' e told)
    (honce : ∀ i, e.served = some i → i ∉ es.filterMap ApiEvent.served) :
    ApiLedger s schemas (es ++ [e]) a' (log ++ [told]) := by
  obtain ⟨hrun, hall, hnodup⟩ := h
  refine ⟨?_, ?_, ?_⟩
  · rw [List.flatten_append, List.flatten_singleton]
    exact hrun.extend htrace
  · exact List.rel_append (hall.imp fun _ _ h => h.step hmove) (.cons hwrote .nil)
  · rw [List.filterMap_append, List.nodup_append]
    refine ⟨hnodup, ?_, ?_⟩
    · cases hserved : e.served with
      | none => rw [List.filterMap_cons_none hserved]; exact List.nodup_nil
      | some i => rw [List.filterMap_cons_some hserved]; exact List.nodup_singleton i
    · rintro i hi j hj rfl
      obtain ⟨e', he', hserved⟩ := List.mem_filterMap.mp hj
      rw [List.mem_singleton.mp he'] at hserved
      exact honce i hserved hi

/-- **The operator interface refines the queue.** In every run, with any requests in flight
and any interleaving with each other and with the rest of the coordinator, the database is
one that a run of the queue leads to, and that run is the events' writes in their order.
An event of the coordinator is its own transaction. The serving of a request writes exactly
what its outcome tells, if anything: a request that writes carries the operator's secret,
names numbers in range and is not refused. Nothing else writes. No request is served twice,
and an answer comes of a serving or of a number out of range. So no request writes twice or
without authority, no write is lost, and no answer misreports; a request that ended
unanswered has written nothing, or what it would have been answered. -/
theorem operator_requests_refine {es : List ApiEvent} {a : Api}
    (h : (operatorApi s schemas).Run es a) :
    ∃ log : List (List Event), (queue s.cfg schemas).Run log.flatten a.db ∧
      List.Forall₂ (Wrote s a) es log ∧ (es.filterMap ApiEvent.served).Nodup ∧
      ∀ i f, a.flights i = some f → f.phase.outcome = none ∨
        f.phase.outcome = some (.replies ⟨422, .unprocessable⟩) ∨
        i ∈ es.filterMap ApiEvent.served := by
  suffices hledger : ∃ log, ApiLedger s schemas es a log by
    obtain ⟨log, hrun, hall, hnodup⟩ := hledger
    exact ⟨log, hrun, hall, hnodup, Run.served h⟩
  refine h.invariant (I := fun es a => ∃ log, ApiLedger s schemas es a log) ?_ ?_
  · rintro a ⟨hinit, -⟩
    exact ⟨[], .nil hinit, .nil, List.nodup_nil⟩
  · rintro es a e a' hrun ⟨log, hlog⟩ ⟨hadm, hnext⟩
    have hmove := Api.next_move hnext
    have hquiet : ∀ {i : ℕ}, none = some i → i ∉ es.filterMap ApiEvent.served := by
      intro i h
      cases h
    cases hmove with
    | arrive hnew => exact ⟨_, hlog.snoc (.arrive hnew) .nil rfl fun _ => hquiet⟩
    | count hf hphase => exact ⟨_, hlog.snoc (.count hf hphase) .nil rfl fun _ => hquiet⟩
    | read hf hphase => exact ⟨_, hlog.snoc (.read hf hphase) .nil rfl fun _ => hquiet⟩
    | reply hf hphase => exact ⟨_, hlog.snoc (.reply hf hphase) .nil rfl fun _ => hquiet⟩
    | drop hf => exact ⟨_, hlog.snoc (.drop hf) .nil rfl fun _ => hquiet⟩
    | expire => exact ⟨_, hlog.snoc .expire .nil rfl fun _ => hquiet⟩
    | @internal now op =>
        exact ⟨_, hlog.snoc .internal (.single (queue_step hadm)) ⟨_, rfl⟩ fun _ => hquiet⟩
    | @serve i ctx f rateLimited hf hphase =>
        have hout : f.phase.outcome = none := by rw [hphase]; rfl
        obtain ⟨told, htrace, htells, hmay⟩ := answer_trace (hadm f hf) rateLimited
        refine ⟨_, hlog.snoc (.serve hf hphase) htrace ⟨{ f with phase := .pending _ }, _,
          Function.update_self .., rfl, htells, fun hne => ?_⟩ ?_⟩
        · exact ⟨(hmay hne).1, Run.inRange hrun i f hf hout, (hmay hne).2⟩
        · rintro j hj hserved
          obtain rfl := Option.some.inj hj
          obtain ⟨g, o, hg, ho⟩ := outcome_of_served hlog.2.1 hserved
          obtain rfl := Option.some.inj (hf.symm.trans hg)
          rw [hout] at ho
          cases ho

end

/-- The two tasks come from the request that was not rejected, though it was not answered. -/
theorem operator_requests_refine_demo : ∃ a log,
    (queue Demo.api.cfg Demo.schemas).Run (List.flatten log) a.db ∧
      a.db.tasks.rows.length = 2 ∧ List.Forall₂ (Wrote Demo.api a) Demo.requests log ∧
      (Demo.requests.filterMap ApiEvent.served).Nodup := by
  obtain ⟨a, hrun, hrows, -⟩ := Demo.requests_run
  obtain ⟨log, hlog, hall, hnodup, -⟩ := operator_requests_refine hrun
  exact ⟨a, log, hlog, hrows, hall, hnodup⟩

end TaskFleet.Model
