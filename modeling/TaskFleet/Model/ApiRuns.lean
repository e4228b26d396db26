import TaskFleet.Model.OperatorApi

/-!
# Operator requests in flight

A handler awaits between its guard, its transaction, what it reads after that and the
sending of its response, so a request is a sequence of steps of `operatorApi`: it arrives,
the limiter counts it, it is served, it reads on, it is replied to. Between them anything
may happen, other requests and the rest of the coordinator included. At any of them the
request can also end, cancelled with its connection or by an exception nobody catches: what
it has committed by then stays committed, and nobody is told.
-/

namespace TaskFleet.Model

open Py

/-- Where a request stands. -/
inductive ApiPhase where
  /-- At the `INCR` of its limiter. -/
  | counting
  /-- Before its transaction, with what the limiter answered. -/
  | admitted (rateLimited : Bool)
  /-- Past its transaction, before its next statement or the sending of its response. -/
  | pending (outcome : ApiOutcome)
  | answered (response : ApiResponse)
  /-- It ended at an await, without a response, having got that far. -/
  | dropped (outcome : Option ApiOutcome)

/-- How far the handler of a request has got, once it is past its transaction. -/
def ApiPhase.outcome : ApiPhase → Option ApiOutcome
  | .counting | .admitted _ => none
  | .pending outcome => some outcome
  | .answered response => some (.replies response)
  | .dropped outcome => outcome

/-- A request in flight. -/
structure ApiFlight where
  request : ApiRequest
  phase : ApiPhase

/-- The database, the limiter's counters, and every request so far. -/
structure Api where
  db : Db
  counts : String → Nat := fun _ => 0
  flights : ℕ → Option ApiFlight := fun _ => none

/-- What happens to the operator interface. -/
inductive ApiEvent where
  | arrive (i : ℕ) (request : ApiRequest)
  /-- The `INCR` of the request is answered. -/
  | count (i : ℕ)
  /-- The transaction of the request is over, committed or not. -/
  | serve (i : ℕ) (ctx : ApiContext)
  /-- Its next statement is answered. -/
  | read (i : ℕ)
  /-- Its response is sent. -/
  | reply (i : ℕ)
  | drop (i : ℕ)
  /-- The window of a counter ends. -/
  | expire (key : String)
  /-- The rest of the coordinator commits a transaction. -/
  | internal (now : Seconds) (op : Op)

namespace Api

/-- The request `i` goes on. -/
def goto (a : Api) (i : ℕ) (f : ApiFlight) (phase : ApiPhase) : Api :=
  { a with flights := Function.update a.flights i (some { f with phase := phase }) }

/-- Where a request stands once it is parsed. -/
def entry (request : ApiRequest) : ApiPhase :=
  if request.call.inRange then
    if request.call.limited then .counting else .admitted false
  else .pending (.replies ⟨422, .unprocessable⟩)

/-- How far its transaction takes a request, and the database it leaves. -/
def answer (s : ApiSettings) (schemas : Schemas) (a : Api) (request : ApiRequest)
    (rateLimited : Bool) (ctx : ApiContext) : Db × ApiOutcome :=
  match request.rejection s rateLimited with
  | some response => (a.db, .replies response)
  | none => request.call.transact s schemas ctx a.db

/-- One event. -/
def next (s : ApiSettings) (schemas : Schemas) (a : Api) : ApiEvent → Option Api
  | .arrive i request =>
      match a.flights i with
      | none => some { a with
          flights := Function.update a.flights i (some ⟨request, entry request⟩) }
      | some _ => none
  | .count i =>
      match a.flights i with
      | some f =>
          match f.phase with
          | .counting =>
              let key := ratelimitKey .taskapi f.request.callerIp
              let count := a.counts key + 1
              some ({ a with counts := Function.update a.counts key count }.goto i f
                (.admitted (s.limits.taskApiRateLimitPerMinute < count)))
          | _ => none
      | none => none
  | .serve i ctx =>
      match a.flights i with
      | some f =>
          match f.phase with
          | .admitted rateLimited =>
              let r := answer s schemas a f.request rateLimited ctx
              some ({ a with db := r.1 }.goto i f (.pending r.2))
          | _ => none
      | none => none
  | .read i =>
      match a.flights i with
      | some f =>
          match f.phase with
          | .pending (.reads rest) => some (a.goto i f (.pending (rest.resume s a.db)))
          | _ => none
      | none => none
  | .reply i =>
      match a.flights i with
      | some f =>
          match f.phase with
          | .pending (.replies response) => some (a.goto i f (.answered response))
          | _ => none
      | none => none
  | .drop i =>
      match a.flights i with
      | some f =>
          match f.phase with
          | .counting | .admitted _ | .pending _ => some (a.goto i f (.dropped f.phase.outcome))
          | _ => none
      | none => none
  | .expire key => some { a with counts := Function.update a.counts key 0 }
  | .internal now op => some { a with db := (apply s.cfg schemas a.db now op).1 }

end Api

/-- How many task ids the call draws. -/
def ApiCall.draws : ApiCall → ℕ
  | .enqueueTasks body => body.count.toNat
  | _ => 0

/-- What the database and `uuid4` guarantee of the values an event is made with. -/
def ApiEvent.Admissible (a : Api) : ApiEvent → Prop
  | .serve i ctx =>
      ∀ f, a.flights i = some f → FreshIds a.db ctx.taskIds f.request.call.draws
  | .internal _ op => op.Admissible a.db
  | _ => True

/-- The operator interface of a coordinator that runs, from an empty queue on. -/
def operatorApi (s : ApiSettings) (schemas : Schemas) : System Api ApiEvent where
  init a := (a.db.tasks = .empty ∧ a.db.results = .empty ∧ a.db.attempts = []) ∧
    a.flights = fun _ => none
  step a e a' := e.Admissible a ∧ a.next s schemas e = some a'

/-! ## What an event does -/

/-- The events that can happen, and the state each leaves. -/
inductive ApiMove (s : ApiSettings) (schemas : Schemas) (a : Api) : ApiEvent → Api → Prop
  | arrive {i : ℕ} {request : ApiRequest} (hnew : a.flights i = none) :
      ApiMove s schemas a (.arrive i request)
        { a with flights := Function.update a.flights i (some ⟨request, Api.entry request⟩) }
  | count {i : ℕ} {f : ApiFlight} (hf : a.flights i = some f) (hphase : f.phase = .counting) :
      ApiMove s schemas a (.count i)
        ({ a with
          counts := Function.update a.counts (ratelimitKey .taskapi f.request.callerIp)
            (a.counts (ratelimitKey .taskapi f.request.callerIp) + 1) }.goto i f
          (.admitted (s.limits.taskApiRateLimitPerMinute <
            a.counts (ratelimitKey .taskapi f.request.callerIp) + 1)))
  | serve {i : ℕ} {ctx : ApiContext} {f : ApiFlight} {rateLimited : Bool}
      (hf : a.flights i = some f) (hphase : f.phase = .admitted rateLimited) :
      ApiMove s schemas a (.serve i ctx)
        ({ a with db := (a.answer s schemas f.request rateLimited ctx).1 }.goto i f
          (.pending (a.answer s schemas f.request rateLimited ctx).2))
  | read {i : ℕ} {f : ApiFlight} {rest : ApiRest} (hf : a.flights i = some f)
      (hphase : f.phase = .pending (.reads rest)) :
      ApiMove s schemas a (.read i) (a.goto i f (.pending (rest.resume s a.db)))
  | reply {i : ℕ} {f : ApiFlight} {response : ApiResponse} (hf : a.flights i = some f)
      (hphase : f.phase = .pending (.replies response)) :
      ApiMove s schemas a (.reply i) (a.goto i f (.answered response))
  | drop {i : ℕ} {f : ApiFlight} (hf : a.flights i = some f) :
      ApiMove s schemas a (.drop i) (a.goto i f (.dropped f.phase.outcome))
  | expire {key : String} : ApiMove s schemas a (.expire key)
      { a with counts := Function.update a.counts key 0 }
  | internal {now : Seconds} {op : Op} : ApiMove s schemas a (.internal now op)
      { a with db := (apply s.cfg schemas a.db now op).1 }

/-- **Every event is a move.** -/
theorem Api.next_move {s : ApiSettings} {schemas : Schemas} {a a' : Api} {e : ApiEvent}
    (h : a.next s schemas e = some a') : ApiMove s schemas a e a' := by
  cases e with
  | arrive i request =>
      simp only [Api.next] at h
      split at h
      · next hnone => cases h; exact .arrive hnone
      · cases h
  | count i =>
      simp only [Api.next] at h
      split at h
      · next f hf =>
          split at h
          · next hphase => cases h; exact .count hf hphase
          · cases h
      · cases h
  | serve i ctx =>
      simp only [Api.next] at h
      split at h
      · next f hf =>
          split at h
          · next hphase => cases h; exact .serve hf hphase
          · cases h
      · cases h
  | read i =>
      simp only [Api.next] at h
      split at h
      · next f hf =>
          split at h
          · next hphase => cases h; exact .read hf hphase
          · cases h
      · cases h
  | reply i =>
      simp only [Api.next] at h
      split at h
      · next f hf =>
          split at h
          · next hphase => cases h; exact .reply hf hphase
          · cases h
      · cases h
  | drop i =>
      simp only [Api.next] at h
      split at h
      · next f hf =>
          split at h
          · cases h; exact .drop hf
          · cases h; exact .drop hf
          · cases h; exact .drop hf
          · cases h
      · cases h
  | expire key => cases h; exact .expire
  | internal now op => cases h; exact .internal

/-! ## Two requests at once -/

def Demo.api : ApiSettings where
  adminSecret := "operator"

/-- Two tasks are asked for, with the secret in the body. -/
def Demo.bulk : ApiRequest where
  callerIp := "10.0.0.7"
  call := .enqueueTasks { adminSecret := "operator", taskType := "sleep", count := 2 }

/-- The same from somebody who does not know the secret. -/
def Demo.guess : ApiRequest where
  callerIp := "203.0.113.9"
  xAdminSecret := "guess"
  call := .enqueueTasks { adminSecret := "operator", taskType := "sleep", count := 2 }

/-- The operator asks how long the queue is. -/
def Demo.howLong : ApiRequest where
  callerIp := "10.0.0.7"
  xAdminSecret := "operator"
  call := .taskQueueDepth

def Demo.context : ApiContext where
  now := 0
  correlationId := "demo"
  taskIds := Demo.drawn
  attemptIds := Demo.drawn
  locked := []
  workers _ := true

/-- Three requests are in flight at once. The depth is read before the two tasks are there
and the counts after; the operator's client is gone before its `201` is sent. -/
def Demo.requests : List ApiEvent := [.arrive 0 Demo.guess, .arrive 1 Demo.bulk,
  .arrive 2 Demo.howLong, .count 1, .count 0, .count 2, .serve 0 Demo.context,
  .serve 2 Demo.context, .serve 1 Demo.context, .reply 0, .read 2, .drop 1, .read 2, .reply 2]

/-- The guess is answered 401, and the tasks are there although nobody was told. -/
theorem Demo.requests_run : ∃ a, (operatorApi Demo.api Demo.schemas).Run Demo.requests a ∧
    a.db.tasks.rows.length = 2 ∧
    (∃ f, a.flights 0 = some f ∧ f.phase = .answered (.refusal 401 .invalidAdminCredential)) ∧
    (∃ f, a.flights 1 = some f ∧ f.phase = .dropped (some (.replies ⟨201,
      .queued 2 none "demo"⟩))) ∧
    ∃ f response, a.flights 2 = some f ∧ f.phase = .answered response ∧
      response.body = .depth 0 (countsByStatus a.db) 0 := by
  have hfresh : FreshIds .empty Demo.context.taskIds 2 := Demo.drawn_fresh
  have hnone : FreshIds .empty Demo.context.taskIds 0 :=
    ⟨fun i hi => absurd hi (Nat.not_lt_zero i), fun i hi => absurd hi (Nat.not_lt_zero i)⟩
  refine ⟨_, ⟨{ db := .empty }, ⟨⟨rfl, rfl, rfl⟩, rfl⟩,
    .cons ⟨trivial, rfl⟩ <| .cons ⟨trivial, rfl⟩ <| .cons ⟨trivial, rfl⟩ <|
      .cons ⟨trivial, rfl⟩ <| .cons ⟨trivial, rfl⟩ <| .cons ⟨trivial, rfl⟩ <|
      .cons ⟨?_, rfl⟩ <| .cons ⟨?_, rfl⟩ <| .cons ⟨?_, rfl⟩ <| .cons ⟨trivial, rfl⟩ <|
      .cons ⟨trivial, rfl⟩ <| .cons ⟨trivial, rfl⟩ <| .cons ⟨trivial, rfl⟩ <|
      .cons ⟨trivial, rfl⟩ .nil⟩, ?_, ?_, ?_, ?_⟩
  · intro f hf
    obtain rfl := Option.some.inj hf
    exact hfresh
  · intro f hf
    obtain rfl := Option.some.inj hf
    exact hnone
  · intro f hf
    obtain rfl := Option.some.inj hf
    exact hfresh
  · decide +kernel
  · exact ⟨_, rfl, rfl⟩
  · exact ⟨_, rfl, rfl⟩
  · exact ⟨_, _, rfl, rfl, rfl⟩

end TaskFleet.Model
