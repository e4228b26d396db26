import TaskFleet.Model.Fleet

/-!
# `cancel_on_worker`: the cancels beside the fleet

`reclaim_once` commits what it took back and then publishes a `task_cancel` for each row,
on the push channel of the worker that lost it; the replica with the worker's socket
forwards what arrives there. The fleet has the socket and the sweep, and here are the
places in between: a cancel is `owed` from the commit to the publish, and then on the
`channel`. Nothing orders either against the assignments, which are put on the socket
directly, and a cancel that finds nobody subscribed is lost.

A cancel names a task. The attempt it was issued for is a ghost, like everything the net
keeps beside the two queues: `record` writes it and no step reads it.
-/

namespace TaskFleet.Model

open Py

/-- A `task_cancel` of `reclaim_once`. -/
structure Cancel where
  taskId : Uuid
  /-- The attempt that was reclaimed; it is a ghost. -/
  attempt : ℕ
  deriving DecidableEq, Repr

/-- A cancel met an attempt. -/
structure Strike where
  taskId : Uuid
  /-- The attempt the cancel was issued for. -/
  issuedFor : ℕ
  struck : ℕ
  deriving DecidableEq, Repr

structure Net where
  fleet : Fleet
  /-- Reclaimed by a sweep that has still to publish. -/
  owed : List Cancel := []
  /-- Published and not yet forwarded, oldest first. -/
  channel : List Cancel := []
  /-- For each frame on the worker's socket the cancel it is, if it is one. -/
  socket : List (Option Cancel) := []
  /-- The executions that were acknowledged with `accepted: true`, and for what attempt. -/
  accepted : List (Token × ℕ) := []
  /-- The executions that a cancel told to stop, and what attempt it was issued for. -/
  hit : List (Token × ℕ) := []
  /-- The attempt of the last delivery that was credited. -/
  credit : Uuid → ℕ := fun _ => 0
  /-- The executions that stopped for a cancel, one entry for each attempt accepted. -/
  stopped : List Strike := []
  /-- The credits that the `capacity` of such an execution gave back. -/
  released : List Strike := []

inductive NetLabel where
  | fleet (l : Label)
  /-- A replica publishes what one of its sweeps owes. -/
  | publish (k : ℕ)
  /-- The replica with the socket forwards the oldest message. -/
  | deliver
  /-- Nobody received it, or the publish failed. -/
  | lose

/-- The step of the fleet that it is. -/
def NetLabel.fleet? : NetLabel → Option Label
  | .fleet l => some l
  | _ => none

/-- What a log has about an execution. -/
def attemptsOf (log : List (Token × ℕ)) (execution : Token) : List ℕ :=
  (log.filter fun entry => entry.1 = execution).map Prod.snd

theorem mem_attemptsOf {log : List (Token × ℕ)} {execution : Token} {i : ℕ} :
    i ∈ attemptsOf log execution ↔ (execution, i) ∈ log := by
  simp [attemptsOf]

namespace Fleet

/-- The cancels a transaction owes to the worker under watch, which are those of
`reclaim_once`. -/
def issues (x : Setting) (f : Fleet) (now : Seconds) (op : Op) : List Cancel :=
  match (apply x.cfg x.schemas f.db now op).2 with
  | .reclaimed rows =>
      (rows.filter fun r => r.previousWorkerId = some x.workerId).map fun r =>
        ⟨r.id, r.attemptCount - 1⟩
  | _ => []

/-- The execution that a `task_assign` is acknowledged for with `accepted: true`: the one
it starts, or the one that is there. -/
def acknowledges (x : Setting) (f : Fleet) (token : Token) (task : ClaimedTask) : Option Token :=
  match f.runner.admission x.worker task.id task.taskType with
  | .admitted => some token
  | .duplicate => (f.runner.running.get? task.id).map RunningTask.idempotencyToken
  | _ => none

/-- The execution that a `task_cancel` makes a difference to. -/
def cancellable (f : Fleet) (taskId : Uuid) : Option Token :=
  ((f.runner.running.get? taskId).filter fun r => !r.ended && !r.cancel).map
    RunningTask.idempotencyToken

/-- The execution has not left its executor, or its `capacity` is on the socket. -/
def unsettled (f : Fleet) (taskId : Uuid) (execution : Token) : Bool :=
  (f.runner.running.get? taskId).any (fun r => r.idempotencyToken = execution && !r.ended) ||
    f.toCoordinator.any fun
      | .capacity id token => id = taskId && token = execution
      | _ => false

end Fleet

namespace Net

/-- The cancels that no worker has read. -/
def underWay (n : Net) : List Cancel := n.owed ++ n.channel ++ n.socket.reduceOption

/-- The attempts of the task that cancels were issued for which may still do something:
they are under way, or what they stopped is not settled. -/
def pending (n : Net) (taskId : Uuid) : List ℕ :=
  (n.underWay.filter fun c => c.taskId = taskId).map Cancel.attempt ++
    (n.hit.filter fun h => n.fleet.unsettled taskId h.1).map Prod.snd

/-- The execution of the task stops because it was cancelled. -/
def stops (n : Net) (taskId : Uuid) : List Strike :=
  match n.fleet.runner.running.get? taskId with
  | some r =>
      (attemptsOf n.hit r.idempotencyToken).flatMap fun i =>
        (attemptsOf n.accepted r.idempotencyToken).map fun j => ⟨taskId, i, j⟩
  | none => []

/-- The message the read loop is about to handle takes the key of a delivery. -/
def releases (n : Net) : List Strike :=
  match n.fleet.session, n.fleet.toCoordinator with
  | some s, .capacity taskId execution :: _ =>
      if s.credited.contains taskId.str then
        (attemptsOf n.hit execution).map fun i => ⟨taskId, i, n.credit taskId⟩
      else []
  | _, _ => []

/-- The worker reads the frame at the head of the socket. -/
def read (x : Setting) (n : Net) (token : Token) : Net :=
  match n.fleet.toWorker, n.socket with
  | .taskAssign _ task :: _, _ =>
      { n with
        accepted := n.accepted ++ (n.fleet.acknowledges x token task).toList.map fun execution =>
          (execution, task.attemptCount) }
  | .taskCancel taskId :: _, some c :: _ =>
      { n with
        hit := n.hit ++ (n.fleet.cancellable taskId).toList.map fun execution =>
          (execution, c.attempt) }
  | _, _ => n

/-- What a step of the fleet adds to the books. -/
def record (x : Setting) (n : Net) : Label → Net
  | .environment now op => { n with owed := n.owed ++ n.fleet.issues x now op }
  -- a socket starts out empty
  | .connect | .disconnect => { n with socket := [] }
  | .welcome _ | .send | .answer | .pushCancel _ => { n with socket := n.socket ++ [none] }
  | .registerDelivery =>
      match n.fleet.assigning with
      | task :: _ => { n with credit := Function.update n.credit task.id task.attemptCount }
      | [] => n
  | .workerRead token => { n.read x token with socket := n.socket.tail }
  | .finish taskId .cancelled => { n with stopped := n.stopped ++ n.stops taskId }
  | .coordRead _ _ _ => { n with released := n.released ++ n.releases }
  | _ => n

/-- One step of the net; `none` where it cannot be taken. -/
def step (x : Setting) (n : Net) : NetLabel → Option Net
  | .fleet l => (n.fleet.step x l).map fun f => { n.record x l with fleet := f }
  | .publish k =>
      n.owed[k]?.map fun c => { n with owed := n.owed.eraseIdx k, channel := n.channel ++ [c] }
  | .deliver =>
      match n.channel with
      | c :: rest =>
          (n.fleet.step x (.pushCancel c.taskId)).map fun f =>
            { n with fleet := f, channel := rest, socket := n.socket ++ [some c] }
      | [] => none
  | .lose =>
      match n.channel with
      | _ :: rest => some { n with channel := rest }
      | [] => none

/-- What the database and `uuid4` guarantee about a step. -/
def Admissible (n : Net) : NetLabel → Prop
  | .fleet l => n.fleet.Admissible l
  | _ => True

/-- Nothing is under way beside a fleet that starts. -/
def initial (f : Fleet) : Net where
  fleet := f

end Net

/-- The fleet with the cancels of its sweeps, as a transition system. -/
def net (x : Setting) : System Net NetLabel where
  init n := ∃ f, (fleet x).init f ∧ n = .initial f
  step n l n' := n.Admissible l ∧ n.step x l = some n'

namespace Net

/-! ## What a step can do -/

/-- The steps, one rule for each kind. -/
inductive Step (x : Setting) (n : Net) : NetLabel → Net → Prop
  | fleet {l : Label} {f : Fleet} (hstep : (Model.fleet x).step n.fleet l f) :
      Step x n (.fleet l) { n.record x l with fleet := f }
  | publish {k : ℕ} {c : Cancel} (hc : n.owed[k]? = some c) :
      Step x n (.publish k) { n with owed := n.owed.eraseIdx k, channel := n.channel ++ [c] }
  | deliver {c : Cancel} {rest : List Cancel} {f : Fleet} (hchannel : n.channel = c :: rest)
      (hstep : (Model.fleet x).step n.fleet (.pushCancel c.taskId) f) :
      Step x n .deliver { n with fleet := f, channel := rest, socket := n.socket ++ [some c] }
  | lose {c : Cancel} {rest : List Cancel} (hchannel : n.channel = c :: rest) :
      Step x n .lose { n with channel := rest }

variable {x : Setting} {n n' : Net} {l : NetLabel}

theorem step_cases (h : (net x).step n l n') : Step x n l n' := by
  obtain ⟨hadm, hstep⟩ := h
  cases l with
  | fleet l =>
      obtain ⟨f, hf, rfl⟩ := Option.map_eq_some_iff.mp hstep
      exact .fleet ⟨hadm, hf⟩
  | publish k =>
      obtain ⟨c, hc, rfl⟩ := Option.map_eq_some_iff.mp hstep
      exact .publish hc
  | deliver =>
      simp only [step] at hstep
      split at hstep
      · next c rest hchannel =>
          obtain ⟨f, hf, rfl⟩ := Option.map_eq_some_iff.mp hstep
          exact .deliver hchannel ⟨trivial, hf⟩
      · cases hstep
  | lose =>
      simp only [step] at hstep
      split at hstep
      · next c rest hchannel =>
          obtain rfl := Option.some.inj hstep
          exact .lose hchannel
      · cases hstep

/-- The net moves the fleet by a step of its own, or not at all. -/
theorem Step.fleetMove (h : Step x n l n') :
    n'.fleet = n.fleet ∨ ∃ l', (Model.fleet x).step n.fleet l' n'.fleet := by
  cases h with
  | fleet hstep => exact .inr ⟨_, hstep⟩
  | publish => exact .inl rfl
  | deliver hchannel hstep => exact .inr ⟨_, hstep⟩
  | lose => exact .inl rfl

/-- **The net runs the fleet.** -/
theorem Reachable.fleet (h : (net x).Reachable n) : (Model.fleet x).Reachable n.fleet := by
  refine h.invariant (P := fun n => (Model.fleet x).Reachable n.fleet) ?_ ?_
  · rintro _ ⟨f, hf, rfl⟩
    exact (System.Run.nil hf).reachable
  · intro n l n' _ ih hstep
    rcases (step_cases hstep).fleetMove with heq | ⟨l', hl'⟩
    · rwa [heq]
    · obtain ⟨ls, hrun⟩ := ih
      exact (hrun.snoc hl').reachable

/-! ## Playing labels -/

/-- The values the label was made with are new. -/
def fresh (n : Net) : NetLabel → Bool
  | .fleet l => n.fleet.fresh l
  | _ => true

/-- What `random()` guarantees of a label. -/
def Drawn : NetLabel → Prop
  | .fleet l => l.Drawn
  | _ => True

/-- Only the steps of the fleet draw. -/
theorem drawn_of_fleet {ls : List NetLabel} (h : ∀ l ∈ ls.filterMap NetLabel.fleet?, l.Drawn) :
    ∀ l ∈ ls, Drawn l := by
  intro l hl
  cases l with
  | fleet l => exact h l (List.mem_filterMap.mpr ⟨_, hl, rfl⟩)
  | _ => trivial

/-- One label after another, each of which meets `G`. -/
def play (x : Setting) (G : Net → NetLabel → Prop) [∀ n l, Decidable (G n l)] :
    Net → List NetLabel → Option Net
  | n, [] => some n
  | n, l :: ls => if n.fresh l ∧ G n l then (n.step x l).bind fun m => play x G m ls else none

theorem play_trace {G : Net → NetLabel → Prop} [∀ n l, Decidable (G n l)] {ls : List NetLabel} :
    ∀ {n m : Net}, (∀ l ∈ ls, Drawn l) → play x G n ls = some m →
      ((net x).guarded G).Trace n ls m := by
  induction ls with
  | nil =>
      intro n m _ h
      obtain rfl := Option.some.inj h
      exact .nil
  | cons l ls ih =>
      intro n m hdrawn h
      simp only [play] at h
      split at h
      · next hcond =>
          obtain ⟨n', hstep, hplay⟩ := Option.bind_eq_some_iff.mp h
          have hadm : n.Admissible l := by
            cases l with
            | fleet l => exact Fleet.admissible_of_fresh (hdrawn _ (.head _)) hcond.1
            | _ => trivial
          exact .cons ⟨⟨hadm, hstep⟩, hcond.2⟩ (ih (fun l' hl' => hdrawn l' (.tail _ hl')) hplay)
      · cases h

/-- What is played on the empty database is a run. -/
theorem play_run {G : Net → NetLabel → Prop} [∀ n l, Decidable (G n l)]
    {ls : List NetLabel} {m : Net}
    (hdrawn : ∀ l ∈ ls, Drawn l) (h : play x G (.initial (.initial x .empty)) ls = some m) :
    ((net x).guarded G).Run ls m :=
  ⟨_, ⟨_, ⟨.empty, ⟨rfl, rfl, rfl⟩, rfl⟩, rfl⟩, play_trace hdrawn h⟩

end Net

end TaskFleet.Model
