import TaskFleet.Logic.RowShape
import TaskFleet.Logic.SessionPhases
import TaskFleet.Model.QueueRun

/-!
# A superseded teardown is harmless

The `finally` block of `ws_connect` reads the registry key once and then makes
three writes that matter: it deletes the key, moves the worker to `OFFLINE` and
shortens its leases. The read tells a superseded session from a live one only if
nobody takes the key before the last of the writes. In every run where the
handshakes take it in their turn (`ClaimedInTurn`), no teardown harms the newest
session (`superseded_teardown_harmless`).
-/

namespace TaskFleet.Model

open Py Sql

/-! ## The condition -/

/-- The `finally` block has read its own epoch in the registry key and has not
returned. -/
def Phase.isTearingDown : Phase → Bool
  | .clearing | .leaving => true
  | _ => false

/-- The handshake up to the write of the registry key. -/
def Phase.isBeforeClaim : Phase → Bool
  | .greeting | .announcing | .claiming => true
  | _ => false

/-- The registry key is written in its turn. -/
structure ClaimedInTurn (s : WsState) (e : WsEvent) : Prop where
  /-- By a handshake whose epoch is above every established one, and while no
  teardown stands between its read of the key and its end. -/
  claim : ∀ i now x, e = .act i (.turn now) → s.sessions i = some x → x.phase = .claiming →
    ∀ j y, s.sessions j = some y → y.phase.isTearingDown = false ∧
      (y.phase.isEstablished = true → y.sessionEpoch < x.sessionEpoch)
  /-- It does not run out under an established socket. -/
  expire : e = .expireRegistry → ∀ i x, s.sessions i = some x → x.phase.isEstablished = false

/-- No socket above the epoch has taken the registry key. -/
def WsState.Newest (s : WsState) (sessionEpoch : Nat) : Prop :=
  ∀ i x, s.sessions i = some x → sessionEpoch < x.sessionEpoch → x.phase.isBeforeClaim = true

/-- Socket `b` is established and the newest that is. -/
structure Stands (s : WsState) (b : ℕ) (y : WsSession) : Prop where
  there : s.sessions b = some y
  established : y.phase.isEstablished = true
  newest : s.Newest y.sessionEpoch

/-- The event is no turn with an earlier clock. -/
def WsEvent.NotBefore (now : Seconds) : WsEvent → Prop
  | .act _ (.turn later) => now ≤ later
  | _ => True

/-- No live lease of the worker is earlier than in `renewed`. -/
def NotEarlier (workerId : Uuid) (renewed db : Db) : Prop :=
  ∀ task ∈ db.tasks, task.status.isLive = true → task.assignedWorkerId = some workerId →
    ∃ before ∈ renewed.tasks, before.id = task.id ∧
      ∀ earlier, before.leaseExpiresAt = some earlier →
        ∃ lease, task.leaseExpiresAt = some lease ∧ earlier ≤ lease

theorem Phase.not_established_of_isBeforeClaim {p : Phase} (h : p.isBeforeClaim = true) :
    p.isEstablished = false := by
  cases p <;> first | rfl | cases h

theorem Phase.hasEpoch_of_isEstablished {p : Phase} (h : p.isEstablished = true) :
    p.hasEpoch = true := by
  cases p <;> first | rfl | cases h

theorem Phase.not_tearingDown_of_isEstablished {p : Phase} (h : p.isEstablished = true) :
    p.isTearingDown = false := by
  cases p <;> first | rfl | cases h

section

variable {cfg : Config} {workerId : Uuid} {i : ℕ} {s s' : SharedState} {x x' : WsSession}
  {action : WsAction}

/-! ## The registry key -/

/-- A socket is established by taking the registry key, which it then leaves
alone. -/
theorem WsMove.established (hm : WsMove i s x action s' x') (h : x'.phase.isEstablished = true) :
    (x.phase.isEstablished = true ∧ s'.registry = s.registry ∧ x'.sessionEpoch = x.sessionEpoch ∧
        x'.instanceId = x.instanceId) ∨
      x.phase = .claiming ∧ (∃ now, action = .turn now) ∧ x'.sessionEpoch = x.sessionEpoch ∧
        s'.registry = some ⟨x'.sessionEpoch, x'.instanceId⟩ := by
  cases hm with
  | draw _ hphase => rw [hphase] at h; cases h
  | announce | unregister | keep | clear | finish => cases h
  | @claim now hpc => exact .inr ⟨by rw [WsSession.phase, hpc]; rfl, ⟨now, rfl⟩, rfl, rfl⟩
  | register hphase => exact .inl ⟨by rw [hphase]; rfl, rfl, rfl, rfl⟩
  | listen | hangUp | close => exact .inl ⟨h, rfl, rfl, rfl⟩
  | advance hkeys hphase => exact .inl ⟨hphase ▸ h, hkeys.registry, rfl, rfl⟩

/-- A handshake does not go back before the write of the key. -/
theorem WsMove.beforeClaim (hm : WsMove i s x action s' x') (h : x'.phase.isBeforeClaim = true) :
    x.phase.isBeforeClaim = true := by
  cases hm with
  | draw hphase => rw [hphase]; rfl
  | announce hpc | claim hpc => rw [WsSession.phase, hpc]; rfl
  | register | unregister | keep | clear | finish => cases h
  | listen | hangUp | close => exact h
  | advance hkeys hphase => exact hphase ▸ h

/-- What another socket does to the key: nothing, unless the key names it or it is
taking it. -/
theorem WsMove.beside (hm : WsMove i s x action s' x') (hdown : x.phase.isTearingDown = false)
    (hother : ∀ current, s.registry = some current → current.sessionEpoch ≠ x.sessionEpoch)
    (hclaim : x.phase = .claiming → x'.phase.isEstablished = false) :
    s'.registry = s.registry ∧ x'.phase.isTearingDown = false := by
  cases hm with
  | draw _ hphase => exact ⟨rfl, by rw [hphase]; rfl⟩
  | announce | register | unregister => exact ⟨rfl, rfl⟩
  | claim hpc => cases hclaim (by rw [WsSession.phase, hpc]; rfl)
  | keep _ hregistry hepoch => exact absurd hepoch (hother _ hregistry)
  | clear hphase => rw [hphase] at hdown; cases hdown
  | listen | hangUp | close => exact ⟨rfl, hdown⟩
  | finish hkeys => exact ⟨hkeys.registry, rfl⟩
  | advance hkeys hphase =>
      refine ⟨hkeys.registry, ?_⟩
      rw [← hphase] at hdown
      exact hdown

/-! ## The status -/

/-- `_transition_status(…, "ONLINE", …)` has returned. -/
def WsPc.isOnline : WsPc → Bool
  | .mergeMetrics | .renewLeases | .receive => true
  | _ => false

/-- What a socket on its way to `ONLINE` knows of the row. -/
structure Onlining (s : SharedState) (x : WsSession) : Prop where
  loaded : ∀ loaded, x.pc = .onlineCommit loaded → loaded.status ≠ .online
  online : x.pc.isOnline = true → s.row.status ≠ .offline

theorem Onlining.elsewhere (hcommit : ∀ loaded, x.pc ≠ .onlineCommit loaded)
    (honline : x.pc.isOnline = false) :
    Onlining s x where
  loaded loaded hpc := absurd hpc (hcommit loaded)
  online h := absurd h (by simp [honline])

/-- Once it is there, the row is not left `OFFLINE`. -/
theorem onlining_act (h : wsAct cfg workerId i s x action = some (s', x')) (hon : Onlining s x) :
    Onlining s' x' := by
  cases action with
  | turn now =>
      cases hpc : x.pc <;> simp only [wsAct, wsConnect, hpc] at h
      case receive | returned => cases h
      case online =>
        cases h
        cases hmoves : s.row.moves .online with
        | true =>
            refine ⟨fun loaded hloaded => ?_, fun honline => by simp [WsPc.isOnline] at honline⟩
            obtain rfl : s.row = loaded := by simpa using hloaded
            exact (by simpa [WorkerRow.moves] using hmoves : _ ∧ _).1
        | false =>
            refine ⟨fun loaded hloaded => by simp at hloaded, fun _ hoffline => ?_⟩
            rw [WorkerRow.moves, hoffline] at hmoves
            cases hmoves
      case onlineCommit loaded =>
        cases h
        refine ⟨fun _ hpc => by simp at hpc, fun _ hoffline => ?_⟩
        have hwritten : (s.transition loaded .online).row.status = .online := by
          simp [SharedState.transition, WorkerRow.flush, (hon.loaded loaded hpc).symm]
        rw [hwritten] at hoffline
        cases hoffline
      case mergeMetrics | renewLeases =>
        cases h
        exact ⟨fun _ hpc => by simp at hpc, fun _ => hon.online (by rw [hpc]; rfl)⟩
      case connecting | offline =>
        cases h
        constructor
        · intro loaded hloaded
          simp only at hloaded
          split at hloaded <;> cases hloaded
        · intro honline
          simp only at honline
          split at honline <;> cases honline
      case getRegistry =>
        split at h
        · split at h <;> cases h <;> exact .elsewhere (by simp) rfl
        · cases h; exact .elsewhere (by simp) rfl
      all_goals (cases h; exact .elsewhere (by simp) rfl)
  | raise =>
      cases hpc : x.pc <;> simp only [wsAct, wsConnectRaise, hpc] at h
      case renewLeases =>
        cases h
        exact ⟨fun _ hpc => by simp at hpc, fun _ => hon.online (by rw [hpc]; rfl)⟩
      case returned => cases h
      all_goals (cases h; exact .elsewhere (by simp) rfl)
  | hangUp => cases h; exact ⟨hon.loaded, hon.online⟩
  | listen =>
      obtain ⟨y, hy, hpair⟩ := Option.map_eq_some_iff.mp h
      cases hpair
      obtain ⟨closed, listener, rfl⟩ := controlListener_eq hy
      exact ⟨hon.loaded, hon.online⟩

/-- Only a teardown moves the row to `OFFLINE`. -/
theorem status_act (h : wsAct cfg workerId i s x action = some (s', x'))
    (hdown : x.phase.isTearingDown = false) (hrow : s.row.status ≠ .offline) :
    s'.row.status ≠ .offline := by
  have hmoved : ∀ (loaded : WorkerRow) (status : WorkerStatus), status ≠ .offline →
      (s.transition loaded status).row.status ≠ .offline := by
    intro loaded status hstatus
    simp only [SharedState.transition, WorkerRow.flush]
    split
    · exact hrow
    · exact hstatus
  cases action with
  | turn now =>
      cases hpc : x.pc <;> simp only [wsAct, wsConnect, hpc] at h
      case receive | returned => cases h
      case connectingCommit loaded => cases h; exact hmoved loaded .connecting (by decide)
      case onlineCommit loaded => cases h; exact hmoved loaded .online (by decide)
      case getRegistry =>
        split at h
        · split at h <;> cases h <;> exact hrow
        · cases h; exact hrow
      case offlineCommit => rw [WsSession.phase, hpc] at hdown; cases hdown
      all_goals (cases h; exact hrow)
  | raise =>
      cases hpc : x.pc <;> simp only [wsAct, wsConnectRaise, hpc] at h
      case returned => cases h
      all_goals (cases h; exact hrow)
  | hangUp => cases h; exact hrow
  | listen =>
      obtain ⟨y, hy, hpair⟩ := Option.map_eq_some_iff.mp h
      cases hpair
      exact hrow

/-! ## The leases -/

/-- The leases of the worker's live rows are those of a renewal at `now` or after it. -/
def RenewedSince (cfg : Config) (workerId : Uuid) (now : Seconds) (renewed db : Db) : Prop :=
  ∀ task ∈ db.tasks, task.status.isLive = true → task.assignedWorkerId = some workerId →
    ∃ before ∈ renewed.tasks, before.id = task.id ∧
      before.leaseExpiresAt = renewalTarget cfg now task.deadlineAt ∧
      ∃ later, now ≤ later ∧ task.leaseExpiresAt = renewalTarget cfg later task.deadlineAt

/-- What `renew_worker_leases` leaves of a live row of the worker. -/
theorem mem_renewWorkerLeases {db : Db} {now : Seconds} {task : Task}
    (h : task ∈ (renewWorkerLeases cfg db now workerId).1.tasks)
    (hlive : task.status.isLive = true) (hworker : task.assignedWorkerId = some workerId) :
    ∃ row ∈ db.tasks, row.status.isLive = true ∧ row.assignedWorkerId = some workerId ∧
      task = row.renew cfg now := by
  simp only [renewWorkerLeases, Table.mem_updateWhere Task.renew_id] at h
  obtain ⟨row, hrow, rfl⟩ := h
  split at hlive
  · next hmatched =>
      obtain ⟨hheld, hlive'⟩ := heldLive_holds.mp hmatched
      exact ⟨row, hrow, hlive', hheld, by rw [if_pos hmatched]⟩
  · next hmatched =>
      rw [if_neg hmatched] at hworker
      exact absurd (heldLive_holds.mpr ⟨hworker, hlive⟩) hmatched

theorem RenewedSince.of_renewal (db : Db) (now : Seconds) :
    RenewedSince cfg workerId now (renewWorkerLeases cfg db now workerId).1
      (renewWorkerLeases cfg db now workerId).1 := by
  intro task htask hlive hworker
  obtain ⟨row, -, -, -, rfl⟩ := mem_renewWorkerLeases htask hlive hworker
  exact ⟨_, htask, rfl, rfl, now, le_rfl, rfl⟩

theorem RenewedSince.renew {renewed db : Db} {now later : Seconds}
    (h : RenewedSince cfg workerId now renewed db) (hle : now ≤ later) :
    RenewedSince cfg workerId now renewed (renewWorkerLeases cfg db later workerId).1 := by
  intro task htask hlive hworker
  obtain ⟨row, hrow, hlive', hworker', rfl⟩ := mem_renewWorkerLeases htask hlive hworker
  obtain ⟨before, hbefore, hid, hlease, -⟩ := h row hrow hlive' hworker'
  exact ⟨before, hbefore, hid, hlease, later, hle, rfl⟩

theorem RenewedSince.notEarlier {renewed db : Db} {now : Seconds}
    (h : RenewedSince cfg workerId now renewed db) : NotEarlier workerId renewed db := by
  intro task htask hlive hworker
  obtain ⟨before, hbefore, hid, hlease, later, hle, hlater⟩ := h task htask hlive hworker
  refine ⟨before, hbefore, hid, fun earlier hearlier => ?_⟩
  have hplus : now + (cfg.taskLeaseTtlSeconds : Seconds) ≤ later + cfg.taskLeaseTtlSeconds :=
    add_le_add_left hle _
  rw [hlease] at hearlier
  rw [hlater]
  cases hdeadline : task.deadlineAt with
  | none =>
      rw [hdeadline] at hearlier
      cases hearlier
      exact ⟨_, rfl, hplus⟩
  | some deadline =>
      rw [hdeadline] at hearlier
      cases hearlier
      exact ⟨_, rfl, min_le_min_right deadline hplus⟩

/-- A socket whose teardown has not begun changes leases by a renewal only. -/
theorem leases_act (h : wsAct cfg workerId i s x action = some (s', x'))
    (hdown : x.phase.isTearingDown = false) :
    s'.db = s.db ∨ ∃ now, action = .turn now ∧
      s'.db = (renewWorkerLeases cfg s.db now workerId).1 := by
  cases action with
  | turn now =>
      cases hpc : x.pc <;> simp only [wsAct, wsConnect, hpc] at h
      case receive | returned => cases h
      case renewLeases => cases h; exact .inr ⟨now, rfl, rfl⟩
      case getRegistry =>
        split at h
        · split at h <;> cases h <;> exact .inl rfl
        · cases h; exact .inl rfl
      case shortenLeases => rw [WsSession.phase, hpc] at hdown; cases hdown
      all_goals (cases h; exact .inl rfl)
  | raise =>
      cases hpc : x.pc <;> simp only [wsAct, wsConnectRaise, hpc] at h
      case returned => cases h
      all_goals (cases h; exact .inl rfl)
  | hangUp => cases h; exact .inl rfl
  | listen =>
      obtain ⟨y, hy, hpair⟩ := Option.map_eq_some_iff.mp h
      cases hpair
      exact .inl rfl

end

/-! ## All sockets together -/

section

variable {cfg : Config} {workerId : Uuid} {b : ℕ} {s t : WsState} {y : WsSession} {e : WsEvent}
  {es : List WsEvent}

/-- The newest epoch of a state was the newest before the event. -/
theorem newest_before {n : Nat} (hs : wsStep cfg workerId s e = some t) (h : t.Newest n) :
    s.Newest n := by
  intro j z hz hlt
  rcases wsStep_cases hs with ⟨i, instanceId, -, hnew, rfl⟩ | ⟨i, action, x, s', x', -, hx, hact,
    rfl⟩ | ⟨-, rfl⟩
  · have hji : j ≠ i := by rintro rfl; rw [hnew] at hz; cases hz
    exact h j z ((Function.update_of_ne hji _ _).trans hz) hlt
  · by_cases hji : j = i
    · subst hji
      cases hx.symm.trans hz
      have hm := wsAct_move hact
      rcases hm.epoch with ⟨hepoch, -⟩ | ⟨hdrawn, -⟩
      · exact hm.beforeClaim (h j x' (Function.update_self _ _ _) (hepoch ▸ hlt))
      · exact hm.beforeClaim (by rw [hdrawn]; rfl)
    · exact h j z ((Function.update_of_ne hji _ _).trans hz) hlt
  · exact h j z hz hlt

/-- What an undisturbed run keeps of the newest established socket. -/
structure Unharmed (s : WsState) : Prop where
  named : ∀ b y, Stands s b y → s.shared.registry = some ⟨y.sessionEpoch, y.instanceId⟩
  spared : ∀ b y, Stands s b y → ∀ a x, s.sessions a = some x → x.phase.isTearingDown = false
  onlining : ∀ b y, Stands s b y → Onlining s.shared y

/-- The move of another socket beside it. -/
theorem Unharmed.beside (h : Unharmed s) (hnum : Numbered s) {i : ℕ} {action : WsAction}
    {x x' : WsSession} {s' : SharedState} (hguard : ClaimedInTurn s (.act i action))
    (hx : s.sessions i = some x) (hact : wsAct cfg workerId i s.shared x action = some (s', x'))
    (hbi : b ≠ i) (hy : Stands s b y)
    (hnewest : y.sessionEpoch < x'.sessionEpoch → x'.phase.isBeforeClaim = true) :
    s'.registry = s.shared.registry ∧ x'.phase.isTearingDown = false := by
  have hm := wsAct_move hact
  have hnamed := h.named b y hy
  refine hm.beside (h.spared b y hy i x hx) (fun current hcurrent heq => hbi ?_)
    fun hclaiming => ?_
  · cases hnamed.symm.trans hcurrent
    have hpos := hnum.positive b y hy.there (Phase.hasEpoch_of_isEstablished hy.established)
    exact hnum.distinct b y i x hy.there hx hpos heq
  · by_contra hestablished
    rw [Bool.not_eq_false] at hestablished
    rcases hm.established hestablished with ⟨hbefore, -⟩ | ⟨-, ⟨now, rfl⟩, hepoch, -⟩
    · rw [hclaiming] at hbefore
      cases hbefore
    · have hlt := (hguard.claim i now x rfl hx hclaiming b y hy.there).2 hy.established
      have hbefore := Phase.not_established_of_isBeforeClaim (hnewest (hepoch ▸ hlt))
      rw [hestablished] at hbefore
      cases hbefore

theorem unharmed_accept (h : Unharmed s) {i : ℕ} {instanceId : InstanceId}
    (hnew : s.sessions i = none) :
    Unharmed { s with
      sessions := Function.update s.sessions i (some { instanceId := instanceId }) } := by
  -- a fresh socket has not taken the key
  have hold : ∀ b y, Stands { s with
      sessions := Function.update s.sessions i (some { instanceId := instanceId }) } b y →
      Stands s b y := by
    intro b y hy
    have hthere := hy.there
    simp only [Function.update_apply] at hthere
    split at hthere
    · cases hthere
      cases hy.established
    · refine ⟨hthere, hy.established, fun j z hz hlt => ?_⟩
      have hji : j ≠ i := by rintro rfl; rw [hnew] at hz; cases hz
      exact hy.newest j z ((Function.update_of_ne hji _ _).trans hz) hlt
  refine ⟨fun b y hy => h.named b y (hold b y hy), fun b y hy a z hz => ?_,
    fun b y hy => h.onlining b y (hold b y hy)⟩
  simp only [Function.update_apply] at hz
  split at hz
  · cases hz
    rfl
  · exact h.spared b y (hold b y hy) a z hz

section

variable {i : ℕ} {action : WsAction} {x x' : WsSession} {s' : SharedState}

/-- Whoever stands after a move is the one that moved, which stood or takes the key
now, or it stood before. -/
theorem Stands.before (hx : s.sessions i = some x)
    (hact : wsAct cfg workerId i s.shared x action = some (s', x'))
    (hy : Stands ⟨s', Function.update s.sessions i (some x')⟩ b y) :
    (b = i ∧ y = x' ∧ Stands s i x ∧ s'.registry = s.shared.registry ∧
        x'.sessionEpoch = x.sessionEpoch ∧ x'.instanceId = x.instanceId) ∨
    (b = i ∧ y = x' ∧ x.phase = .claiming ∧ (∃ now, action = .turn now) ∧
        s'.registry = some ⟨x'.sessionEpoch, x'.instanceId⟩) ∨
    b ≠ i ∧ Stands s b y ∧ (y.sessionEpoch < x'.sessionEpoch → x'.phase.isBeforeClaim = true) := by
  have hs : wsStep cfg workerId s (.act i action) =
      some ⟨s', Function.update s.sessions i (some x')⟩ := by
    simp only [wsStep, hx, hact, Option.map_some]
  have hthere := hy.there
  simp only [Function.update_apply] at hthere
  split at hthere
  · next hbi =>
      cases hthere
      rcases (wsAct_move hact).established hy.established with
        ⟨hbefore, hregistry, hepoch, hinstance⟩ | ⟨hclaiming, hnow, -, hregistry⟩
      · exact .inl ⟨hbi, rfl, ⟨hx, hbefore, hepoch ▸ newest_before hs hy.newest⟩, hregistry,
          hepoch, hinstance⟩
      · exact .inr (.inl ⟨hbi, rfl, hclaiming, hnow, hregistry⟩)
  · next hbi =>
      exact .inr (.inr ⟨hbi, ⟨hthere, hy.established, newest_before hs hy.newest⟩,
        hy.newest i x' (Function.update_self _ _ _)⟩)

theorem unharmed_act (h : Unharmed s) (hnum : Numbered s) (hguard : ClaimedInTurn s (.act i action))
    (hx : s.sessions i = some x) (hact : wsAct cfg workerId i s.shared x action = some (s', x')) :
    Unharmed ⟨s', Function.update s.sessions i (some x')⟩ := by
  refine ⟨fun b y hy => ?_, fun b y hy a z hz => ?_, fun b y hy => ?_⟩
  · rcases hy.before hx hact with ⟨-, rfl, hold, hregistry, hepoch, hinstance⟩ |
      ⟨-, rfl, -, -, hregistry⟩ | ⟨hbi, hold, hnewest⟩
    · rw [hepoch, hinstance]
      exact hregistry.trans (h.named i x hold)
    · exact hregistry
    · exact (h.beside hnum hguard hx hact hbi hold hnewest).1.trans (h.named b y hold)
  · simp only [Function.update_apply] at hz
    rcases hy.before hx hact with ⟨-, rfl, hold, -⟩ | ⟨-, rfl, hclaiming, ⟨now, rfl⟩, -⟩ |
      ⟨hbi, hold, hnewest⟩
    · split at hz
      · cases hz
        exact Phase.not_tearingDown_of_isEstablished hy.established
      · exact h.spared i x hold a z hz
    · split at hz
      · cases hz
        exact Phase.not_tearingDown_of_isEstablished hy.established
      · exact (hguard.claim i now x rfl hx hclaiming a z hz).1
    · split at hz
      · cases hz
        exact (h.beside hnum hguard hx hact hbi hold hnewest).2
      · exact h.spared b y hold a z hz
  · rcases hy.before hx hact with ⟨-, rfl, hold, -⟩ | ⟨-, rfl, hclaiming, -⟩ | ⟨hbi, hold, -⟩
    · exact onlining_act hact (h.onlining i x hold)
    · refine onlining_act hact (.elsewhere (fun loaded hpc => ?_) ?_)
      · rw [WsSession.phase, hpc] at hclaiming
        cases hclaiming
      · cases hpc : x.pc <;> rw [WsSession.phase, hpc] at hclaiming <;>
          first | rfl | cases hclaiming
    · exact ⟨(h.onlining b y hold).loaded, fun honline => status_act hact
        (h.spared b y hold i x hx) ((h.onlining b y hold).online honline)⟩

end

/-- **One event** of an undisturbed run. -/
theorem unharmed_step (h : Unharmed s) (hnum : Numbered s) (hguard : ClaimedInTurn s e)
    (hs : wsStep cfg workerId s e = some t) : Unharmed t := by
  rcases wsStep_cases hs with ⟨i, instanceId, -, hnew, rfl⟩ | ⟨i, action, x, s', x', rfl, hx, hact,
    rfl⟩ | ⟨rfl, rfl⟩
  · exact unharmed_accept h hnew
  · exact unharmed_act h hnum hguard hx hact
  · -- the key runs out only when nobody is established
    have hnone : ∀ b y, ¬ Stands { s with shared := s.shared.dropRegistry } b y := by
      intro b y hy
      have hnot := hguard.expire rfl b y hy.there
      rw [hy.established] at hnot
      cases hnot
    exact ⟨fun b y hy => absurd hy (hnone b y), fun b y hy => absurd hy (hnone b y),
      fun b y hy => absurd hy (hnone b y)⟩

/-- **Every undisturbed run.** -/
theorem unharmed_reachable (h : ((sockets cfg workerId).guarded ClaimedInTurn).Reachable t) :
    Unharmed t := by
  refine h.invariant (P := Unharmed) ?_ ?_
  · rintro s ⟨row, db, rfl⟩
    exact ⟨fun _ _ hy => (by cases hy.there), fun _ _ hy => (by cases hy.there),
      fun _ _ hy => (by cases hy.there)⟩
  · rintro s e t ⟨es, hrun⟩ hs ⟨hstep, hguard⟩
    exact unharmed_step hs (numbered_reachable hrun.of_guarded.reachable) hguard hstep

/-! ## From the renewal on -/

/-- Socket `b` is past its renewal, and while it stands, no lease is cut. -/
structure SessionKept (cfg : Config) (workerId : Uuid) (now : Seconds) (renewed : Db) (b : ℕ)
    (s : WsState) : Prop where
  past : ∃ y, s.sessions b = some y ∧ y.phase.isBeforeClaim = false ∧
    (y.phase.isEstablished = true → y.pc = .receive)
  leases : ∀ y, Stands s b y → RenewedSince cfg workerId now renewed s.shared.db

/-- A socket past its renewal goes on reading or is not established any more. -/
theorem reading_act {i : ℕ} {s s' : SharedState} {x x' : WsSession} {action : WsAction}
    (h : wsAct cfg workerId i s x action = some (s', x'))
    (hbefore : x.phase.isBeforeClaim = false)
    (hreads : x.phase.isEstablished = true → x.pc = .receive)
    (hestablished : x'.phase.isEstablished = true) :
    x.phase.isEstablished = true ∧ x'.pc = .receive ∧ s'.db = s.db := by
  rcases (wsAct_move h).established hestablished with ⟨hstood, -⟩ | ⟨hclaiming, -⟩
  · have hpc := hreads hstood
    refine ⟨hstood, ?_⟩
    cases action with
    | turn now => simp only [wsAct, wsConnect, hpc] at h; cases h
    | raise =>
        simp only [wsAct, wsConnectRaise, hpc] at h
        cases h
        cases hestablished
    | hangUp => cases h; exact ⟨hpc, rfl⟩
    | listen =>
        obtain ⟨y, hy, hpair⟩ := Option.map_eq_some_iff.mp h
        cases hpair
        obtain ⟨closed, listener, rfl⟩ := controlListener_eq hy
        exact ⟨hpc, rfl⟩
  · rw [hclaiming] at hbefore
    cases hbefore

theorem kept_step {now : Seconds} {renewed : Db} (h : SessionKept cfg workerId now renewed b s)
    (hunharmed : Unharmed s) (hlater : e.NotBefore now) (hs : wsStep cfg workerId s e = some t) :
    SessionKept cfg workerId now renewed b t := by
  obtain ⟨y, hy, hbefore, hreads⟩ := h.past
  have hback := fun n => newest_before (n := n) hs
  rcases wsStep_cases hs with ⟨i, instanceId, -, hnew, rfl⟩ | ⟨i, action, x, s', x', rfl, hx, hact,
    rfl⟩ | ⟨-, rfl⟩
  · have hbi : b ≠ i := by rintro rfl; rw [hnew] at hy; cases hy
    have hthere := (Function.update_of_ne hbi (some { instanceId := instanceId }) s.sessions)
    refine ⟨⟨y, hthere.trans hy, hbefore, hreads⟩, fun z hz => ?_⟩
    exact h.leases z ⟨hthere.symm.trans hz.there, hz.established, hback _ hz.newest⟩
  · by_cases hbi : b = i
    · subst hbi
      cases hx.symm.trans hy
      have hreading := reading_act hact hbefore hreads
      refine ⟨⟨x', Function.update_self _ _ _, ?_, fun hest => (hreading hest).2.1⟩, fun z hz => ?_⟩
      · rw [← Bool.not_eq_true]
        intro hafter
        rw [(wsAct_move hact).beforeClaim hafter] at hbefore
        cases hbefore
      · cases (Function.update_self b (some x') s.sessions).symm.trans hz.there
        obtain ⟨hstood, -, hdb⟩ := hreading hz.established
        have hepoch : x'.sessionEpoch = y.sessionEpoch := by
          rcases (wsAct_move hact).established hz.established with ⟨-, -, hepoch, -⟩ |
            ⟨-, -, hepoch, -⟩ <;> exact hepoch
        rw [hdb]
        exact h.leases y ⟨hx, hstood, hepoch ▸ hback _ hz.newest⟩
    · have hthere := Function.update_of_ne hbi (some x') s.sessions
      refine ⟨⟨y, hthere.trans hy, hbefore, hreads⟩, fun z hz => ?_⟩
      have hold : Stands s b z := ⟨hthere.symm.trans hz.there, hz.established, hback _ hz.newest⟩
      rcases leases_act hact (hunharmed.spared b z hold i x hx) with hdb | ⟨later, rfl, hdb⟩
      · rw [hdb]
        exact h.leases z hold
      · rw [hdb]
        exact (h.leases z hold).renew hlater
  · exact ⟨⟨y, hy, hbefore, hreads⟩, fun z hz =>
      h.leases z ⟨hz.there, hz.established, hback _ hz.newest⟩⟩

/-- The renewal on `hello`. -/
theorem kept_of_renewal {now : Seconds} (hs : wsStep cfg workerId s (.act b (.turn now)) = some t)
    (hy : s.sessions b = some y) (hpc : y.pc = .renewLeases) :
    SessionKept cfg workerId now (renewWorkerLeases cfg s.shared.db now workerId).1 b t := by
  simp only [wsStep, hy, wsAct, wsConnect, hpc, Option.map_some] at hs
  cases hs
  exact ⟨⟨_, Function.update_self _ _ _, rfl, fun _ => rfl⟩, fun _ _ => .of_renewal _ _⟩

theorem kept_trace {now : Seconds} {renewed : Db} (h : SessionKept cfg workerId now renewed b s)
    (hreach : ((sockets cfg workerId).guarded ClaimedInTurn).Reachable s)
    (htrace : ((sockets cfg workerId).guarded ClaimedInTurn).Trace s es t)
    (hlater : ∀ e ∈ es, e.NotBefore now) : SessionKept cfg workerId now renewed b t := by
  induction htrace with
  | nil => exact h
  | @snoc es u v e htrace hs ih =>
      obtain ⟨past, hpast⟩ := hreach
      exact kept_step (ih fun e he => hlater e (List.mem_append_left _ he))
        (unharmed_reachable (hpast.extend htrace).reachable) (hlater e (by simp)) hs.1

/-- **When a superseded teardown is harmless.** In every run, with any number of
sockets of the worker on any replicas, in which the registry key is only ever written
by a handshake with an epoch above every established one and while no `finally` block
stands between its read of the key and its return: whenever a socket is through its
handshake and its renewal and reads, and none with a higher epoch has taken the key,

* the key names it;
* the worker is not `OFFLINE`;
* no live lease of the worker is earlier than the renewal made it, if later
  transactions have no earlier clock. -/
theorem superseded_teardown_harmless (hinit : (sockets cfg workerId).init s)
    (h : ((sockets cfg workerId).guarded ClaimedInTurn).Trace s es t)
    (hnew : t.sessions b = some y) (hreading : y.pc = .receive)
    (hnewest : t.Newest y.sessionEpoch) :
    t.shared.registry = some ⟨y.sessionEpoch, y.instanceId⟩ ∧ t.shared.row.status ≠ .offline ∧
      ∀ as bs now u z, es = as ++ .act b (.turn now) :: bs → (sockets cfg workerId).Trace s as u →
        u.sessions b = some z → z.pc = .renewLeases → (∀ e ∈ bs, e.NotBefore now) →
          NotEarlier workerId (renewWorkerLeases cfg u.shared.db now workerId).1 t.shared.db := by
  have hstands : Stands t b y := ⟨hnew, by rw [WsSession.phase, hreading]; rfl, hnewest⟩
  have hunharmed := unharmed_reachable ⟨es, s, hinit, h⟩
  refine ⟨hunharmed.named b y hstands, ?_, fun as bs now u z hsplit hu hz hpc hlater => ?_⟩
  · exact (hunharmed.onlining b y hstands).online (by rw [hreading]; rfl)
  · subst hsplit
    obtain ⟨v, v', hleft, hs, hright⟩ := h.at_event
    obtain rfl := hu.unique sockets_deterministic v hleft.of_guarded
    have hreach : ((sockets cfg workerId).guarded ClaimedInTurn).Reachable v' :=
      ⟨_, s, hinit, hleft.snoc hs⟩
    have hkept := kept_trace (kept_of_renewal hs.1 hz hpc) hreach hright hlater
    exact (hkept.leases y hstands).notEarlier

end

/-- The condition, of a state whose sockets are the first `n`. -/
def WsState.undisturbed (n : ℕ) (s : WsState) : WsEvent → Bool
  | .act i (.turn _) => (s.sessions i).all fun x => x.phase != .claiming ||
      (List.range n).all fun j => (s.sessions j).all fun y => !y.phase.isTearingDown &&
        (!y.phase.isEstablished || y.sessionEpoch < x.sessionEpoch)
  | .expireRegistry => false
  | _ => true

theorem undisturbed_of_check {s : WsState} {e : WsEvent} {n : ℕ}
    (hfew : ∀ k, n ≤ k → s.sessions k = none) (h : s.undisturbed n e = true) :
    ClaimedInTurn s e := by
  refine ⟨?_, ?_⟩
  · rintro i now x rfl hx hclaiming j y hy
    have hj : j < n := lt_of_session hfew hy
    simp only [WsState.undisturbed, hx, hclaiming, Option.all_some, bne_self_eq_false,
      Bool.false_or, List.all_eq_true, List.mem_range] at h
    have hthis := h j hj
    simp only [hy, Option.all_some, Bool.and_eq_true, Bool.not_eq_true', Bool.or_eq_true,
      decide_eq_true_eq] at hthis
    refine ⟨hthis.1, fun hestablished => hthis.2.resolve_left fun hnot => ?_⟩
    rw [hestablished] at hnot
    cases hnot
  · rintro rfl
    cases h

namespace Demo

/-- A task the worker has under way, with a lease to 40 and a deadline at 3900. -/
def handedOver : Task where
  id := task
  taskType := .sleep
  payload := none
  parameters := .null
  priority := 0
  status := .running
  assignedWorkerId := some worker
  assignedAt := some 0
  startedAt := some 0
  leaseExpiresAt := some 40
  deadlineAt := some 3900
  attemptCount := 0
  excludedWorkerId := none
  notBefore := none
  resultId := none
  completedAt := none
  correlationId := "demo"
  createdAt := 0
  updatedAt := 0

/-- The worker before its first connection to this deployment. -/
def beforeConnecting : WsState :=
  ⟨{ row := { credentialHash := none }
     db := { Db.empty with tasks := Db.empty.tasks.insert handedOver } }, fun _ => none⟩

/-- The worker's socket reads, and the worker connects again. -/
def reconnecting : List WsEvent := connected ++ [.accept 1 "b"]

/-- The new handshake takes the registry key, and the old socket ends while it goes
on to its renewal. -/
def overtaking : List WsEvent := reconnecting ++ turns 1 6 ++ [.act 0 .raise] ++ turns 1 4

/-- The old socket has read the registry key when the new handshake takes it and goes
on to its renewal. -/
def overtakingMidway : List WsEvent := reconnecting ++ [.act 0 .raise] ++ turns 0 1 ++ turns 1 10

end Demo

/-- The small deployment, with the new handshake first and the old read of the key at
the end. -/
theorem superseded_teardown_harmless_overtaken :
    ∃ u t y, (sockets {} Demo.worker).Trace Demo.beforeConnecting Demo.overtaking u ∧
      (sockets {} Demo.worker).Trace u [.act 1 (.turn 0), .act 0 (.turn 0)] t ∧
      t.sessions 1 = some y ∧ t.shared.registry = some ⟨y.sessionEpoch, y.instanceId⟩ ∧
      t.shared.row.status ≠ .offline ∧
      NotEarlier Demo.worker (renewWorkerLeases {} u.shared.db 0 Demo.worker).1 t.shared.db := by
  have hplayed : ∃ u t, Demo.overtaking.foldlM (fun s e =>
        if e.within 2 && s.undisturbed 2 e then wsStep {} Demo.worker s e else none)
          Demo.beforeConnecting = some u ∧
      [WsEvent.act 1 (.turn 0), .act 0 (.turn 0)].foldlM (fun s e =>
        if e.within 2 && s.undisturbed 2 e then wsStep {} Demo.worker s e else none) u = some t ∧
      u.sessions 1 = some ⟨"b", .renewLeases, 2, false, .created⟩ ∧
      t.sessions 0 = some ⟨"a", .returned, 1, true, .ended⟩ ∧
      t.sessions 1 = some ⟨"b", .receive, 2, false, .created⟩ :=
    ⟨_, _, rfl, rfl, rfl, rfl, rfl⟩
  obtain ⟨u, t, hu, ht, hrenewing, hold, hnew⟩ := hplayed
  obtain ⟨hleft, hfew⟩ := guarded_of_played (n := 2) (fun _ _ => undisturbed_of_check)
    (fun _ _ => rfl) hu
  obtain ⟨hright, hfew⟩ := guarded_of_played (n := 2) (fun _ _ => undisturbed_of_check) hfew ht
  have hnewest : t.Newest 2 := by
    intro i x hx hlt
    match i with
    | 0 => cases hold.symm.trans hx; exact absurd hlt (by decide)
    | 1 => cases hnew.symm.trans hx; exact absurd hlt (by decide)
    | k + 2 => rw [hfew (k + 2) (by omega)] at hx; cases hx
  obtain ⟨hregistry, hstatus, hleases⟩ := superseded_teardown_harmless ⟨_, _, rfl⟩
    (hleft.append hright) hnew rfl hnewest
  refine ⟨u, t, _, hleft.of_guarded, hright.of_guarded, hnew, hregistry, hstatus, ?_⟩
  exact hleases Demo.overtaking [.act 0 (.turn 0)] 0 u _ rfl hleft.of_guarded hrenewing rfl
    (by simp [WsEvent.NotBefore])

/-- **A teardown over the new socket.** The old socket reads the registry key just
before the new handshake takes it: when both have finished, the key is gone, the worker
is `OFFLINE`, and the lease that the renewal put to 60 ends at 30. -/
theorem teardown_over_new_socket :
    ∃ u t x y, (sockets {} Demo.worker).init Demo.beforeConnecting ∧
      (sockets {} Demo.worker).Trace Demo.beforeConnecting Demo.overtakingMidway u ∧
      (sockets {} Demo.worker).Trace u (.act 1 (.turn 0) :: Demo.turns 0 5) t ∧
      t.sessions 0 = some x ∧ t.sessions 1 = some y ∧ x.pc = .returned ∧ y.pc = .receive ∧
      x.sessionEpoch < y.sessionEpoch ∧ t.shared.registry = none ∧
      t.shared.row.status = .offline ∧
      (renewWorkerLeases {} u.shared.db 0 Demo.worker).1.tasks.rows.map Task.leaseExpiresAt =
        [some 60] ∧
      t.shared.db.tasks.rows.map Task.leaseExpiresAt = [some 30] := by
  have hplayed : ∃ u t, Demo.overtakingMidway.foldlM (wsStep {} Demo.worker)
        Demo.beforeConnecting = some u ∧
      (WsEvent.act 1 (.turn 0) :: Demo.turns 0 5).foldlM (wsStep {} Demo.worker) u = some t ∧
      t.sessions 0 = some ⟨"a", .returned, 1, true, .ended⟩ ∧
      t.sessions 1 = some ⟨"b", .receive, 2, false, .created⟩ ∧
      t.shared.registry = none ∧ t.shared.row.status = .offline ∧
      (renewWorkerLeases {} u.shared.db 0 Demo.worker).1.tasks.rows.map Task.leaseExpiresAt =
        [some 60] ∧
      t.shared.db.tasks.rows.map Task.leaseExpiresAt = [some 30] :=
    ⟨_, _, rfl, rfl, rfl, rfl, rfl, rfl, by decide +kernel, by decide +kernel⟩
  obtain ⟨u, t, hu, ht, hold, hnew, hregistry, hstatus, hrenewed, hcut⟩ := hplayed
  exact ⟨u, t, _, _, ⟨_, _, rfl⟩, System.Trace.of_foldlM (fun _ _ _ h => h) hu,
    System.Trace.of_foldlM (fun _ _ _ h => h) ht, hold, hnew, rfl, rfl, by decide, hregistry,
    hstatus, hrenewed, hcut⟩

end TaskFleet.Model
