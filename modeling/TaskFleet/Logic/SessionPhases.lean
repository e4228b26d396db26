import TaskFleet.Lib.Trace
import TaskFleet.Model.Sessions

/-!
# What a socket can do to the keys its worker's sockets share

Most awaits of `ws_connect` leave the epoch counter, the control channel, the
registry key and `_local_sessions` alone. `WsMove` is the one list of what a
socket does, by the phase of its life in which it does it.
-/

namespace TaskFleet.Model

open Py

/-- The phases of a socket's life. -/
inductive Phase where
  /-- No epoch yet. -/
  | greeting
  | announcing
  | claiming
  /-- The registry key is written. -/
  | entering
  /-- In `_local_sessions`. -/
  | serving
  /-- In the `finally` block, before the read of the registry key. -/
  | checking
  /-- The key named this socket when it was read. -/
  | clearing
  | leaving
  | gone
  deriving DecidableEq, Repr

def WsPc.phase : WsPc → Phase
  | .connecting | .connectingCommit _ | .hello | .incrEpoch => .greeting
  | .publish => .announcing
  | .setRegistry => .claiming
  | .helloAck | .online | .onlineCommit _ | .mergeMetrics => .entering
  | .renewLeases | .receive => .serving
  | .getRegistry => .checking
  | .deleteRegistry => .clearing
  | .deleteTasks | .offline | .offlineCommit _ | .shortenLeases => .leaving
  | .returned => .gone

namespace Phase

/-- From the increment to the end of the read loop. -/
def isLive : Phase → Bool
  | .announcing | .claiming | .entering | .serving => true
  | _ => false

/-- From the write of the registry key to the end of the read loop. -/
def isEstablished : Phase → Bool
  | .entering | .serving => true
  | _ => false

/-- The epoch is on the control channel. -/
def isAnnounced : Phase → Bool
  | .claiming | .entering | .serving | .checking | .clearing | .leaving => true
  | _ => false

/-- An epoch is drawn and the socket is still served. -/
def hasEpoch : Phase → Bool
  | .greeting | .gone => false
  | _ => true

theorem isAnnounced_of_isEstablished {p : Phase} (h : p.isEstablished = true) :
    p.isAnnounced = true := by
  cases p <;> simp_all [isAnnounced, isEstablished]

end Phase

/-- The phase of a socket. -/
abbrev WsSession.phase (x : WsSession) : Phase := x.pc.phase

/-- The keys of `s` with another row, other leases and another `current_tasks`. -/
structure SharedState.SameKeys (s s' : SharedState) : Prop where
  epochCounter : s'.epochCounter = s.epochCounter
  published : s'.published = s.published
  registry : s'.registry = s.registry
  localSessions : s'.localSessions = s.localSessions

theorem SharedState.SameKeys.refl (s : SharedState) : s.SameKeys s := ⟨rfl, rfl, rfl, rfl⟩

/-- One turn of `_control_listener`, up to its end. -/
inductive ListenerMove (published : List Nat) (sessionEpoch : Nat) : Listener → Listener → Prop
  | subscribe : ListenerMove published sessionEpoch .created (.listening published.length)
  | skip {seen n : Nat} (hread : published[seen]? = some n) (hle : n ≤ sessionEpoch) :
      ListenerMove published sessionEpoch (.listening seen) (.listening (seen + 1))
  | evict {seen n : Nat} (hread : published[seen]? = some n) (hlt : sessionEpoch < n) :
      ListenerMove published sessionEpoch (.listening seen) .evicting
  | notified : ListenerMove published sessionEpoch .evicting .closing

/-- What socket `i` can do. -/
inductive WsMove (i : ℕ) (s : SharedState) (x : WsSession) : WsAction → SharedState →
    WsSession → Prop
  | draw {action : WsAction} (hphase : x.phase = .greeting) {x' : WsSession}
      (hphase' : x'.phase = .announcing) (hepoch : x'.sessionEpoch = s.epochCounter + 1)
      (hlistener : x'.listener = x.listener) :
      WsMove i s x action { s with epochCounter := s.epochCounter + 1 } x'
  | announce {now : Seconds} (hpc : x.pc = .publish) :
      WsMove i s x (.turn now) { s with published := s.published ++ [x.sessionEpoch] }
        { x with pc := .setRegistry }
  | claim {now : Seconds} (hpc : x.pc = .setRegistry) :
      WsMove i s x (.turn now) { s with registry := some ⟨x.sessionEpoch, x.instanceId⟩ }
        { x with pc := .helloAck }
  | register {action : WsAction} (hphase : x.phase = .entering) :
      WsMove i s x action (s.registerSession i x)
        { x with pc := .renewLeases, listener := .created }
  | unregister {action : WsAction} (hphase : x.phase = .serving) :
      WsMove i s x action (s.unregisterSession x) { x with pc := .getRegistry, listener := .ended }
  | keep {action : WsAction} (hphase : x.phase = .checking) {current : Registration}
      (hregistry : s.registry = some current) (hepoch : current.sessionEpoch = x.sessionEpoch) :
      WsMove i s x action s { x with pc := .deleteRegistry }
  | clear {action : WsAction} (hphase : x.phase = .clearing) :
      WsMove i s x action s.dropRegistry { x with pc := .deleteTasks }
  | listen {action : WsAction} {listener : Listener}
      (hmove : ListenerMove s.published x.sessionEpoch x.listener listener) :
      WsMove i s x action s { x with listener := listener }
  | hangUp {action : WsAction} : WsMove i s x action s { x with closed := true }
  | close {action : WsAction} (hlistener : x.listener = .closing) :
      WsMove i s x action s { x with closed := true, listener := .ended }
  | finish {action : WsAction} {s' : SharedState} (hkeys : s.SameKeys s')
      (hphase : x.phase ≠ .serving) :
      WsMove i s x action s' { x with pc := .returned, closed := true }
  | advance {action : WsAction} {s' : SharedState} (hkeys : s.SameKeys s') {pc : WsPc}
      (hphase : pc.phase = x.phase) :
      WsMove i s x action s' { x with pc := pc }

variable {cfg : Config} {workerId : Uuid} {i : ℕ} {s s' : SharedState} {x x' : WsSession}
  {now : Seconds}
  {action : WsAction}

theorem wsConnect_move (h : wsConnect cfg workerId now i s x = some (s', x')) :
    WsMove i s x (.turn now) s' x' := by
  simp only [wsConnect] at h
  split at h
  case h_1 hpc =>
    cases h
    refine .advance (.refl s) ?_
    split <;> simp [WsSession.phase, hpc, WsPc.phase]
  case h_2 hpc =>
    cases h
    refine .advance ?_ ?_
    · exact ⟨rfl, rfl, rfl, rfl⟩
    · exact (congrArg WsPc.phase hpc).symm
  case h_3 hpc =>
    cases h
    refine .advance (.refl s) ?_
    exact (congrArg WsPc.phase hpc).symm
  case h_4 hpc => cases h; exact .draw (congrArg WsPc.phase hpc) rfl rfl rfl
  case h_5 hpc => cases h; exact .announce hpc
  case h_6 hpc => cases h; exact .claim hpc
  case h_7 hpc =>
    cases h
    refine .advance (.refl s) ?_
    exact (congrArg WsPc.phase hpc).symm
  case h_8 hpc =>
    cases h
    refine .advance (.refl s) ?_
    split <;> simp [WsSession.phase, hpc, WsPc.phase]
  case h_9 hpc =>
    cases h
    refine .advance ?_ ?_
    · exact ⟨rfl, rfl, rfl, rfl⟩
    · exact (congrArg WsPc.phase hpc).symm
  case h_10 hpc => cases h; exact .register (congrArg WsPc.phase hpc)
  case h_11 hpc =>
    cases h
    refine .advance ?_ ?_
    · exact ⟨rfl, rfl, rfl, rfl⟩
    · exact (congrArg WsPc.phase hpc).symm
  case h_12 => cases h
  case h_13 hpc =>
    split at h
    · next current hregistry =>
        split at h
        · next hepoch => cases h; exact .keep (congrArg WsPc.phase hpc) hregistry hepoch
        · cases h; exact .finish (.refl s) (by simp [WsSession.phase, hpc, WsPc.phase])
    · cases h; exact .finish (.refl s) (by simp [WsSession.phase, hpc, WsPc.phase])
  case h_14 hpc => cases h; exact .clear (congrArg WsPc.phase hpc)
  case h_15 hpc =>
    cases h
    refine .advance ?_ ?_
    · exact ⟨rfl, rfl, rfl, rfl⟩
    · exact (congrArg WsPc.phase hpc).symm
  case h_16 hpc =>
    cases h
    refine .advance (.refl s) ?_
    split <;> simp [WsSession.phase, hpc, WsPc.phase]
  case h_17 hpc =>
    cases h
    refine .advance ?_ ?_
    · exact ⟨rfl, rfl, rfl, rfl⟩
    · exact (congrArg WsPc.phase hpc).symm
  case h_18 hpc =>
    cases h
    refine .finish ?_ (by simp [WsSession.phase, hpc, WsPc.phase])
    exact ⟨rfl, rfl, rfl, rfl⟩
  case h_19 => cases h

theorem wsConnectRaise_move (h : wsConnectRaise s x = some (s', x')) :
    WsMove i s x action s' x' := by
  simp only [wsConnectRaise] at h
  split at h
  case h_1 hpc =>
    cases h
    refine .advance (.refl s) ?_
    exact (congrArg WsPc.phase hpc).symm
  case h_2 hpc => cases h; exact .unregister (congrArg WsPc.phase hpc)
  case h_3 => cases h
  case h_4 hrenew hreceive _ =>
    cases h
    refine .finish (.refl s) fun hphase => ?_
    cases hpc : x.pc <;> simp_all [WsSession.phase, WsPc.phase]

/-- A listener leaves `ws_connect` where it is. -/
theorem controlListener_eq (h : controlListener s x = some x') :
    ∃ closed listener, x' = { x with closed := closed, listener := listener } := by
  simp only [controlListener] at h
  split at h
  case h_2 =>
    split at h
    · cases h
    · split at h <;> cases h <;> exact ⟨_, _, rfl⟩
  all_goals cases h <;> exact ⟨_, _, rfl⟩

theorem controlListener_move (h : controlListener s x = some x') : WsMove i s x action s x' := by
  simp only [controlListener] at h
  split at h
  case h_1 hlistener => cases h; exact .listen (hlistener ▸ .subscribe)
  case h_2 seen hlistener =>
    split at h
    · cases h
    · next n hread =>
        split at h
        · next hle => cases h; exact .listen (hlistener ▸ .skip hread hle)
        · next hlt => cases h; exact .listen (hlistener ▸ .evict hread (not_le.mp hlt))
  case h_3 hlistener => cases h; exact .listen (hlistener ▸ .notified)
  case h_4 hlistener => cases h; exact .close hlistener
  all_goals cases h

/-- **What a socket does** is one of these. -/
theorem wsAct_move (h : wsAct cfg workerId i s x action = some (s', x')) :
    WsMove i s x action s' x' := by
  cases action with
  | turn now => exact wsConnect_move h
  | raise => exact wsConnectRaise_move h
  | hangUp => cases h; exact .hangUp
  | listen =>
      obtain ⟨y, hy, hpair⟩ := Option.map_eq_some_iff.mp h
      cases hpair
      exact controlListener_move hy

/-- **What an event does.** -/
theorem wsStep_cases {s t : WsState} {e : WsEvent} (h : wsStep cfg workerId s e = some t) :
    (∃ i instanceId, e = .accept i instanceId ∧ s.sessions i = none ∧
      t = { s with sessions := Function.update s.sessions i (some { instanceId := instanceId }) }) ∨
    (∃ i action x s' x', e = .act i action ∧ s.sessions i = some x ∧
      wsAct cfg workerId i s.shared x action = some (s', x') ∧
      t = ⟨s', Function.update s.sessions i (some x')⟩) ∨
    (e = .expireRegistry ∧ t = { s with shared := s.shared.dropRegistry }) := by
  cases e with
  | accept i instanceId =>
      simp only [wsStep] at h
      split at h
      · next hnew => cases h; exact .inl ⟨i, instanceId, rfl, hnew, rfl⟩
      · cases h
  | act i action =>
      simp only [wsStep] at h
      split at h
      · cases h
      · next x hx =>
          obtain ⟨⟨s', x'⟩, hact, ht⟩ := Option.map_eq_some_iff.mp h
          exact .inr (.inl ⟨i, action, x, s', x', rfl, hx, hact, ht.symm⟩)
  | expireRegistry =>
      cases h
      exact .inr (.inr ⟨rfl, rfl⟩)

/-- The event is of one of the first `n` sockets. -/
def WsEvent.within (n : ℕ) : WsEvent → Bool
  | .accept i _ | .act i _ => i < n
  | .expireRegistry => true

/-- The number of a socket that is there. -/
theorem lt_of_session {s : WsState} {n j : ℕ} {y : WsSession}
    (hfew : ∀ k, n ≤ k → s.sessions k = none) (hy : s.sessions j = some y) : j < n := by
  by_contra hlt
  rw [hfew j (Nat.not_lt.mp hlt)] at hy
  cases hy

theorem sockets_within_step {s t : WsState} {e : WsEvent} {n : ℕ} (he : e.within n = true)
    (hfew : ∀ k, n ≤ k → s.sessions k = none) (hs : wsStep cfg workerId s e = some t) :
    ∀ k, n ≤ k → t.sessions k = none := by
  intro k hk
  have hne : ∀ {i}, decide (i < n) = true → k ≠ i := by
    rintro i hi rfl
    exact absurd (of_decide_eq_true hi) (Nat.not_lt.mpr hk)
  rcases wsStep_cases hs with ⟨i, instanceId, rfl, -, rfl⟩ | ⟨i, action, x, s', x', rfl, -, -,
    rfl⟩ | ⟨-, rfl⟩
  · exact (Function.update_of_ne (hne he) _ _).trans (hfew k hk)
  · exact (Function.update_of_ne (hne he) _ _).trans (hfew k hk)
  · exact hfew k hk

/-- Events of a few sockets, played one after the other and checked for these. -/
theorem guarded_of_played {G : WsState → WsEvent → Prop} {check : WsState → WsEvent → Bool} {n : ℕ}
    (hcheck : ∀ s e, (∀ k, n ≤ k → s.sessions k = none) → check s e = true → G s e)
    {s t : WsState} {es : List WsEvent} (hfew : ∀ k, n ≤ k → s.sessions k = none)
    (h : es.foldlM (fun s e => if e.within n && check s e then wsStep cfg workerId s e else none)
      s = some t) :
    ((sockets cfg workerId).guarded G).Trace s es t ∧ ∀ k, n ≤ k → t.sessions k = none := by
  have htrace : ((sockets cfg workerId).guarded fun s e => e.within n && check s e).Trace s es t :=
    System.Trace.guarded_of_foldlM (fun _ _ _ h => h) h
  clear h
  induction htrace with
  | nil => exact ⟨.nil, hfew⟩
  | @snoc es u v e _ hs ih =>
      obtain ⟨hguarded, hu⟩ := ih
      obtain ⟨hwithin, hchecked⟩ := Bool.and_eq_true_iff.mp hs.2
      exact ⟨hguarded.snoc ⟨hs.1, hcheck u e hu hchecked⟩, sockets_within_step hwithin hu hs.1⟩

theorem sockets_deterministic : (sockets cfg workerId).Deterministic := by
  intro s e t t' h h'
  exact Option.some.inj (h.symm.trans h')

/-- **Socket rule.** A property of each socket beside what is shared is kept by an
event if it holds of a fresh socket, is kept by the socket that moves and for the
others, and does not mind the registry key running out. -/
theorem each_step {s t : WsState} {e : WsEvent} (hs : wsStep cfg workerId s e = some t)
    {P : ℕ → SharedState → WsSession → Prop} (h : ∀ i x, s.sessions i = some x → P i s.shared x)
    (hfresh : ∀ i instanceId, P i s.shared { instanceId := instanceId })
    (hmove : ∀ i action x s' x', e = .act i action → s.sessions i = some x →
      WsMove i s.shared x action s' x' → P i s.shared x → P i s' x')
    (hother : ∀ i action x s' x' j y, e = .act i action → s.sessions i = some x →
      s.sessions j = some y → j ≠ i → WsMove i s.shared x action s' x' → P j s.shared y → P j s' y)
    (hexpire : ∀ j y, e = .expireRegistry → s.sessions j = some y → P j s.shared y →
      P j s.shared.dropRegistry y) :
    ∀ i x, t.sessions i = some x → P i t.shared x := by
  rcases wsStep_cases hs with ⟨i, instanceId, -, -, rfl⟩ | ⟨i, action, x, s', x', he, hx, hact,
    rfl⟩ | ⟨he, rfl⟩
  · intro j y hy
    simp only [Function.update_apply] at hy
    split at hy
    · cases hy; exact hfresh j instanceId
    · exact h j y hy
  · intro j y hy
    have hm := wsAct_move hact
    simp only [Function.update_apply] at hy
    split at hy
    · next hji => cases hy; cases hji; exact hmove i action x s' x' he hx hm (h i x hx)
    · next hji => exact hother i action x s' x' j y he hx hy hji hm (h j y hy)
  · intro j y hy
    exact hexpire j y he hy (h j y hy)

/-! ## Epochs -/

namespace WsMove

theorem counter_le (h : WsMove i s x action s' x') : s.epochCounter ≤ s'.epochCounter := by
  cases h with
  | draw => exact Nat.le_succ _
  | finish hkeys | advance hkeys => exact hkeys.epochCounter.ge
  | _ => exact le_rfl

/-- A socket publishes its own epoch. -/
theorem published (h : WsMove i s x action s' x') :
    s'.published = s.published ∨
      x.pc = .publish ∧ (∃ now, action = .turn now) ∧ s'.published = s.published ++
        [x.sessionEpoch] := by
  cases h with
  | @announce now hpc => exact .inr ⟨hpc, ⟨now, rfl⟩, rfl⟩
  | finish hkeys | advance hkeys => exact .inl hkeys.published
  | _ => exact .inl rfl

theorem published_mono (h : WsMove i s x action s' x') {n : Nat} (hn : n ∈ s.published) :
    n ∈ s'.published := by
  rcases h.published with hsame | ⟨-, -, happend⟩
  · exact hsame ▸ hn
  · rw [happend]
    exact List.mem_append_left _ hn

/-- An epoch is drawn once, as the successor of all before. -/
theorem epoch (h : WsMove i s x action s' x') :
    x'.sessionEpoch = x.sessionEpoch ∧ (x'.phase.hasEpoch = true → x.phase.hasEpoch = true) ∨
      x'.phase = .announcing ∧ x'.sessionEpoch = s.epochCounter + 1 ∧
        s'.epochCounter = s.epochCounter + 1 := by
  cases h with
  | draw hphase hphase' hepoch => exact .inr ⟨hphase', hepoch, rfl⟩
  | announce hpc | claim hpc =>
      exact .inl ⟨rfl, fun _ => by simp [WsSession.phase, hpc, WsPc.phase, Phase.hasEpoch]⟩
  | register hphase | unregister hphase | keep hphase | clear hphase =>
      exact .inl ⟨rfl, fun _ => by rw [hphase]; rfl⟩
  | listen | hangUp | close => exact .inl ⟨rfl, id⟩
  | finish => exact .inl ⟨rfl, fun hphase' => by cases hphase'⟩
  | advance hkeys hphase => exact .inl ⟨rfl, fun h => hphase ▸ h⟩

/-- Once on the channel, an epoch stays there. -/
theorem announced (h : WsMove i s x action s' x') (hphase' : x'.phase.isAnnounced = true) :
    x'.sessionEpoch = x.sessionEpoch ∧
      (x.phase.isAnnounced = true ∨ x.sessionEpoch ∈ s'.published) := by
  cases h with
  | draw _ hdrawn => rw [hdrawn] at hphase'; simp [Phase.isAnnounced] at hphase'
  | announce => exact ⟨rfl, .inr (by simp)⟩
  | claim hpc => exact ⟨rfl, .inl (by simp [WsSession.phase, hpc, WsPc.phase, Phase.isAnnounced])⟩
  | register hphase | unregister hphase | keep hphase | clear hphase =>
      exact ⟨rfl, .inl (by rw [hphase]; rfl)⟩
  | listen | hangUp | close => exact ⟨rfl, .inl hphase'⟩
  | finish => cases hphase'
  | advance hkeys hphase => exact ⟨rfl, .inl (hphase ▸ hphase')⟩

end WsMove

/-- What holds of the epochs in every run. -/
structure Numbered (s : WsState) : Prop where
  published_le : ∀ n ∈ s.shared.published, n ≤ s.shared.epochCounter
  counted : ∀ i x, s.sessions i = some x → x.sessionEpoch ≤ s.shared.epochCounter
  positive : ∀ i x, s.sessions i = some x → x.phase.hasEpoch = true → 0 < x.sessionEpoch
  distinct : ∀ i x j y, s.sessions i = some x → s.sessions j = some y → 0 < x.sessionEpoch →
    x.sessionEpoch = y.sessionEpoch → i = j
  announced : ∀ i x, s.sessions i = some x → x.phase.isAnnounced = true →
    x.sessionEpoch ∈ s.shared.published

namespace Numbered

variable {s t : WsState} {e : WsEvent}

theorem published_le_step (h : Numbered s) (hs : wsStep cfg workerId s e = some t) :
    ∀ n ∈ t.shared.published, n ≤ t.shared.epochCounter := by
  rcases wsStep_cases hs with ⟨i, instanceId, -, -, rfl⟩ | ⟨i, action, x, s', x', -, hx, hact,
    rfl⟩ | ⟨-, rfl⟩
  · exact h.published_le
  · intro n hn
    have hm := wsAct_move hact
    rcases hm.published with hsame | ⟨-, -, happend⟩
    · rw [hsame] at hn
      exact (h.published_le n hn).trans hm.counter_le
    · rw [happend, List.mem_append, List.mem_singleton] at hn
      rcases hn with hold | rfl
      · exact (h.published_le n hold).trans hm.counter_le
      · exact (h.counted i x hx).trans hm.counter_le
  · exact h.published_le

theorem counted_step (h : Numbered s) (hs : wsStep cfg workerId s e = some t) :
    ∀ i x, t.sessions i = some x → x.sessionEpoch ≤ t.shared.epochCounter := by
  refine each_step hs (P := fun _ s x => x.sessionEpoch ≤ s.epochCounter) h.counted ?_ ?_ ?_ ?_
  · intro i instanceId
    exact Nat.zero_le _
  · intro i action x s' x' _ _ hm hle
    rcases hm.epoch with ⟨hsame, -⟩ | ⟨-, hepoch, hcounter⟩
    · rw [hsame]
      exact hle.trans hm.counter_le
    · rw [hepoch, hcounter]
  · intro i action x s' x' j y _ _ _ _ hm hle
    exact hle.trans hm.counter_le
  · intro j y _ _ hle
    exact hle

theorem positive_step (h : Numbered s) (hs : wsStep cfg workerId s e = some t) :
    ∀ i x, t.sessions i = some x → x.phase.hasEpoch = true → 0 < x.sessionEpoch := by
  refine each_step hs (P := fun _ _ x => x.phase.hasEpoch = true → 0 < x.sessionEpoch)
    h.positive ?_ ?_ ?_ ?_
  · intro i instanceId hphase
    cases hphase
  · intro i action x s' x' _ _ hm hpos hphase
    rcases hm.epoch with ⟨hsame, hback⟩ | ⟨-, hepoch, -⟩
    · rw [hsame]
      exact hpos (hback hphase)
    · rw [hepoch]
      exact Nat.succ_pos _
  · intro i action x s' x' j y _ _ _ _ _ hpos
    exact hpos
  · intro j y _ _ hpos
    exact hpos

theorem announced_step (h : Numbered s) (hs : wsStep cfg workerId s e = some t) :
    ∀ i x, t.sessions i = some x → x.phase.isAnnounced = true →
      x.sessionEpoch ∈ t.shared.published := by
  refine each_step hs (P := fun _ s x => x.phase.isAnnounced = true → x.sessionEpoch ∈ s.published)
    h.announced ?_ ?_ ?_ ?_
  · intro i instanceId hphase
    cases hphase
  · intro i action x s' x' _ _ hm hold hphase
    obtain ⟨hsame, hbefore | hnow⟩ := hm.announced hphase
    · rw [hsame]
      exact hm.published_mono (hold hbefore)
    · rw [hsame]
      exact hnow
  · intro i action x s' x' j y _ _ _ _ hm hold hphase
    exact hm.published_mono (hold hphase)
  · intro j y _ _ hold
    exact hold

/-- A socket that moves keeps its epoch to itself. -/
theorem distinct_step (h : Numbered s) (hs : wsStep cfg workerId s e = some t) :
    ∀ i x j y, t.sessions i = some x → t.sessions j = some y → 0 < x.sessionEpoch →
      x.sessionEpoch = y.sessionEpoch → i = j := by
  -- what the sockets had before, or a number nobody had
  have hbefore : ∀ i x, t.sessions i = some x → 0 < x.sessionEpoch →
      (∃ x₀, s.sessions i = some x₀ ∧ x₀.sessionEpoch = x.sessionEpoch) ∨
        (s.shared.epochCounter < x.sessionEpoch ∧ ∃ action, e = .act i action) := by
    refine each_step hs (P := fun i _ x => 0 < x.sessionEpoch →
      (∃ x₀, s.sessions i = some x₀ ∧ x₀.sessionEpoch = x.sessionEpoch) ∨
        (s.shared.epochCounter < x.sessionEpoch ∧ ∃ action, e = .act i action)) ?_ ?_ ?_ ?_ ?_
    · intro i x hx _
      exact .inl ⟨x, hx, rfl⟩
    · intro i instanceId hpos
      exact absurd hpos (lt_irrefl 0)
    · intro i action x s' x' he hx hm _ _
      rcases hm.epoch with ⟨hsame, -⟩ | ⟨-, hepoch, -⟩
      · exact .inl ⟨x, hx, hsame.symm⟩
      · exact .inr ⟨by rw [hepoch]; exact Nat.lt_succ_self _, action, he⟩
    · intro i action x s' x' j y _ _ hy _ _ _ _
      exact .inl ⟨y, hy, rfl⟩
    · intro j y _ hy _ _
      exact .inl ⟨y, hy, rfl⟩
  intro i x j y hx hy hpos heq
  rcases hbefore i x hx hpos with ⟨x₀, hx₀, hsame⟩ | ⟨hnew, action, he⟩
  · rcases hbefore j y hy (heq ▸ hpos) with ⟨y₀, hy₀, hsame'⟩ | ⟨hnew', -⟩
    · exact h.distinct i x₀ j y₀ hx₀ hy₀ (hsame ▸ hpos) (by rw [hsame, hsame', heq])
    · have := h.counted i x₀ hx₀
      omega
  · rcases hbefore j y hy (heq ▸ hpos) with ⟨y₀, hy₀, hsame'⟩ | ⟨-, action', he'⟩
    · have := h.counted j y₀ hy₀
      omega
    · cases he.symm.trans he'
      rfl

end Numbered

theorem numbered_reachable {t : WsState} (h : (sockets cfg workerId).Reachable t) : Numbered t := by
  refine h.invariant (P := Numbered) ?_ ?_
  · rintro s ⟨row, db, rfl⟩
    refine ⟨?_, ?_, ?_, ?_, ?_⟩
    · intro n hn
      cases hn
    · intro i x hx
      cases hx
    · intro i x hx
      cases hx
    · intro i x j y hx
      cases hx
    · intro i x hx
      cases hx
  · intro s e t _ hnumbered hs
    exact ⟨hnumbered.published_le_step hs, hnumbered.counted_step hs, hnumbered.positive_step hs,
      hnumbered.distinct_step hs, hnumbered.announced_step hs⟩

end TaskFleet.Model
