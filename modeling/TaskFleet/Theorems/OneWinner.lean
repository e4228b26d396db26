import TaskFleet.Logic.SessionPhases
import TaskFleet.Model.QueueRun

/-!
# One winner per worker

A handshake announces its epoch before it takes the registry key, and the
sockets with a lower epoch close when they hear of it. So one socket wins, and
the keys name it (`one_winner`), as long as nobody is still on the way to
listening when a higher epoch is announced (`InOrder`). Two handshakes at once
are enough for two sockets to stay (`racing_handshakes_both_stay`).
-/

namespace TaskFleet.Model

open Py

/-- The listener has subscribed. -/
def Listener.subscribed : Listener → Bool
  | .absent | .created => false
  | _ => true

/-- The listener has nothing of the channel left to handle. -/
def Listener.HasHandled (published : List Nat) : Listener → Prop
  | .listening seen => seen = published.length
  | .evicting | .closing => False
  | _ => True

/-- The socket is registered and open. -/
def WsSession.isOpen (x : WsSession) : Bool := x.phase == .serving && !x.closed

/-- No announced epoch is above that of the socket. -/
def WsSession.Leads (x : WsSession) (s : SharedState) : Prop := ∀ n ∈ s.published,
    n ≤ x.sessionEpoch

/-- An event that comes in order. -/
structure InOrder (s : WsState) (e : WsEvent) : Prop where
  /-- An epoch is announced when every socket with a lower one has subscribed. -/
  announce : ∀ i now x, e = .act i (.turn now) → s.sessions i = some x → x.pc = .publish →
    ∀ j y, s.sessions j = some y → y.phase.isLive = true → y.sessionEpoch < x.sessionEpoch →
      y.listener.subscribed = true
  /-- The registry key is not written between the read and the delete of a teardown. -/
  claim : ∀ i now x, e = .act i (.turn now) → s.sessions i = some x → x.pc = .setRegistry →
    ∀ j y, s.sessions j = some y → y.pc ≠ .deleteRegistry
  /-- The registry key does not run out under an open socket. -/
  expire : e = .expireRegistry → ∀ i x, s.sessions i = some x → x.phase.isEstablished = true →
    x.closed = false → s.shared.registry ≠ some ⟨x.sessionEpoch, x.instanceId⟩

/-- What the listener is in a phase. -/
def Phase.fits : Phase → Listener → Bool
  | .greeting, l | .announcing, l | .claiming, l | .entering, l => l == .absent
  | .serving, l => l != .absent
  | .checking, l | .clearing, l | .leaving, l => l == .ended
  | .gone, l => l == .absent || l == .ended

/-- What holds of the sockets and their keys in an orderly run. -/
structure Led (s : WsState) : Prop where
  fits : ∀ i x, s.sessions i = some x → x.phase.fits x.listener = true
  ended : ∀ i x, s.sessions i = some x → x.phase = .serving → x.listener = .ended → x.closed = true
  unheard : ∀ i x, s.sessions i = some x → x.phase.isLive = true → x.listener.subscribed = false →
    x.Leads s.shared
  heard : ∀ i x seen, s.sessions i = some x → x.listener = .listening seen →
    seen ≤ s.shared.published.length ∧ ∀ n ∈ s.shared.published.take seen, n ≤ x.sessionEpoch
  clearing : ∀ i x, s.sessions i = some x → x.phase = .clearing → ∀ current,
    s.shared.registry = some current → current.sessionEpoch = x.sessionEpoch
  named : ∀ i x, s.sessions i = some x → x.phase.isEstablished = true → x.Leads s.shared →
    x.closed = false → s.shared.registry = some ⟨x.sessionEpoch, x.instanceId⟩
  mapped : ∀ i x, s.sessions i = some x → x.phase = .serving → x.Leads s.shared →
    s.shared.localSessions x.instanceId = some ⟨i, x.sessionEpoch⟩

section

variable {cfg : Config} {workerId : Uuid} {s t : WsState} {e : WsEvent}

theorem WsMove.leads {i : ℕ} {s s' : SharedState} {x x' y : WsSession} {action : WsAction}
    (hm : WsMove i s x action s' x') (h : y.Leads s') : y.Leads s :=
  fun n hn => h n (hm.published_mono hn)

theorem WsPc.phase_eq_clearing {pc : WsPc} (h : pc.phase = .clearing) : pc = .deleteRegistry := by
  cases pc <;> first | rfl | cases h

/-- Only a listener that is running goes on. -/
theorem ListenerMove.running {published : List Nat} {sessionEpoch : Nat} {l l' : Listener}
    (h : ListenerMove published sessionEpoch l l') :
    l ≠ .absent ∧ l ≠ .ended ∧ l' ≠ .absent ∧ l' ≠ .ended := by
  cases h <;> simp

theorem ListenerMove.subscribed {published : List Nat} {sessionEpoch : Nat} {l l' : Listener}
    (h : ListenerMove published sessionEpoch l l') : l'.subscribed = true := by
  cases h <;> rfl

namespace Led

/-! ## Listeners -/

theorem fits_step (h : Led s) (hs : wsStep cfg workerId s e = some t) :
    ∀ i x, t.sessions i = some x → x.phase.fits x.listener = true := by
  refine each_step hs (P := fun _ _ x => x.phase.fits x.listener = true) h.fits ?_ ?_ ?_ ?_
  · intro i instanceId
    rfl
  · intro i action x s' x' _ _ hm hfits
    cases hm with
    | draw hphase hphase' hepoch hlistener =>
        rw [hphase] at hfits
        rw [hphase', hlistener]
        exact hfits
    | announce hpc | claim hpc =>
        rw [WsSession.phase, hpc] at hfits
        exact hfits
    | register | unregister => rfl
    | finish hkeys hphase =>
        show Phase.gone.fits x.listener = true
        cases hp : x.phase <;> rw [hp] at hfits <;> simp_all [Phase.fits]
    | keep hphase | clear hphase =>
        rw [hphase] at hfits
        exact hfits
    | listen hmove =>
        show x.phase.fits _ = true
        obtain ⟨hne, hne', hnew, -⟩ := hmove.running
        cases hphase : x.phase <;> rw [hphase] at hfits <;> simp_all [Phase.fits]
    | hangUp => exact hfits
    | close hlistener =>
        show x.phase.fits _ = true
        rw [hlistener] at hfits
        cases hphase : x.phase <;> rw [hphase] at hfits <;> first | rfl | cases hfits
    | advance hkeys hphase =>
        rw [← hphase] at hfits
        exact hfits
  · intro i action x s' x' j y _ _ _ _ _ hfits
    exact hfits
  · intro j y _ _ hfits
    exact hfits

theorem ended_step (h : Led s) (hs : wsStep cfg workerId s e = some t) :
    ∀ i x, t.sessions i = some x → x.phase = .serving → x.listener = .ended → x.closed = true := by
  refine each_step hs (P := fun _ _ x => x.phase = .serving → x.listener = .ended → x.closed = true)
    h.ended ?_ ?_ ?_ ?_
  · intro i instanceId hphase
    cases hphase
  · intro i action x s' x' _ _ hm hended hphase hlistener
    cases hm with
    | draw _ hphase' => rw [hphase'] at hphase; cases hphase
    | announce | claim | keep | clear => cases hphase
    | register => cases hlistener
    | unregister => cases hphase
    | listen hmove =>
        exact absurd hlistener hmove.running.2.2.2
    | hangUp | close | finish => rfl
    | advance hkeys hphase' => exact hended (hphase' ▸ hphase) hlistener
  · intro i action x s' x' j y _ _ _ _ _ hended
    exact hended
  · intro j y _ _ hended
    exact hended

/-- A socket on its way to listening is told of every higher epoch only later. -/
theorem unheard_step (h : Led s) (hnum : Numbered s) (horder : InOrder s e)
    (hs : wsStep cfg workerId s e = some t) :
    ∀ i x, t.sessions i = some x → x.phase.isLive = true → x.listener.subscribed = false →
      x.Leads t.shared := by
  refine each_step hs (P := fun _ s x => x.phase.isLive = true →
    x.listener.subscribed = false → x.Leads s)
    h.unheard ?_ ?_ ?_ ?_
  · intro i instanceId hphase
    cases hphase
  · intro i action x s' x' _ hx hm hold hlive hunsubscribed
    cases hm with
    | draw _ _ hepoch =>
        intro n hn
        rw [hepoch]
        exact (hnum.published_le n hn).trans (Nat.le_succ _)
    | announce hpc =>
        intro n hn
        rcases List.mem_append.mp hn with hn | hn
        · exact hold (by rw [WsSession.phase, hpc]; rfl) hunsubscribed n hn
        · exact (List.mem_singleton.mp hn).le
    | claim hpc => exact hold (by rw [WsSession.phase, hpc]; rfl) hunsubscribed
    | register hphase =>
        have hfits := h.fits i x hx
        rw [hphase] at hfits
        exact hold (by rw [hphase]; rfl) (by rw [beq_iff_eq.mp hfits]; rfl)
    | unregister | keep | clear | finish => cases hlive
    | listen hmove =>
        rw [hmove.subscribed] at hunsubscribed
        cases hunsubscribed
    | hangUp => exact hold hlive hunsubscribed
    | close => cases hunsubscribed
    | advance hkeys hphase =>
        intro n hn
        rw [hkeys.published] at hn
        exact hold (hphase ▸ hlive) hunsubscribed n hn
  · intro i action x s' x' j y he hx hy _ hm hold hlive hunsubscribed n hn
    rcases hm.published with hsame | ⟨hpc, ⟨now, rfl⟩, happend⟩
    · exact hold hlive hunsubscribed n (hsame ▸ hn)
    · rw [happend, List.mem_append, List.mem_singleton] at hn
      rcases hn with hn | rfl
      · exact hold hlive hunsubscribed n hn
      · by_contra hlt
        have hsubscribed := horder.announce i now x he hx hpc j y hy hlive (not_le.mp hlt)
        rw [hunsubscribed] at hsubscribed
        cases hsubscribed
  · intro j y _ _ hold
    exact hold

theorem heard_step (h : Led s) (hs : wsStep cfg workerId s e = some t) :
    ∀ i x seen, t.sessions i = some x → x.listener = .listening seen →
      seen ≤ t.shared.published.length ∧ ∀ n ∈ t.shared.published.take seen,
        n ≤ x.sessionEpoch := by
  -- what is behind a listener does not change as the channel grows
  have hgrow : ∀ {s s' : SharedState} {y : WsSession} {seen : Nat} {more : List Nat},
      s'.published = s.published ++ more →
        (seen ≤ s.published.length ∧ ∀ n ∈ s.published.take seen, n ≤ y.sessionEpoch) →
          seen ≤ s'.published.length ∧ ∀ n ∈ s'.published.take seen, n ≤ y.sessionEpoch := by
    rintro s s' y seen more happend ⟨hle, hall⟩
    rw [happend, List.take_append_of_le_length hle, List.length_append]
    exact ⟨Nat.le_add_right_of_le hle, hall⟩
  have hmoved : ∀ {i : ℕ} {s s' : SharedState} {x x' : WsSession} {action : WsAction},
      WsMove i s x action s' x' → ∃ more, s'.published = s.published ++ more := by
    intro i s s' x x' action hm
    rcases hm.published with hsame | ⟨-, -, happend⟩
    · exact ⟨[], by rw [hsame, List.append_nil]⟩
    · exact ⟨_, happend⟩
  have hmain := each_step hs (P := fun _ s x => ∀ seen, x.listener = .listening seen →
    seen ≤ s.published.length ∧ ∀ n ∈ s.published.take seen, n ≤ x.sessionEpoch)
    (fun i x hx seen => h.heard i x seen hx) ?_ ?_ ?_ ?_
  · exact fun i x seen hx => hmain i x hx seen
  · intro i instanceId seen hlistener
    cases hlistener
  · intro i action x s' x' _ hx hm hold seen hlistener
    obtain ⟨more, hmore⟩ := hmoved hm
    cases hm with
    | draw hphase _ _ hsame =>
        have hfits := h.fits i x hx
        rw [hphase] at hfits
        rw [hsame, beq_iff_eq.mp hfits] at hlistener
        cases hlistener
    | announce | claim | keep | clear | hangUp | finish | advance =>
        exact hgrow hmore (hold seen hlistener)
    | register | unregister | close => cases hlistener
    | @listen action listener hmove =>
        simp only at hlistener
        subst hlistener
        generalize hl : x.listener = l at hmove
        cases hmove with
        | subscribe =>
            have hlive : x.phase.isLive = true := by
              have hfits := h.fits i x hx
              rw [hl] at hfits
              cases hphase : x.phase <;> rw [hphase] at hfits <;> first | rfl | cases hfits
            refine ⟨le_rfl, fun n hn => ?_⟩
            rw [List.take_length] at hn
            exact h.unheard i x hx hlive (by rw [hl]; rfl) n hn
        | @skip seen n hread hle =>
            obtain ⟨hlen, hall⟩ := hold seen hl
            refine ⟨(List.getElem?_eq_some_iff.mp hread).1, fun m hm => ?_⟩
            rw [List.take_add_one, hread, List.mem_append] at hm
            rcases hm with hm | hm
            · exact hall m hm
            · cases List.mem_singleton.mp hm
              exact hle
  · intro i action x s' x' j y _ _ _ _ hm hold seen hlistener
    obtain ⟨more, hmore⟩ := hmoved hm
    exact hgrow hmore (hold seen hlistener)
  · intro j y _ _ hold
    exact hold

/-! ## Keys -/

/-- Whoever has an epoch on the channel and is not listening yet leads nobody who
leads. -/
theorem eq_of_leads (h : Led s) (hnum : Numbered s) {i j : ℕ} {x y : WsSession}
    (hx : s.sessions i = some x) (hy : s.sessions j = some y)
    (hannounced : x.phase.isAnnounced = true)
    (hlive : x.phase.isLive = true) (hunsubscribed : x.listener.subscribed = false)
    (hestablished : y.phase.isEstablished = true) (hleads : y.Leads s.shared) : i = j := by
  have hle := hleads _ (hnum.announced i x hx hannounced)
  have hge := h.unheard i x hx hlive hunsubscribed _
    (hnum.announced j y hy (Phase.isAnnounced_of_isEstablished hestablished))
  have hpos := hnum.positive i x hx
    (by cases hp : x.phase <;> rw [hp] at hlive <;> first | rfl | cases hlive)
  exact hnum.distinct i x j y hx hy hpos (le_antisymm hle hge)

theorem clearing_step (h : Led s) (horder : InOrder s e) (hs : wsStep cfg workerId s e = some t) :
    ∀ i x, t.sessions i = some x → x.phase = .clearing → ∀ current,
      t.shared.registry = some current → current.sessionEpoch = x.sessionEpoch := by
  refine each_step hs (P := fun _ s x => x.phase = .clearing → ∀ current,
    s.registry = some current → current.sessionEpoch = x.sessionEpoch) h.clearing ?_ ?_ ?_ ?_
  · intro i instanceId hphase
    cases hphase
  · intro i action x s' x' _ _ hm hold hclearing current hcurrent
    cases hm with
    | draw _ hphase => rw [hphase] at hclearing; cases hclearing
    | announce | claim | register | unregister | clear | finish => cases hclearing
    | keep hphase hregistry hepoch =>
        cases hregistry.symm.trans hcurrent
        exact hepoch
    | listen | hangUp | close => exact hold hclearing current hcurrent
    | advance hkeys hphase => exact hold (hphase ▸ hclearing) current (hkeys.registry ▸ hcurrent)
  · intro i action x s' x' j y he hx hy _ hm hold hclearing current hcurrent
    cases hm with
    | @claim now hpc =>
        exact absurd (WsPc.phase_eq_clearing hclearing) (horder.claim i now x he hx hpc j y hy)
    | clear => cases hcurrent
    | finish hkeys | advance hkeys => exact hold hclearing current (hkeys.registry ▸ hcurrent)
    | draw | announce | register | unregister | keep | listen | hangUp | close =>
        exact hold hclearing current hcurrent
  · intro j y _ _ _ _ current hcurrent
    cases hcurrent

theorem named_step (h : Led s) (hnum : Numbered s) (horder : InOrder s e)
    (hs : wsStep cfg workerId s e = some t) :
    ∀ i x, t.sessions i = some x → x.phase.isEstablished = true → x.Leads t.shared →
      x.closed = false →
      t.shared.registry = some ⟨x.sessionEpoch, x.instanceId⟩ := by
  refine each_step hs (P := fun _ s x => x.phase.isEstablished = true → x.Leads s →
    x.closed = false →
    s.registry = some ⟨x.sessionEpoch, x.instanceId⟩) h.named ?_ ?_ ?_ ?_
  · intro i instanceId hphase
    cases hphase
  · intro i action x s' x' _ _ hm hold hestablished hleads hopen
    have hbefore := hm.leads hleads
    cases hm with
    | draw _ hphase => rw [hphase] at hestablished; cases hestablished
    | announce | unregister | keep | clear | finish => cases hestablished
    | claim => rfl
    | register hphase => exact hold (by rw [hphase]; rfl) hbefore hopen
    | listen => exact hold hestablished hbefore hopen
    | hangUp | close => cases hopen
    | advance hkeys hphase =>
        rw [hkeys.registry]
        exact hold (hphase ▸ hestablished) hbefore hopen
  · intro i action x s' x' j y _ hx hy hne hm hold hestablished hleads hopen
    have hnamed := hold hestablished (hm.leads hleads) hopen
    cases hm with
    | claim hpc =>
        have hphase : x.phase = .claiming := by rw [WsSession.phase, hpc]; rfl
        have hfits := h.fits i x hx
        rw [hphase] at hfits
        refine absurd (h.eq_of_leads hnum hx hy (by rw [hphase]; rfl) (by rw [hphase]; rfl) ?_
          hestablished hleads) hne.symm
        rw [beq_iff_eq.mp hfits]
        rfl
    | clear hphase =>
        have hown := h.clearing i x hx hphase _ hnamed
        have hpos := hnum.positive i x hx (by rw [hphase]; rfl)
        exact absurd (hnum.distinct i x j y hx hy hpos hown.symm) hne.symm
    | finish hkeys | advance hkeys => rw [hkeys.registry]; exact hnamed
    | draw | announce | register | unregister | keep | listen | hangUp | close => exact hnamed
  · intro j y he hy hold hestablished hleads hopen
    exact absurd (hold hestablished hleads hopen) (horder.expire he j y hy hestablished hopen)

theorem mapped_step (h : Led s) (hnum : Numbered s) (hs : wsStep cfg workerId s e = some t) :
    ∀ i x, t.sessions i = some x → x.phase = .serving → x.Leads t.shared →
      t.shared.localSessions x.instanceId = some ⟨i, x.sessionEpoch⟩ := by
  refine each_step hs (P := fun i s x => x.phase = .serving → x.Leads s →
    s.localSessions x.instanceId = some ⟨i, x.sessionEpoch⟩) h.mapped ?_ ?_ ?_ ?_
  · intro i instanceId hphase
    cases hphase
  · intro i action x s' x' _ _ hm hold hserving hleads
    have hbefore := hm.leads hleads
    cases hm with
    | draw _ hphase => rw [hphase] at hserving; cases hserving
    | announce | claim | unregister | keep | clear | finish => cases hserving
    | register => simp [SharedState.registerSession]
    | listen | hangUp | close => exact hold hserving hbefore
    | advance hkeys hphase =>
        rw [hkeys.localSessions]
        exact hold (hphase ▸ hserving) hbefore
  · intro i action x s' x' j y _ hx hy hne hm hold hserving hleads
    have hmapped := hold hserving (hm.leads hleads)
    cases hm with
    | register hphase =>
        have hfits := h.fits i x hx
        rw [hphase] at hfits
        refine absurd (h.eq_of_leads hnum hx hy (by rw [hphase]; rfl) (by rw [hphase]; rfl) ?_
          (by rw [hserving]; rfl) hleads) hne.symm
        rw [beq_iff_eq.mp hfits]
        rfl
    | unregister hphase =>
        by_cases hinstance : y.instanceId = x.instanceId
        · have hother : y.sessionEpoch ≠ x.sessionEpoch := by
            intro heq
            have hpos := hnum.positive j y hy (by rw [hserving]; rfl)
            exact hne (hnum.distinct j y i x hy hx hpos heq)
          rw [hinstance] at hmapped ⊢
          simp [SharedState.unregisterSession, hmapped, hother]
        · rw [SharedState.unregisterSession_ne hinstance]
          exact hmapped
    | finish hkeys | advance hkeys => rw [hkeys.localSessions]; exact hmapped
    | draw | announce | claim | keep | clear | listen | hangUp | close => exact hmapped
  · intro j y _ _ hold
    exact hold

end Led

/-- **Every orderly run** is led by its highest announced epoch. -/
theorem led_reachable (h : ((sockets cfg workerId).guarded InOrder).Reachable t) : Led t := by
  refine h.invariant (P := Led) ?_ ?_
  · rintro s ⟨row, db, rfl⟩
    refine ⟨?_, ?_, ?_, ?_, ?_, ?_, ?_⟩
    all_goals
      intro i x
      intros
      contradiction
  · rintro s e t ⟨es, hrun⟩ hled ⟨hs, horder⟩
    have hnum : Numbered s := numbered_reachable hrun.of_guarded.reachable
    exact ⟨hled.fits_step hs, hled.ended_step hs, hled.unheard_step hnum horder hs,
      hled.heard_step hs,
      hled.clearing_step horder hs, hled.named_step hnum horder hs, hled.mapped_step hnum hs⟩

/-- What the claim says of the open socket `i`. -/
structure Wins (t : WsState) (i : ℕ) (x : WsSession) : Prop where
  highest : x.Leads t.shared
  registered : t.shared.registry = some ⟨x.sessionEpoch, x.instanceId⟩
  mapped : t.shared.localSessions x.instanceId = some ⟨i, x.sessionEpoch⟩

theorem WsSession.isOpen_iff {x : WsSession} : x.isOpen = true ↔ x.phase = .serving ∧
    x.closed = false := by
  simp [WsSession.isOpen]

/-- An open socket that has handled all it was sent is not below any epoch. -/
theorem Led.leads_of_hasHandled (h : Led t) {i : ℕ} {x : WsSession} (hx : t.sessions i = some x)
    (hopen : x.isOpen = true) (hhandled : x.listener.HasHandled t.shared.published) :
    x.Leads t.shared := by
  obtain ⟨hserving, hclosed⟩ := WsSession.isOpen_iff.mp hopen
  have hlive : x.phase.isLive = true := by rw [hserving]; rfl
  cases hlistener : x.listener with
  | absent | created => exact h.unheard i x hx hlive (by rw [hlistener]; rfl)
  | listening seen =>
      rw [hlistener] at hhandled
      obtain ⟨-, hall⟩ := h.heard i x seen hx hlistener
      rwa [show seen = _ from hhandled, List.take_length] at hall
  | evicting | closing =>
      rw [hlistener] at hhandled
      exact hhandled.elim
  | ended =>
      have := h.ended i x hx hserving hlistener
      rw [hclosed] at this
      cases this

/-- **One winner.** In every orderly run, of any number of handshakes and
teardowns on any replicas: when every published message has been handled, an open
socket has the highest epoch that was announced, the registry key names it and so
does the `_local_sessions` of its replica; and there is at most one. -/
theorem one_winner (h : ((sockets cfg workerId).guarded InOrder).Reachable t)
    (hhandled : ∀ i x, t.sessions i = some x → x.listener.HasHandled t.shared.published) :
    (∀ i x, t.sessions i = some x → x.isOpen = true → Wins t i x) ∧
      ∀ i j x y, t.sessions i = some x → t.sessions j = some y → x.isOpen = true → y.isOpen = true →
        i = j := by
  have hled := led_reachable h
  have hnum : Numbered t := by
    obtain ⟨es, hrun⟩ := h
    exact numbered_reachable hrun.of_guarded.reachable
  have hannounced : ∀ {i x}, t.sessions i = some x → x.isOpen = true →
      x.sessionEpoch ∈ t.shared.published ∧ 0 < x.sessionEpoch := by
    intro i x hx hopen
    obtain ⟨hserving, -⟩ := WsSession.isOpen_iff.mp hopen
    exact ⟨hnum.announced i x hx (by rw [hserving]; rfl),
      hnum.positive i x hx (by rw [hserving]; rfl)⟩
  constructor
  · intro i x hx hopen
    obtain ⟨hserving, hclosed⟩ := WsSession.isOpen_iff.mp hopen
    have hleads := hled.leads_of_hasHandled hx hopen (hhandled i x hx)
    exact ⟨hleads, hled.named i x hx (by rw [hserving]; rfl) hleads hclosed,
      hled.mapped i x hx hserving hleads⟩
  · intro i j x y hx hy hox hoy
    obtain ⟨hxin, hpos⟩ := hannounced hx hox
    obtain ⟨hyin, -⟩ := hannounced hy hoy
    have hle := hled.leads_of_hasHandled hy hoy (hhandled j y hy) _ hxin
    have hge := hled.leads_of_hasHandled hx hox (hhandled i x hx) _ hyin
    exact hnum.distinct i x j y hx hy hpos (le_antisymm hle hge)

end

/-- The condition, of a state whose sockets are the first `n`. -/
def WsState.inOrder (n : ℕ) (s : WsState) : WsEvent → Bool
  | .act i (.turn _) => (s.sessions i).all fun x => (List.range n).all fun j =>
      (s.sessions j).all fun y =>
        (x.phase != .announcing || !y.phase.isLive || x.sessionEpoch ≤ y.sessionEpoch ||
          y.listener.subscribed) &&
        (x.phase != .claiming || y.phase != .clearing)
  | .expireRegistry => false
  | _ => true

theorem inOrder_of_check {s : WsState} {e : WsEvent} {n : ℕ}
    (hfew : ∀ k, n ≤ k → s.sessions k = none) (h : s.inOrder n e = true) : InOrder s e := by
  have hpair : ∀ {i now x j y}, e = .act i (.turn now) → s.sessions i = some x →
      s.sessions j = some y → (x.phase = .announcing → y.phase.isLive = true →
          y.sessionEpoch < x.sessionEpoch → y.listener.subscribed = true) ∧
        (x.phase = .claiming → y.phase ≠ .clearing) := by
    rintro i now x j y rfl hx hy
    simp only [WsState.inOrder, hx, Option.all_some, List.all_eq_true, List.mem_range] at h
    have hthis := h j (lt_of_session hfew hy)
    simp only [hy, Option.all_some, Bool.and_eq_true, Bool.or_eq_true, bne_iff_ne, ne_eq,
      Bool.not_eq_true', decide_eq_true_eq] at hthis
    refine ⟨fun hannouncing hlive hlt => ?_, fun hclaiming => ?_⟩
    · rcases hthis.1 with ((hnot | hnot) | hle) | hsubscribed
      · exact absurd hannouncing hnot
      · rw [hlive] at hnot
        cases hnot
      · exact absurd hlt (Nat.not_lt.mpr hle)
      · exact hsubscribed
    · exact hthis.2.resolve_left fun hnot => hnot hclaiming
  refine ⟨fun i now x he hx hpc j y hy => ?_, fun i now x he hx hpc j y hy hclearing => ?_, ?_⟩
  · exact (hpair he hx hy).1 (by rw [WsSession.phase, hpc]; rfl)
  · exact (hpair he hx hy).2 (by rw [WsSession.phase, hpc]; rfl)
      (by rw [WsSession.phase, hclearing]; rfl)
  · rintro rfl
    cases h

namespace Demo

/-- A worker connects twice, to two replicas. The first socket has drawn its
epoch when the second connects, and publishes it when the second is there. -/
def connectedTwice : List WsEvent :=
  .accept 0 "a" :: turns 0 4 ++ .accept 1 "b" :: turns 1 9 ++ [.act 1 .listen] ++ turns 1 1 ++
    turns 0 5 ++ [.act 0 .listen] ++ turns 0 1 ++ [.act 1 .listen]

/-- The worker connects a second time when its first socket reads, and the first socket is told
and goes. -/
def supersededInTurn : List WsEvent := connected ++ .accept 1 "b" :: turns 1 10 ++
  [.act 1 .listen] ++ turns 1 1 ++
  [.act 0 .listen, .act 0 .listen, .act 0 .listen, .act 0 .raise] ++ turns 0 1

end Demo

/-- Of the two sockets the second wins. -/
theorem one_winner_superseded :
    ∃ t x y, ((sockets {} Demo.worker).guarded InOrder).Reachable t ∧
      t.sessions 0 = some x ∧ x.isOpen = false ∧ y.isOpen = true ∧ Wins t 1 y := by
  have hplayed : ∃ t, Demo.supersededInTurn.foldlM (fun s e =>
        if e.within 2 && s.inOrder 2 e then wsStep {} Demo.worker s e else none)
          Demo.noSockets = some t ∧
      t.sessions 0 = some ⟨"a", .returned, 1, true, .ended⟩ ∧
      t.sessions 1 = some ⟨"b", .receive, 2, false, .listening 2⟩ ∧ t.shared.published = [1, 2] :=
    ⟨_, rfl, rfl, rfl, rfl⟩
  obtain ⟨t, ht, hold, hnew, hpublished⟩ := hplayed
  obtain ⟨hguarded, hfew⟩ := guarded_of_played (n := 2) (fun _ _ => inOrder_of_check)
    (fun _ _ => rfl) ht
  have hreach : ((sockets {} Demo.worker).guarded InOrder).Reachable t :=
    ⟨_, _, ⟨_, _, rfl⟩, hguarded⟩
  have hhandled : ∀ i x, t.sessions i = some x → x.listener.HasHandled t.shared.published := by
    intro i x hx
    match i with
    | 0 => cases hold.symm.trans hx; trivial
    | 1 => cases hnew.symm.trans hx; rw [hpublished]; rfl
    | i + 2 => rw [hfew (i + 2) (by omega)] at hx; cases hx
  exact ⟨t, _, _, hreach, hold, rfl, rfl, (one_winner hreach hhandled).1 1 _ hnew rfl⟩

/-- **Two handshakes at once both stay.** Each of the two sockets has handled all
it was sent and is open, and the registry key names the lower epoch. -/
theorem racing_handshakes_both_stay :
    ∃ t x y, (sockets {} Demo.worker).Reachable t ∧
      (∀ i z, t.sessions i = some z → z.listener.HasHandled t.shared.published) ∧
      t.sessions 0 = some x ∧ t.sessions 1 = some y ∧ x.isOpen = true ∧ y.isOpen = true ∧
      x.sessionEpoch < y.sessionEpoch ∧ t.shared.registry = some
        ⟨x.sessionEpoch, x.instanceId⟩ := by
  have hplayed : ∃ t, Demo.connectedTwice.foldlM (wsStep {} Demo.worker) Demo.noSockets = some t ∧
      t.sessions 0 = some ⟨"a", .receive, 1, false, .listening 2⟩ ∧
      t.sessions 1 = some ⟨"b", .receive, 2, false, .listening 2⟩ ∧
        (∀ i, t.sessions (i + 2) = none) ∧
      t.shared.published = [2, 1] ∧ t.shared.registry = some ⟨1, "a"⟩ :=
    ⟨_, rfl, rfl, rfl, fun _ => rfl, rfl, rfl⟩
  obtain ⟨t, ht, hfirst, hsecond, hothers, hpublished, hregistry⟩ := hplayed
  refine ⟨t, _, _, ⟨_, _, ⟨_, _, rfl⟩, System.Trace.of_foldlM (fun _ _ _ h => h) ht⟩, ?_,
    hfirst, hsecond, rfl,
    rfl, by decide, hregistry⟩
  intro i z hz
  match i with
  | 0 => cases hfirst.symm.trans hz; rw [hpublished]; rfl
  | 1 => cases hsecond.symm.trans hz; rw [hpublished]; rfl
  | i + 2 => rw [hothers i] at hz; cases hz

end TaskFleet.Model
