import TaskFleet.Lib.Trace
import Mathlib.Data.List.Pairwise

/-!
# Fenced leases

One resource is handed to one holder at a time. Each hand-over carries the
resource's current *token*; taking the resource back raises the token, so a
message that still names the old one can be told from a current one. The
resource ends *closed*: accepted from its holder, given up by it, expired for
good, or withdrawn while nobody held it.

The system says nothing about how a hand-over is decided. What it does say is
proved here once, over whole runs: tokens increase from grant to grant
(`History.increasing`), so a token has one holder (`Run.grant_unique`);
whoever holds the resource was granted the current token
(`Run.holder_granted`); an earlier grant has been revoked
(`Run.revoked_of_lt`); and at most one acceptance ever happens, of the current
grant (`Run.accept_once`, `Run.accepted`).
-/

namespace TaskFleet.Lease

variable {ω : Type}

/-- Who has the resource. -/
inductive Phase (ω : Type) where
  | absent
  | idle
  | held (holder : ω)
  | closed

/-- A resource and its fencing token. -/
structure Resource (ω : Type) where
  phase : Phase ω
  token : ℕ

/-- What can happen to a resource; `silent` is everything that does not
concern it. -/
inductive Event (ω : Type) where
  | create
  | grant (holder : ω) (token : ℕ)
  | revoke (holder : ω) (token : ℕ)
  | expire (holder : ω) (token : ℕ)
  | accept (holder : ω) (token : ℕ)
  | abandon (holder : ω)
  | withdraw
  | silent

/-- The life of a resource. Only `revoke` makes a held resource idle again,
and nothing leaves `closed`. -/
inductive Step : Resource ω → Event ω → Resource ω → Prop
  | create : Step ⟨.absent, 0⟩ .create ⟨.idle, 0⟩
  | grant (w : ω) (n : ℕ) : Step ⟨.idle, n⟩ (.grant w n) ⟨.held w, n⟩
  | revoke (w : ω) (n : ℕ) : Step ⟨.held w, n⟩ (.revoke w n) ⟨.idle, n + 1⟩
  | expire (w : ω) (n : ℕ) : Step ⟨.held w, n⟩ (.expire w n) ⟨.closed, n + 1⟩
  | accept (w : ω) (n : ℕ) : Step ⟨.held w, n⟩ (.accept w n) ⟨.closed, n⟩
  | abandon (w : ω) (n : ℕ) : Step ⟨.held w, n⟩ (.abandon w) ⟨.closed, n⟩
  | withdraw (n : ℕ) : Step ⟨.idle, n⟩ .withdraw ⟨.closed, n⟩
  | silent (r : Resource ω) : Step r .silent r

/-- The resource as a transition system, starting absent. -/
def system (ω : Type) : System (Resource ω) (Event ω) where
  init r := r = ⟨.absent, 0⟩
  step := Step

/-- The hand-over an event is, as token and holder. -/
def Event.granted : Event ω → Option (ℕ × ω)
  | .grant w n => some (n, w)
  | _ => none

/-- All hand-overs of a history, oldest first. -/
def grants (es : List (Event ω)) : List (ℕ × ω) := es.filterMap Event.granted

/-- Whether the event takes a result from the holder. -/
def Event.isAccept : Event ω → Bool
  | .accept _ _ => true
  | _ => false

/-- Whether the event takes the resource back. -/
def Event.isTaken : Event ω → Bool
  | .revoke _ _ | .expire _ _ => true
  | _ => false

/-- Whether the event ends the resource without a result, from its holder. -/
def Event.isFailure : Event ω → Bool
  | .expire _ _ | .abandon _ => true
  | _ => false

/-- Whether the event hands over with token `n`. -/
def Event.isGrant (n : ℕ) : Event ω → Bool
  | .grant _ m => m = n
  | _ => false

theorem mem_grants {es : List (Event ω)} {n : ℕ} {w : ω} :
    (n, w) ∈ grants es ↔ Event.grant w n ∈ es := by
  simp only [grants, List.mem_filterMap]
  constructor
  · rintro ⟨e, he, hg⟩
    cases e <;> simp_all [Event.granted]
  · intro h
    exact ⟨_, h, rfl⟩

theorem grants_snoc (es : List (Event ω)) (e : Event ω) :
    grants (es ++ [e]) = grants es ++ e.granted.toList := by
  cases e <;> simp [grants, Event.granted]

/-- What the grants of a history have to do with the resource reached. -/
structure History (es : List (Event ω)) (r : Resource ω) : Prop where
  /-- Tokens increase from grant to grant. -/
  increasing : (grants es).Pairwise fun a b => a.1 < b.1
  /-- No grant is ahead of the resource. -/
  le_token : ∀ g ∈ grants es, g.1 ≤ r.token
  /-- While nobody has it, the current token is still to be granted. -/
  fresh : (r.phase = .absent ∨ r.phase = .idle) → ∀ g ∈ grants es, g.1 < r.token
  /-- The holder was granted the current token. -/
  holder : ∀ w, r.phase = .held w → (r.token, w) ∈ grants es
  /-- Every grant the token has passed was taken back. -/
  passed : ∀ g ∈ grants es, g.1 < r.token →
    Event.revoke g.2 g.1 ∈ es ∨ Event.expire g.2 g.1 ∈ es

section Grants

variable {es : List (Event ω)} {r r' : Resource ω} {e : Event ω}

/-- In an increasing list of grants the token determines the grant. -/
theorem History.unique (h : History es r) {n : ℕ} {v w : ω} (hv : (n, v) ∈ grants es)
    (hw : (n, w) ∈ grants es) : v = w := by
  have hinj := h.increasing
  by_contra hne
  obtain ⟨as, bs, hsplit⟩ := List.append_of_mem hv
  rw [hsplit] at hinj hw
  rw [List.pairwise_append, List.pairwise_cons] at hinj
  obtain ⟨-, ⟨hafter, -⟩, hbefore⟩ := hinj
  rcases List.mem_append.mp hw with hw | hw
  · exact absurd (hbefore _ hw _ List.mem_cons_self) (Nat.lt_irrefl n)
  · rcases List.mem_cons.mp hw with heq | hw
    · exact hne (Prod.mk.inj heq).2.symm
    · exact absurd (hafter _ hw) (Nat.lt_irrefl n)

/-- An event that hands nothing over keeps the list of grants. -/
theorem grants_of_granted_none (he : e.granted = none) : grants (es ++ [e]) = grants es := by
  rw [grants_snoc, he, Option.toList_none, List.append_nil]

/-- An event that hands nothing over keeps the invariant as long as a token
it passes is one it takes back. -/
theorem History.step_of_granted_none (h : History es r) (he : e.granted = none)
    (hle : r.token ≤ r'.token)
    (hidle : (r'.phase = .absent ∨ r'.phase = .idle) →
      (r.phase = .absent ∨ r.phase = .idle) ∨ r.token < r'.token)
    (hheld : ∀ w, r'.phase = .held w → r.phase = .held w ∧ r'.token = r.token)
    (hback : ∀ g ∈ grants es, r.token ≤ g.1 → g.1 < r'.token →
      e = .revoke g.2 g.1 ∨ e = .expire g.2 g.1) : History (es ++ [e]) r' := by
  have hg : grants (es ++ [e]) = grants es := grants_of_granted_none he
  have hpast : ∀ {f : Event ω}, f ∈ es → f ∈ es ++ [e] := fun hf => List.mem_append_left _ hf
  have hlast : e ∈ es ++ [e] := by simp
  refine ⟨by rw [hg]; exact h.increasing, ?_, ?_, ?_, ?_⟩
  · intro g hmem
    exact Nat.le_trans (h.le_token g (hg ▸ hmem)) hle
  · intro hp g hmem
    rw [hg] at hmem
    rcases hidle hp with hold | hlt
    · exact Nat.lt_of_lt_of_le (h.fresh hold g hmem) hle
    · exact Nat.lt_of_le_of_lt (h.le_token g hmem) hlt
  · intro w hw
    obtain ⟨hold, htoken⟩ := hheld w hw
    rw [hg, htoken]
    exact h.holder w hold
  · intro g hmem hlt
    rw [hg] at hmem
    rcases Nat.lt_or_ge g.1 r.token with hold | hnew
    · exact (h.passed g hmem hold).imp hpast hpast
    · rcases hback g hmem hnew hlt with heq | heq
      · exact .inl (heq ▸ hlast)
      · exact .inr (heq ▸ hlast)

/-- A grant at or past the token of a held resource is the holder's. -/
theorem History.eq_holder {n : ℕ} {w : ω} (h : History es ⟨.held w, n⟩) {g : ℕ × ω}
    (hg : g ∈ grants es) (hle : n ≤ g.1) : g = (n, w) := by
  have hn : g.1 = n := Nat.le_antisymm (h.le_token g hg) hle
  have hw : g.2 = w := h.unique (n := n) (hn ▸ hg) (h.holder w rfl)
  exact Prod.ext hn hw

/-- A grant extends the history by the current token. -/
theorem History.step_grant {n : ℕ} (h : History es ⟨.idle, n⟩) (w : ω) :
    History (es ++ [.grant w n]) ⟨.held w, n⟩ := by
  have hfresh : ∀ g ∈ grants es, g.1 < n := h.fresh (.inr rfl)
  have hg : grants (es ++ [.grant w n]) = grants es ++ [(n, w)] := by
    rw [grants_snoc]
    rfl
  have hmem : ∀ g ∈ grants (es ++ [.grant w n]), g ∈ grants es ∨ g = (n, w) := by
    intro g hgm
    rw [hg, List.mem_append, List.mem_singleton] at hgm
    exact hgm
  refine ⟨?_, ?_, ?_, ?_, ?_⟩
  · rw [hg, List.pairwise_append]
    refine ⟨h.increasing, List.pairwise_singleton _ _, fun a ha b hb => ?_⟩
    rw [List.mem_singleton.mp hb]
    exact hfresh a ha
  · intro g hgm
    rcases hmem g hgm with hold | rfl
    · exact h.le_token g hold
    · exact Nat.le_refl n
  · rintro (hp | hp) <;> cases hp
  · intro v hv
    cases hv
    rw [hg]
    exact List.mem_append_right _ List.mem_cons_self
  · intro g hgm hlt
    rcases hmem g hgm with hold | rfl
    · exact (h.passed g hold hlt).imp (List.mem_append_left _) (List.mem_append_left _)
    · exact absurd hlt (Nat.lt_irrefl n)

/-- **One step.** The history invariant survives every event. -/
theorem History.step (h : History es r) (hstep : Step r e r') : History (es ++ [e]) r' := by
  cases hstep with
  | grant w n => exact h.step_grant w
  | create =>
      refine h.step_of_granted_none rfl (Nat.le_refl _) (fun _ => .inl (.inl rfl)) ?_ ?_
      · intro w hw; cases hw
      · intro g _ hle hlt; exact absurd hlt (Nat.not_lt.mpr hle)
  | revoke w n =>
      refine h.step_of_granted_none rfl (Nat.le_succ n) (fun _ => .inr (Nat.lt_succ_self n)) ?_ ?_
      · intro v hv; cases hv
      · intro g hg hle _
        rw [h.eq_holder hg hle]
        exact .inl rfl
  | expire w n =>
      refine h.step_of_granted_none rfl (Nat.le_succ n) (fun _ => .inr (Nat.lt_succ_self n)) ?_ ?_
      · intro v hv; cases hv
      · intro g hg hle _
        rw [h.eq_holder hg hle]
        exact .inr rfl
  | accept w n | abandon w n | withdraw n =>
      refine h.step_of_granted_none rfl (Nat.le_refl _) ?_ ?_ ?_
      · rintro (hp | hp) <;> cases hp
      · intro v hv; cases hv
      · intro g _ hle hlt; exact absurd hlt (Nat.not_lt.mpr hle)
  | silent r =>
      refine h.step_of_granted_none rfl (Nat.le_refl _) .inl (fun w hw => ⟨hw, rfl⟩) ?_
      intro g _ hle hlt
      exact absurd hlt (Nat.not_lt.mpr hle)

end Grants

/-- **Every run.** The history invariant holds of every run. -/
theorem Run.history {es : List (Event ω)} {r : Resource ω} (h : (system ω).Run es r) :
    History es r := by
  refine h.invariant (I := History) ?_ ?_
  · rintro r rfl
    exact ⟨.nil, by simp [grants], by simp [grants], by simp, by simp [grants]⟩
  · intro es s e t _ ih hstep
    exact History.step ih hstep

section Runs

variable {es : List (Event ω)} {r : Resource ω}

/-- A token has one holder. -/
theorem Run.grant_unique (h : (system ω).Run es r) {n : ℕ} {v w : ω}
    (hv : Event.grant v n ∈ es) (hw : Event.grant w n ∈ es) : v = w :=
  (Run.history h).unique (mem_grants.mpr hv) (mem_grants.mpr hw)

/-- Whoever holds the resource was granted the current token. -/
theorem Run.holder_granted (h : (system ω).Run es r) {w : ω} (hw : r.phase = .held w) :
    Event.grant w r.token ∈ es :=
  mem_grants.mp ((Run.history h).holder w hw)

/-- No grant is ahead of the token. -/
theorem Run.grant_le (h : (system ω).Run es r) {w : ω} {n : ℕ} (hg : Event.grant w n ∈ es) :
    n ≤ r.token :=
  (Run.history h).le_token _ (mem_grants.mpr hg)

/-- A grant the token has passed was taken back from the holder it went to. -/
theorem Run.revoked_of_lt (h : (system ω).Run es r) {w : ω} {n : ℕ}
    (hg : Event.grant w n ∈ es) (hlt : n < r.token) :
    Event.revoke w n ∈ es ∨ Event.expire w n ∈ es :=
  (Run.history h).passed _ (mem_grants.mpr hg) hlt

/-- While nobody holds it, every grant so far was taken back. -/
theorem Run.grant_lt_of_idle (h : (system ω).Run es r) (hidle : r.phase = .idle) {w : ω} {n : ℕ}
    (hg : Event.grant w n ∈ es) : n < r.token :=
  (Run.history h).fresh (.inr hidle) _ (mem_grants.mpr hg)

/-- A closed resource stays as it is, and nothing but silence happens to it. -/
theorem Step.of_closed {r' : Resource ω} {e : Event ω} (hstep : Step r e r')
    (hc : r.phase = .closed) : e = .silent ∧ r' = r := by
  cases hstep with
  | silent => exact ⟨rfl, rfl⟩
  | _ => cases hc

/-- Nothing happens to a resource that is closed. -/
theorem Trace.of_closed {r' : Resource ω} (h : (system ω).Trace r es r') (hc : r.phase = .closed) :
    (∀ e ∈ es, e = .silent) ∧ r' = r := by
  induction h with
  | nil => exact ⟨by simp, rfl⟩
  | snoc _ hstep ih =>
      obtain ⟨hsilent, rfl⟩ := ih
      obtain ⟨he, rfl⟩ := Step.of_closed hstep hc
      refine ⟨fun f hf => ?_, rfl⟩
      rcases List.mem_append.mp hf with hf | hf
      · exact hsilent f hf
      · rw [List.mem_singleton.mp hf, he]

/-- A failure closes the resource for good. -/
theorem Run.closed_of_failure (h : (system ω).Run es r) {e : Event ω} (he : e ∈ es)
    (hfailure : e.isFailure = true) : r.phase = .closed := by
  obtain ⟨s, hinit, htrace⟩ := h
  obtain ⟨as, bs, rfl⟩ := List.append_of_mem he
  obtain ⟨t, t', -, hstep, hafter⟩ := htrace.at_event
  have hclosed : t'.phase = .closed := by
    change Step t e t' at hstep
    cases hstep <;> first | rfl | cases hfailure
  rw [(Trace.of_closed hafter hclosed).2]
  exact hclosed

/-- The token never goes back. -/
theorem Step.token_le {r' : Resource ω} {e : Event ω} (hstep : Step r e r') :
    r.token ≤ r'.token := by
  cases hstep <;> simp

theorem Trace.token_le {r' : Resource ω} (h : (system ω).Trace r es r') : r.token ≤ r'.token := by
  induction h with
  | nil => exact Nat.le_refl _
  | snoc _ hstep ih => exact Nat.le_trans ih (Step.token_le hstep)

/-- The tokens handed over are `0, 1, …`, without a gap, up to the current one. -/
structure Numbered (es : List (Event ω)) (r : Resource ω) (k : ℕ) : Prop where
  tokens : (grants es).map Prod.fst = List.range k
  waiting : r.phase = .absent ∨ r.phase = .idle → k = r.token
  held : ∀ w, r.phase = .held w → k = r.token + 1

/-- **One step** keeps the numbering. -/
theorem Numbered.step {r' : Resource ω} {e : Event ω} {k : ℕ} (h : Numbered es r k)
    (hstep : Step r e r') : ∃ k', Numbered (es ++ [e]) r' k' := by
  cases hstep with
  | grant w n =>
      -- the one event that hands over: the current token, which is the next number
      obtain rfl : k = n := h.waiting (.inr rfl)
      refine ⟨k + 1, ?_, ?_, fun _ _ => rfl⟩
      · rw [grants_snoc, List.map_append, h.tokens, List.range_succ]
        rfl
      · rintro (hp | hp) <;> cases hp
  | create =>
      have hk := h.waiting (.inl rfl)
      refine ⟨k, by rw [grants_of_granted_none rfl, h.tokens], fun _ => hk, ?_⟩
      intro w hw; cases hw
  | revoke w n =>
      have hk := h.held w rfl
      refine ⟨k, by rw [grants_of_granted_none rfl, h.tokens], fun _ => hk, ?_⟩
      intro v hv; cases hv
  | expire w n | accept w n | abandon w n | withdraw n =>
      refine ⟨k, by rw [grants_of_granted_none rfl, h.tokens], ?_, ?_⟩
      · rintro (hp | hp) <;> cases hp
      · intro v hv; cases hv
  | silent r =>
      exact ⟨k, by rw [grants_of_granted_none rfl, h.tokens], h.waiting, h.held⟩

/-- **Grants are numbered from zero, without a gap.** -/
theorem Run.numbered (h : (system ω).Run es r) : ∃ k, Numbered es r k := by
  refine h.invariant (I := fun es r => ∃ k, Numbered es r k) ?_ ?_
  · rintro r rfl
    exact ⟨0, rfl, fun _ => rfl, fun w hw => by cases hw⟩
  · intro es r e r' _ ⟨k, hk⟩ hstep
    exact hk.step hstep

/-- The token counts how often the resource was taken back. -/
theorem Run.taken_length (h : (system ω).Run es r) :
    (es.filter Event.isTaken).length = r.token := by
  refine h.invariant (I := fun es r => (es.filter Event.isTaken).length = r.token) ?_ ?_
  · rintro r rfl
    rfl
  · intro es r e r' _ ih hstep
    rw [List.filter_append, List.length_append, ih]
    cases hstep <;> rfl

/-- **At most one grant of a token.** -/
theorem Run.grant_once (h : (system ω).Run es r) (n : ℕ) :
    (es.filter (Event.isGrant n)).length ≤ 1 := by
  refine h.at_most_once
    (Q := fun r => n < r.token ∨ (n = r.token ∧ r.phase ≠ .absent ∧ r.phase ≠ .idle)) ?_ ?_
  · intro s e t _ hstep he
    cases hstep with
    | grant w m =>
        obtain rfl : m = n := by simpa [Event.isGrant] using he
        simp
    | _ => simp [Event.isGrant] at he
  · intro s e t _ hstep hq
    cases hstep with
    | revoke w m => exact .inl (by rcases hq with h | ⟨h, -⟩ <;> simp at h ⊢ <;> omega)
    | expire w m => exact .inl (by rcases hq with h | ⟨h, -⟩ <;> simp at h ⊢ <;> omega)
    | silent => exact hq
    | _ => simp_all

/-- **At most one acceptance.** -/
theorem Run.accept_once (h : (system ω).Run es r) : (es.filter Event.isAccept).length ≤ 1 := by
  refine h.at_most_once (Q := fun r => r.phase = .closed) ?_ ?_
  · intro s e t _ hstep he
    cases hstep with
    | accept w n =>
        refine ⟨fun hc => ?_, rfl⟩
        cases hc
    | _ => simp [Event.isAccept] at he
  · intro s e t _ hstep hc
    rw [(Step.of_closed hstep hc).2]
    exact hc

end Runs

end TaskFleet.Lease
