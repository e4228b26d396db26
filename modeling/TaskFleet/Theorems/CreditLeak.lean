import TaskFleet.Logic.CreditBacking

/-!
# When no credit leaks

The source has several steps that lose what backs a credit and do not release
it: a refusal for lack of a slot, a report that is dropped between `hello` and
`attach`, a fenced result of a task the session did not deliver, and some
races. `KeepsCredits` rules them out. Without them every credit in use is
backed in every state (`Accounted`), so every credit is back when the session
has come to rest (`credits_all_back`).
-/

namespace TaskFleet.Model

open Py

namespace Fleet

variable {x : Setting} {f f' : Fleet} {l : Label}

/-! ## The coordinator handles a message -/

/-- The coordinator is done with the report `report` and the refusal `refused`,
where there are any; the rest is still there. -/
structure Handles (f f' : Fleet) (report : Option (String × Token))
    (refused : Option String) : Prop where
  toWorker : f'.toWorker = f.toWorker
  link : f'.link = f.link
  hello : f'.hello = f.hello
  runner : f'.runner = f.runner
  transit : ∀ p ∈ f.inTransit, p ∈ f'.inTransit ∨ report = some p
  refusals : ∀ m ∈ f.toCoordinator, ∀ t, m.refuses = some t → m ∈ f'.toCoordinator ∨
    refused = some t

theorem Handles.carried {report : Option (String × Token)} {refused : Option String}
    (h : Handles f f' report refused) {t : String} (hreport : ∀ p, report = some p → p.1 ≠ t)
    (hrefused : refused ≠ some t) (ht : f.Carried t) : f'.Carried t := by
  rcases ht with ⟨m, hm, hassigns⟩ | ⟨m, hm, hrefuses⟩ | ⟨p, hp, hpt⟩ | ⟨hup, hrunning⟩
  · exact .inl ⟨m, h.toWorker ▸ hm, hassigns⟩
  · rcases h.refusals m hm t hrefuses with hstill | hover
    · exact .inr (.inl ⟨m, hstill, hrefuses⟩)
    · exact absurd hover hrefused
  · rcases h.transit p hp with hstill | hover
    · exact .inr (.inr (.inl ⟨p, hstill, hpt⟩))
    · exact absurd hpt (hreport p hover)
  · exact .inr (.inr (.inr ⟨h.link.trans hup, h.runner ▸ hrunning⟩))

theorem Handles.live {report : Option (String × Token)} {refused : Option String}
    (h : Handles f f' report refused) {k : Token} (hreport : ∀ p, report = some p → p.2 ≠ k)
    (hk : f.Live k) : f'.Live k := by
  rcases hk with hrunning | ⟨p, hp, hpk⟩ | hpending
  · exact .inl (h.runner ▸ hrunning)
  · rcases h.transit p hp with hstill | hover
    · exact .inr (.inl ⟨p, hstill, hpk⟩)
    · exact absurd hpk (hreport p hover)
  · exact .inr (.inr (h.runner ▸ hpending))

variable {s s' : LocalSession} {t : String} {k : Token}

/-- The credits are backed. -/
abbrev Backed (f : Fleet) (s : LocalSession) : Prop :=
  (s.books ∅ (f.declared \ f.reported)).Backed f.Carried f.Live

theorem Handles.backed_same (h : Handles f f' none none) (hb : f.Backed s)
    (hsame : s.SameCredits s')
    (hdeclared : f'.declared = f.declared) (hreported : f'.reported = f.reported) :
    f'.Backed s' := by
  rw [Backed, hsame.books, hdeclared, hreported]
  exact hb.mono (fun t _ ht => h.carried (by simp) (by simp) ht) fun k _ hk => h.live (by simp) hk

/-- A report that gives its credit back. -/
theorem Handles.backed_gives (h : Handles f f' (some (t, k)) none) (hb : f.Backed s)
    (hgives : s.Gives s' t) (hcounted : k ∈ f.declared \ f.reported → t ∉ s.credited.keys)
    (hdeclared : f'.declared = f.declared) (hreported : f'.reported = insert k f.reported) :
    f'.Backed s' := by
  have hbooks : s'.books ∅ (f'.declared \ f'.reported) =
      ((s.books ∅ (f.declared \ f.reported)).release t).settle ∅
        ((f.declared \ f.reported).erase k) := by
    rw [hgives.books, ← Books.release_settle, hdeclared, hreported, Finset.sdiff_insert]
    rfl
  rw [Backed, hbooks]
  refine Books.Backed.release hb (fun hk hkey => hcounted hk (LocalSession.mem_books_keyed.mp hkey))
    (fun t' hne ht' => h.carried ?_ (by simp) ht') fun k' hne hk' => h.live ?_ hk'
  · intro p hp
    rw [← Option.some.inj hp]
    exact hne.symm
  · intro p hp
    rw [← Option.some.inj hp]
    exact hne.symm

/-- A report that gives nothing back. -/
theorem Handles.backed_ignored (h : Handles f f' (some (t, k)) none) (hb : f.Backed s)
    (hsame : s.SameCredits s') (hk : k ∉ f.declared \ f.reported) (ht : t ∉ s.credited.keys)
    (hdeclared : f'.declared = f.declared) (hreported : f'.reported = insert k f.reported) :
    f'.Backed s' := by
  have hbooks : s'.books ∅ (f'.declared \ f'.reported) =
      (s.books ∅ (f.declared \ f.reported)).settle ∅ ((f.declared \ f.reported).erase k) := by
    rw [hsame.books, hdeclared, hreported, Finset.sdiff_insert]
    rfl
  rw [Backed, hbooks]
  refine Books.Backed.ignore hb hk (fun t' ht' hcarried => h.carried ?_ (by simp) hcarried)
    fun k' hne hk' => h.live ?_ hk'
  · intro p hp heq
    obtain rfl := Option.some.inj hp
    obtain rfl : t = t' := heq
    exact ht (LocalSession.mem_books_keyed.mp ht')
  · intro p hp
    rw [← Option.some.inj hp]
    exact hne.symm

/-- A refusal that gives its credit back. -/
theorem Handles.backed_refused (h : Handles f f' none (some t)) (hb : f.Backed s)
    (hgives : s.Gives s' t) (hdeclared : f'.declared = f.declared)
    (hreported : f'.reported = f.reported) : f'.Backed s' := by
  have hbooks : s'.books ∅ (f'.declared \ f'.reported) =
      ((s.books ∅ (f.declared \ f.reported)).release t).settle ∅ (f.declared \ f.reported) := by
    rw [hgives.books, ← Books.release_settle, hdeclared, hreported]
    rfl
  rw [Backed, hbooks]
  refine Books.Backed.refuse hb (fun t' hne ht' => h.carried (by simp) ?_ ht') fun k hk =>
    h.live (by simp) hk
  exact fun heq => hne (Option.some.inj heq).symm

/-- A refusal of a task that has no key. -/
theorem Handles.backed_unkeyed (h : Handles f f' none (some t)) (hb : f.Backed s)
    (hsame : s.SameCredits s') (ht : t ∉ s.credited.keys) (hdeclared : f'.declared = f.declared)
    (hreported : f'.reported = f.reported) : f'.Backed s' := by
  rw [Backed, hsame.books, hdeclared, hreported]
  refine hb.mono (fun t' ht' hcarried => h.carried (by simp) ?_ hcarried) fun k _ hk =>
    h.live (by simp) hk
  intro heq
  rw [Option.some.inj heq] at ht
  exact ht (LocalSession.mem_books_keyed.mp ht')

/-- The message `m` is taken off the socket; a report is handled, or is now with
the database. -/
theorem handles_pop {m : ToCoordinator} {rest : List ToCoordinator}
    {report : Option (String × Token)}
    (hm : f.toCoordinator = m :: rest) (hidle : f.handling = .idle)
    (hworker : f'.toWorker = f.toWorker)
    (hlink : f'.link = f.link) (hhello : f'.hello = f.hello) (hrunner : f'.runner = f.runner)
    (hrest : f'.toCoordinator = rest)
    (hreport : ∀ p, m.settles = some p → f'.handling.settles = some p ∨ report = some p) :
    Handles f f' report m.refuses := by
  refine ⟨hworker, hlink, hhello, hrunner, fun p hp => ?_, fun m' hm' t ht => ?_⟩
  · rcases mem_inTransit.mp hp with hhandling | ⟨m', hm', hsettles⟩
    · rw [hidle] at hhandling
      cases hhandling
    · rw [hm] at hm'
      rcases List.mem_cons.mp hm' with rfl | hstill
      · exact (hreport p hsettles).imp_left fun hnow => mem_inTransit.mpr (.inl hnow)
      · exact .inl (mem_inTransit.mpr (.inr ⟨m', hrest ▸ hstill, hsettles⟩))
  · rw [hm] at hm'
    rcases List.mem_cons.mp hm' with rfl | hstill
    · exact .inr ht
    · exact .inl (hrest ▸ hstill)

/-- What the session is like after a message. -/
structure Handled (f f' : Fleet) (s' : LocalSession) : Prop where
  session : f'.session = some s'
  backed : f'.Backed s'
  unsaturated : s'.saturated = false
  hello : f'.hello = f.hello
  link : f'.link = f.link

theorem releaseCredit_saturated (s : LocalSession) (taskId : String) (freed : Nat) :
    (s.releaseCredit taskId freed).saturated = s.saturated := by
  unfold LocalSession.releaseCredit
  split
  · split
    · rfl
    · split <;> rfl
  · rfl

theorem handleTaskAck_saturated {taskId : Uuid} {accepted : Bool} {reasonCode : String}
    (hroom : (ToCoordinator.taskAck taskId accepted reasonCode).saturates = false) :
    (s.handleTaskAck taskId.str accepted reasonCode).saturated = s.saturated := by
  unfold LocalSession.handleTaskAck
  split
  · cases accepted with
    | true => rfl
    | false =>
        have hreason : reasonCode ≠ refuseAtCapacity := by
          simpa [ToCoordinator.saturates] using hroom
        simp only [Bool.false_eq_true, if_false, hreason]
        exact releaseCredit_saturated ..
  · rfl

theorem taskAck_handled {now : Seconds} {due : Bool} {resultId taskId : Uuid} {accepted : Bool}
    {reasonCode : String} {rest : List ToCoordinator}
    (hm : f.toCoordinator = .taskAck taskId accepted reasonCode :: rest)
    (hidle : f.handling = .idle)
    (hb : f.Backed s) (hsat : s.saturated = false)
    (hg : f.HandleKeeps s (.taskAck taskId accepted reasonCode))
    (hroom : (ToCoordinator.taskAck taskId accepted reasonCode).saturates = false)
    (hread : { f with toCoordinator := rest }.coordRead x s now due resultId
      (.taskAck taskId accepted reasonCode) = some f') :
    Handled f f' (s.handleTaskAck taskId.str accepted reasonCode) := by
  have hf' := Option.some.inj hread
  have hhandles : Handles f f' none (ToCoordinator.taskAck taskId accepted reasonCode).refuses :=
    handles_pop hm hidle (by rw [← hf']) (by rw [← hf']) (by rw [← hf']) (by rw [← hf'])
      (by rw [← hf']) fun p hp => by cases hp
  have hdeclared : f'.declared = f.declared := by rw [← hf']
  have hreported : f'.reported = f.reported := by rw [← hf']
  have hcredits := LocalSession.handleTaskAck_credits (s := s) (Uuid.str_ne_empty taskId) accepted
    reasonCode
  refine ⟨by rw [← hf'], ?_, (handleTaskAck_saturated hroom).trans hsat,
    hhandles.hello, hhandles.link⟩
  -- the credit returns only with a refusal of a task that was delivered
  by_cases hrefuses : s.refuses taskId.str accepted reasonCode = true
  · rw [if_pos hrefuses] at hcredits
    simp only [LocalSession.refuses, Bool.and_eq_true, Bool.not_eq_true', bne_iff_ne] at hrefuses
    obtain ⟨⟨-, rfl⟩, hreason⟩ := hrefuses
    rw [ToCoordinator.refuses, if_neg hreason] at hhandles
    exact hhandles.backed_refused hb hcredits hdeclared hreported
  · rw [if_neg hrefuses] at hcredits
    cases accepted with
    | true => exact hhandles.backed_same hb hcredits hdeclared hreported
    | false =>
        have hreason : reasonCode ≠ refuseAtCapacity := by
          simpa [ToCoordinator.saturates] using hroom
        rw [ToCoordinator.refuses, if_neg hreason] at hhandles
        refine hhandles.backed_unkeyed hb hcredits (fun hkey => hrefuses ?_) hdeclared hreported
        have hpending : taskId.str ∈ s.pendingAcks.keys := by
          refine hg ?_ hkey
          rw [ToCoordinator.refuses, if_neg hreason]
          rfl
        simp [LocalSession.refuses, hpending, hreason]

theorem capacity_handled {now : Seconds} {due : Bool} {resultId taskId : Uuid} {execution : Token}
    {rest : List ToCoordinator} (hm : f.toCoordinator = .capacity taskId execution :: rest)
    (hidle : f.handling = .idle) (hb : f.Backed s)
    (hg : f.HandleKeeps s (.capacity taskId execution))
    (hread : { f with toCoordinator := rest }.coordRead x s now due resultId
      (.capacity taskId execution) = some f') :
    Handled f f' (s.handleCapacity taskId.str 1) := by
  have hf' := Option.some.inj hread
  have hhandles : Handles f f' (some (taskId.str, execution)) none :=
    handles_pop hm hidle (by rw [← hf']) (by rw [← hf']) (by rw [← hf']) (by rw [← hf'])
      (by rw [← hf']) fun p hp => .inr hp
  refine ⟨by rw [← hf'], ?_, rfl, hhandles.hello, hhandles.link⟩
  exact hhandles.backed_gives hb (LocalSession.handleCapacity_credits (Uuid.str_ne_empty taskId)) hg
    (by rw [← hf']) (by rw [← hf'])

/-- A result that validates is still the report it was. -/
theorem coordRead_settles {m : ToCoordinator} {now : Seconds} {due : Bool} {resultId : Uuid}
    (hidle : f.handling = .idle) (hdeferred : immediate m = false)
    (hread : f.coordRead x s now due resultId m = some f') : f'.handling.settles = m.settles := by
  cases m with
  | taskAck => cases hdeferred
  | capacity => cases hdeferred
  | taskStarted taskId =>
      rw [← Option.some.inj hread, hidle]
      rfl
  | taskProgress taskId =>
      rw [← Option.some.inj hread, hidle]
      rfl
  | taskFailed taskId errorType correlationId execution =>
      rw [← Option.some.inj hread]
      rfl
  | taskResult result =>
      obtain ⟨envelope, hvalid, hid, htoken, -⟩ :=
        validate_payload x.floats result x.cfg.taskResultMaxBytes
      obtain ⟨_, hvalid', rfl⟩ := coordRead_result hread
      obtain rfl := Except.ok.inj (hvalid.symm.trans hvalid')
      simp only [Handling.settles, ToCoordinator.settles, hid, htoken]

theorem coordRead_handled {now : Seconds} {due : Bool} {resultId : Uuid} {m : ToCoordinator}
    {rest : List ToCoordinator} (hm : f.toCoordinator = m :: rest) (hidle : f.handling = .idle)
    (hs : f.session = some s) (hb : f.Backed s) (hsat : s.saturated = false)
    (hg : f.HandleKeeps s m)
    (hroom : m.saturates = false)
    (hread : { f with toCoordinator := rest }.coordRead x s now due resultId m = some f') :
    ∃ s', Handled f f' s' := by
  by_cases hdeferred : immediate m = false
  · have hsettles := coordRead_settles (f := { f with toCoordinator := rest }) hidle hdeferred hread
    obtain ⟨db', handling', rfl⟩ := coordRead_deferred hdeferred hread
    have hnotRefusal : m.refuses = none := by cases m <;> first | rfl | cases hdeferred
    have hhandles : Handles f
        { f with toCoordinator := rest, db := db', handling := handling' } none
        m.refuses := by
      refine handles_pop hm hidle rfl rfl rfl rfl rfl fun p hp => .inl ?_
      rw [← hp]
      exact hsettles
    rw [hnotRefusal] at hhandles
    exact ⟨s, hs, hhandles.backed_same hb ⟨rfl, rfl, rfl⟩ rfl rfl, hsat, rfl, rfl⟩
  · cases m with
    | taskAck taskId accepted reasonCode =>
        exact ⟨_, taskAck_handled hm hidle hb hsat hg hroom hread⟩
    | capacity taskId execution => exact ⟨_, capacity_handled hm hidle hb hg hread⟩
    | _ => exact absurd rfl hdeferred

/-- What was handled is off the hands of the read loop. -/
theorem handles_conclude {report : String × Token} (hworker : f'.toWorker = f.toWorker)
    (hcoordinator : f'.toCoordinator = f.toCoordinator) (hlink : f'.link = f.link)
    (hhello : f'.hello = f.hello) (hrunner : f'.runner = f.runner)
    (hsettles : f.handling.settles = some report) : Handles f f' (some report) none := by
  refine ⟨hworker, hlink, hhello, hrunner, fun p hp => ?_, fun m hm t ht =>
    .inl (hcoordinator ▸ hm)⟩
  rcases mem_inTransit.mp hp with hhandling | ⟨m, hm, hstill⟩
  · exact .inr (hsettles.symm.trans hhandling)
  · exact .inl (mem_inTransit.mpr (.inr ⟨m, hcoordinator ▸ hm, hstill⟩))

theorem conclude_handled (hb : f.Backed s) (hsat : s.saturated = false)
    (hg : f.ConcludeKeeps s f.handling) (hconclude : f.conclude s f.handling = some f') :
    ∃ s', Handled f f' s' := by
  cases hhandling : f.handling with
  | failed taskId execution outcome =>
      rw [hhandling] at hg hconclude
      have hf' := Option.some.inj hconclude
      have hhandles : Handles f f' (some (taskId.str, execution)) none :=
        handles_conclude (by rw [← hf']) (by rw [← hf']) (by rw [← hf']) (by rw [← hf'])
          (by rw [← hf']) (by rw [hhandling]; rfl)
      have hdeclared : f'.declared = f.declared := by rw [← hf']
      have hreported : f'.reported = insert execution f.reported := by rw [← hf']
      have hcredits := LocalSession.finishFailed_credits (s := s) (Uuid.str_ne_empty taskId) outcome
      refine ⟨s.finishFailed taskId.str outcome, by rw [← hf'], ?_, rfl,
        hhandles.hello, hhandles.link⟩
      by_cases hfrees : s.failureFrees taskId.str outcome = true
      · rw [if_pos hfrees] at hcredits
        exact hhandles.backed_gives hb hcredits (fun hk => (hg hk).2) hdeclared hreported
      · rw [if_neg hfrees] at hcredits
        refine hhandles.backed_ignored hb hcredits (fun hk => hfrees (hg hk).1)
          (fun hkey => hfrees ?_)
          hdeclared hreported
        -- a key of the session frees it whatever the outcome
        simp [LocalSession.failureFrees, hkey]
  | result envelope outcome =>
      rw [hhandling] at hg hconclude
      have hf' := Option.some.inj hconclude
      have hhandles : Handles f f' (some (envelope.taskId, envelope.idempotencyToken)) none :=
        handles_conclude (by rw [← hf']) (by rw [← hf']) (by rw [← hf']) (by rw [← hf'])
          (by rw [← hf']) (by rw [hhandling]; rfl)
      have hdeclared : f'.declared = f.declared := by rw [← hf']
      have hreported : f'.reported = insert envelope.idempotencyToken f.reported := by rw [← hf']
      have hcredits := LocalSession.finishResult_credits (s := s) envelope.taskId_ne_empty outcome
      refine ⟨s.finishResult envelope.taskId outcome, by rw [← hf'], ?_, ?_, hhandles.hello,
        hhandles.link⟩
      · by_cases hfrees : s.resultFrees envelope.taskId outcome = true
        · rw [if_pos hfrees] at hcredits
          exact hhandles.backed_gives hb hcredits (fun hk => (hg hk).2) hdeclared hreported
        · rw [if_neg hfrees] at hcredits
          refine hhandles.backed_ignored hb hcredits (fun hk => hfrees (hg hk).1)
            (fun hkey => hfrees ?_) hdeclared hreported
          simp [LocalSession.resultFrees, hkey]
      · unfold LocalSession.finishResult
        split
        · rfl
        · exact hsat
  | idle =>
      rw [hhandling] at hconclude
      cases hconclude
  | answering ack answers =>
      rw [hhandling] at hconclude
      cases hconclude

/-! ## The invariant -/

/-- Every credit in use is backed. -/
structure Accounted (f : Fleet) : Prop where
  closed : f.link = .down → f.session = none ∧ f.hello = none
  /-- What a `hello` declares will report. -/
  greeting : ∀ n, f.hello = some n → f.session = none ∧
    ∃ backing ⊆ f.declared \ f.reported, (∀ k ∈ backing, f.Live k) ∧ n ≤ backing.card
  backed : ∀ s, f.session = some s → f.Backed s
  unsaturated : ∀ s, f.session = some s → s.saturated = false
  /-- No refusal for lack of a slot is on its way. -/
  room : ∀ m ∈ f.toCoordinator, m.saturates = false

/-- A step that loses nothing and leaves the credits alone. -/
theorem Accounted.of_carries (h : f.Accounted) (hc : f.link ≠ .down → Carries f f')
    (hlink : f'.link = .down → f.link = .down) (hhello : f'.hello = f.hello)
    (hsession : ∀ s', f'.session = some s' →
      ∃ s, f.session = some s ∧ s.SameCredits s' ∧ s'.saturated = s.saturated)
    (hroom : ∀ m ∈ f'.toCoordinator, m ∈ f.toCoordinator ∨ m.saturates = false) : f'.Accounted := by
  have hnone : f.session = none → f'.session = none := by
    intro hnone
    rw [Option.eq_none_iff_forall_ne_some]
    intro s' hs'
    obtain ⟨s, hs, -⟩ := hsession s' hs'
    rw [hnone] at hs
    cases hs
  refine ⟨fun hdown => ?_, fun n hn => ?_, fun s' hs' => ?_, fun s' hs' => ?_, fun m hm => ?_⟩
  · obtain ⟨hs, hh⟩ := h.closed (hlink hdown)
    exact ⟨hnone hs, hhello.trans hh⟩
  · rw [hhello] at hn
    obtain ⟨hs, backing, hsub, hlive, hle⟩ := h.greeting n hn
    -- a `hello` that is out means the link is not down
    have hcarries := hc fun hdown => by
      rw [(h.closed hdown).2] at hn
      cases hn
    refine ⟨hnone hs, backing, hcarries.awaited ▸ hsub, fun k hk => ?_, hle⟩
    exact hcarries.live k (hsub hk) (hlive k hk)
  · obtain ⟨s, hs, hsame, -⟩ := hsession s' hs'
    have hcarries := hc fun hdown => by
      rw [(h.closed hdown).1] at hs
      cases hs
    rw [Backed, hsame.books, hcarries.awaited]
    exact (h.backed s hs).mono (fun t _ ht => hcarries.carried t ht) hcarries.live
  · obtain ⟨s, hs, -, hsat⟩ := hsession s' hs'
    rw [hsat]
    exact h.unsaturated s hs
  · rcases hroom m hm with hold | hnew
    · exact h.room m hold
    · exact hnew

/-- A step that changes the credits of an open session. -/
theorem Accounted.of_session (h : f.Accounted) {s s' : LocalSession} (hs : f.session = some s)
    (hhandled : Handled f f' s') (hroom : ∀ m ∈ f'.toCoordinator, m ∈ f.toCoordinator) :
    f'.Accounted := by
  have hgreeted : ∀ n, f.hello ≠ some n := by
    intro n hn
    rw [(h.greeting n hn).1] at hs
    cases hs
  refine ⟨fun hdown => ?_, fun n hn => ?_, fun s'' hs'' => ?_, fun s'' hs'' => ?_, fun m hm => ?_⟩
  · rw [hhandled.link] at hdown
    rw [(h.closed hdown).1] at hs
    cases hs
  · exact absurd (hhandled.hello ▸ hn) (hgreeted n)
  · obtain rfl := Option.some.inj (hhandled.session.symm.trans hs'')
    exact hhandled.backed
  · obtain rfl := Option.some.inj (hhandled.session.symm.trans hs'')
    exact hhandled.unsaturated
  · exact h.room m (hroom m hm)

/-- What a `hello` declares runs, or its result is kept. -/
theorem connect_accounted (hc : f.Coherent) (hg : f.KeepsCredits x .connect) :
    f.connect.Accounted := by
  have hawaited : f.connect.declared \ f.connect.reported =
      (f.runner.running.rows.map RunningTask.idempotencyToken).toFinset := Finset.sdiff_empty
  have htokens : (f.runner.running.rows.map RunningTask.idempotencyToken).Nodup :=
    List.Nodup.map_on (fun r hr r' hr' => hc.distinct r hr r' hr') (f.runner.running.nodup.of_map _)
  refine ⟨fun hdown => (by cases hdown), fun n hn => ⟨rfl, _, hawaited.ge, fun k hk => ?_, ?_⟩,
    fun s hs => (by cases hs), fun s hs => (by cases hs), fun m hm => (by cases hm)⟩
  · obtain ⟨r, hr, rfl⟩ := List.mem_map.mp (List.mem_toFinset.mp hk)
    cases hended : r.ended with
    | false => exact .inl ⟨r, hr, rfl, hended⟩
    | true =>
        obtain ⟨e, he, htoken⟩ := hg r hr hended
        exact .inr (.inr ⟨e, he, htoken⟩)
  · obtain rfl := Option.some.inj hn
    rw [List.toFinset_card_of_nodup htokens, List.length_map]
    exact le_rfl

/-- The counted credits of a new session stand for what was declared. -/
theorem register_accounted (h : f.Accounted) {n sessionEpoch : Nat} (hhello : f.hello = some n) :
    ({ f with hello := none, session := some (opened x sessionEpoch n) } : Fleet).Accounted := by
  obtain ⟨-, backing, hsub, hlive, hle⟩ := h.greeting n hhello
  have hcounted : (opened x sessionEpoch n).residualInFlight ≤ backing.card := by
    simp only [opened, LocalSession.open, parseTasksInFlight, Option.getD_some]
    omega
  refine ⟨fun hdown => ?_, fun n hn => (by cases hn), fun s hs => ?_, fun s hs => ?_, h.room⟩
  · rw [(h.closed hdown).2] at hhello
    cases hhello
  · obtain rfl := Option.some.inj hs
    exact ⟨fun t ht => absurd ht (Finset.notMem_empty t), backing, hsub, hlive, hcounted⟩
  · obtain rfl := Option.some.inj hs
    rfl

/-- A delivery is registered while something of its task is on its way. -/
theorem registerDelivery_handled {task : ClaimedTask} {rest : List ClaimedTask} (hb : f.Backed s)
    (hsat : s.saturated = false) (ht : f.Carried task.id.str) :
    Handled f { f with
      session := some (s.deliver task.id.str task.correlationId)
      assigning := rest
      sent := false
      registered := f.registered + 1 } (s.deliver task.id.str task.correlationId) := by
  refine ⟨rfl, ?_, hsat, rfl, rfl⟩
  rw [Backed, LocalSession.books_deliver]
  exact Books.Backed.grant hb ht

/-- A report is no refusal for lack of a slot. -/
theorem report_room {m₀ : ToCoordinator} (hm₀ : m₀.saturates = false) :
    ∀ m ∈ (f.report m₀).toCoordinator, m ∈ f.toCoordinator ∨ m.saturates = false := by
  intro m hm
  rcases List.mem_append.mp hm with hold | hnew
  · exact .inl hold
  · split at hnew
    · rw [List.mem_singleton.mp hnew]
      exact .inr hm₀
    · cases hnew

theorem workerRead_room {token : Token} {m : ToWorker} (hg : f.ReadKeeps x m) :
    ∀ m' ∈ (f.workerRead x token m).toCoordinator, m' ∈ f.toCoordinator ∨ m'.saturates = false := by
  cases m with
  | taskAssign delivery task =>
      simp only [workerRead, assign]
      split
      · refine report_room ?_
        show (refuseUnsupportedType == refuseAtCapacity) = false
        decide
      · exact report_room rfl
      · next hslot => exact absurd hslot hg.1
      · intro m' hm'
        rcases report_room (f := f.report (.taskAck task.id true "")) rfl m' hm' with hold | hnew
        · exact report_room rfl m' hold
        · exact .inr hnew
  | _ => exact fun m' hm' => .inl hm'

theorem finish_room {task : RunningTask} {ending : Ending}
    (hfinish : f.finish x task ending = some f') :
    ∀ m ∈ f'.toCoordinator, m ∈ f.toCoordinator ∨ m.saturates = false := by
  cases ending with
  | returned result duration =>
      obtain ⟨envelope, -, rfl⟩ := Option.map_eq_some_iff.mp hfinish
      exact report_room rfl
  | raised errorType =>
      obtain rfl := Option.some.inj hfinish
      exact report_room rfl
  | cancelled =>
      simp only [finish] at hfinish
      split at hfinish
      · obtain rfl := Option.some.inj hfinish
        exact report_room rfl
      · cases hfinish

/-- Reading does not close the socket. -/
theorem workerRead_link {token : Token} {m : ToWorker}
    (hdown : (f.workerRead x token m).link = .down) :
    f.link = .down := by
  cases m with
  | helloAck => cases hdown
  | taskAssign delivery task =>
      simp only [workerRead, assign] at hdown
      split at hdown <;> exact hdown
  | _ => exact hdown

theorem release_carries {task : RunningTask} (htask : task ∈ f.runner.running)
    (hended : task.ended = true) :
    Carries f { f with runner := f.runner.releaseTask task.taskId } := by
  refine Extends.carries ⟨fun _ hm _ => hm, fun _ hm => hm, rfl, id, fun r hr hgoesOn => ?_,
    fun _ he => he, rfl⟩
  refine ⟨r, Table.mem_deleteWhere.mpr ⟨hr, ?_⟩, ⟨rfl, rfl⟩, hgoesOn⟩
  refine decide_eq_false fun hid => ?_
  rw [Table.eq_of_key hr htask hid, hended] at hgoesOn
  cases hgoesOn

/-- **One step** that meets the condition keeps every credit backed. -/
theorem Accounted.step (h : f.Accounted) (hc : f.Coherent) (hs : Step x f l f')
    (hg : f.KeepsCredits x l) : f'.Accounted := by
  have hsame : ∀ s, f.session = some s → ∃ s₀, f.session = some s₀ ∧ s₀.SameCredits s ∧
      s.saturated = s₀.saturated := fun s hs => ⟨s, hs, ⟨rfl, rfl, rfl⟩, rfl⟩
  have hkept : ∀ m ∈ f.toCoordinator, m ∈ f.toCoordinator ∨ m.saturates = false :=
    fun m hm => .inl hm
  cases hs with
  | environment =>
      exact h.of_carries (fun _ => ⟨fun _ ht => ht, fun _ _ hk => hk, rfl⟩) id rfl hsame hkept
  -- the books start anew with the socket
  | connect => exact connect_accounted hc hg
  | welcome =>
      exact h.of_carries (fun _ => carries_push rfl rfl rfl rfl rfl rfl) id rfl hsame hkept
  | register hhello => exact register_accounted h hhello
  | recover hs =>
      refine h.of_carries (fun _ => ⟨fun _ ht => ht, fun _ _ hk => hk, rfl⟩) id rfl
        (fun s' hs' => ?_) hkept
      obtain rfl := Option.some.inj hs'
      exact ⟨_, hs, ⟨rfl, rfl, rfl⟩, rfl⟩
  | disconnect =>
      exact ⟨fun _ => ⟨rfl, rfl⟩, fun n hn => (by cases hn), fun s hs => (by cases hs),
        fun s hs => (by cases hs), fun m hm => (by cases hm)⟩
  | claim =>
      exact h.of_carries (fun _ => ⟨fun _ ht => ht, fun _ _ hk => hk, rfl⟩) id rfl hsame hkept
  | send =>
      exact h.of_carries (fun _ => carries_push rfl rfl rfl rfl rfl rfl) id rfl hsame hkept
  | registerDelivery hs hassigning =>
      -- the frame is still on its way, so the new credit has something to wait for
      refine h.of_session hs (registerDelivery_handled (h.backed _ hs) (h.unsaturated _ hs) ?_)
        fun m hm => hm
      exact hg _ (by rw [hassigning]; rfl)
  | pushCancel =>
      exact h.of_carries (fun _ => carries_push rfl rfl rfl rfl rfl rfl) id rfl hsame hkept
  | @workerRead token m rest hfresh hm hread =>
      have hkeeps : f.ReadKeeps x m := hg m (by rw [hm]; rfl)
      let g : Fleet := { f with toWorker := rest }
      have hcarries : Carries f (g.workerRead x token m) := workerRead_carries hm hread hkeeps
      have hroom : ∀ m' ∈ (g.workerRead x token m).toCoordinator,
          m' ∈ f.toCoordinator ∨ m'.saturates = false := workerRead_room hkeeps
      have hlink : (g.workerRead x token m).link = .down → f.link = .down := workerRead_link
      obtain ⟨link', runner', toCoordinator', minted', started', heq⟩ :=
        workerRead_frame x g token m
      rw [heq] at hcarries hroom hlink ⊢
      exact h.of_carries (fun _ => hcarries) hlink rfl hsame hroom
  | progress =>
      exact h.of_carries (fun _ => (extends_report _).carries) id rfl hsame (report_room rfl)
  | @finish taskId ending task f' htask hended hfinish =>
      obtain ⟨hin, rfl⟩ := Table.get?_eq_some_iff.mp htask
      have hroom := finish_room hfinish
      have hcarries := fun hopen => finish_carries hin hopen hg hfinish
      obtain ⟨runner', m, rfl, -⟩ := finish_frame hfinish
      exact h.of_carries hcarries id rfl hsame hroom
  | @release taskId task htask hended =>
      obtain ⟨hin, -⟩ := Table.get?_eq_some_iff.mp htask
      exact h.of_carries (fun _ => release_carries hin hended) id rfl hsame hkept
  | resubmit =>
      exact h.of_carries (fun _ => (extends_report _).carries) id rfl hsame (report_room rfl)
  | @coordRead now due resultId s m rest f' hfresh hs hidle hm hread =>
      obtain ⟨s', hhandled⟩ := coordRead_handled hm hidle hs (h.backed s hs) (h.unsaturated s hs)
        (hg s hs m (by rw [hm]; rfl)) (h.room m (hm ▸ .head _)) hread
      refine h.of_session hs hhandled ?_
      obtain ⟨db', session', handling', reported', rfl⟩ := coordRead_frame hread
      exact fun m' hm' => hm ▸ .tail _ hm'
  | @conclude s f' hs hconclude =>
      obtain ⟨s', hhandled⟩ := conclude_handled (h.backed s hs) (h.unsaturated s hs)
        (hg s hs) hconclude
      refine h.of_session hs hhandled ?_
      obtain ⟨session', handling', reported', rfl⟩ := conclude_frame hconclude
      exact fun m' hm' => hm'
  | answer hanswer =>
      exact h.of_carries (fun _ => carries_push rfl rfl (by rw [hanswer]; rfl) rfl rfl rfl) id
        rfl hsame hkept

/-! ## Runs -/

theorem Reachable.accounted (h : ((fleet x).guarded (KeepsCredits x)).Reachable f) :
    f.Accounted := by
  refine h.invariant (P := Accounted) ?_ ?_
  · rintro _ ⟨db, -, rfl⟩
    exact ⟨fun _ => ⟨rfl, rfl⟩, fun n hn => (by cases hn), fun s hs => (by cases hs),
      fun s hs => (by cases hs), fun m hm => (by cases hm)⟩
  · rintro f l f' ⟨ls, hrun⟩ hf ⟨hstep, hg⟩
    exact hf.step (Reachable.coherent hrun.of_guarded.reachable) (step_cases hstep) hg

end Fleet

namespace Demo

/-- The socket is lost under an execution and opened again; the execution
returns, and its result is stored and answered. -/
def resultAfterReconnect : List Label :=
  .environment 0 (.enqueue task request) :: greeted 1 ++ delivered 1 ++
    [.workerRead token, .disconnect, .connect, .welcome 2, .register, .workerRead otherToken,
      .finish task returned, .release task, .coordRead 2 false resultId, .conclude, .answer,
      .workerRead otherToken]

/-- The same, but the execution raises while `hello` is out: the report of the
failure is dropped. -/
def failureDuringHello : List Label :=
  .environment 0 (.enqueue task request) :: greeted 1 ++ delivered 1 ++
    [.workerRead token, .disconnect, .connect, .finish task (.raised "ValueError"), .release task,
      .welcome 2, .register, .workerRead otherToken]

end Demo

end TaskFleet.Model
