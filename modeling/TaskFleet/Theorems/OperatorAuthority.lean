import TaskFleet.Lib.Unwinding
import TaskFleet.Model.ApiRuns

/-!
# Without the secret, no influence and no insight

Callers that do not know the operator's secret may send anything, at any time and
interleaved with everything else. What they are answered depends on their own request and on
the limiter alone. And but for the limiter, which counts by address, nobody else would
notice: take all their requests out of a run, and what is left is a run with the same
database and the same responses.
-/

namespace TaskFleet.Model

open Py

/-- The event is about a request of the group `H`. -/
def ApiEvent.isOf (H : ℕ → Bool) : ApiEvent → Bool
  | .arrive i _ | .count i | .serve i _ | .read i | .reply i | .drop i => H i
  | _ => false

/-- The requests of the group come from the addresses `strangers`, without the secret, and
the others from elsewhere. -/
def ApiEvent.Sorted (s : ApiSettings) (H : ℕ → Bool) (strangers : String → Prop) :
    ApiEvent → Prop
  | .arrive i request =>
      if H i then request.authorized s = false ∧ strangers request.callerIp
      else ¬ strangers request.callerIp
  | _ => True

/-- What two states have to do with each other at the request `i`: they agree, unless it is
one of the group. -/
def Alike (s : ApiSettings) (H : ℕ → Bool) (strangers : String → Prop) (i : ℕ)
    (x y : Option ApiFlight) : Prop :=
  if H i then ∀ f, x = some f → f.request.authorized s = false ∧ strangers f.request.callerIp
  else x = y ∧ ∀ f, x = some f → ¬ strangers f.request.callerIp

/-- Two states that differ in what the strangers did only. -/
structure SameButFor (s : ApiSettings) (H : ℕ → Bool) (strangers : String → Prop)
    (a b : Api) : Prop where
  db : a.db = b.db
  counts : ∀ ip, ¬ strangers ip →
    a.counts (ratelimitKey .taskapi ip) = b.counts (ratelimitKey .taskapi ip)
  flights : ∀ i, Alike s H strangers i (a.flights i) (b.flights i)

theorem ratelimitKey_inj {scope : RateScope} {ip ip' : String}
    (h : ratelimitKey scope ip = ratelimitKey scope ip') : ip = ip' := by
  have hlist := congrArg String.toList h
  simp only [ratelimitKey, String.toList_append] at hlist
  exact String.ext (List.append_cancel_left hlist)

section

variable {s : ApiSettings} {schemas : Schemas} {H : ℕ → Bool} {strangers : String → Prop}

/-- Without the secret the database is not read, let alone written. -/
theorem answer_of_not_authorized (schemas : Schemas) {req : ApiRequest}
    (h : req.authorized s = false)
    (rateLimited : Bool) : ∃ response, req.rejection s rateLimited = some response ∧
      ∀ (a : Api) (ctx : ApiContext),
        a.answer s schemas req rateLimited ctx = (a.db, .replies response) := by
  obtain ⟨response, hresponse⟩ := rejection_of_not_authorized h rateLimited
  refine ⟨response, hresponse, fun a ctx => ?_⟩
  rw [Api.answer, hresponse]

theorem Alike.stranger {i : ℕ} {x y : Option ApiFlight} {f : ApiFlight}
    (h : Alike s H strangers i x y) (hi : H i = true) (hx : x = some f) :
    f.request.authorized s = false ∧ strangers f.request.callerIp := by
  rw [Alike, if_pos hi] at h
  exact h f hx

theorem Alike.same {i : ℕ} {x y : Option ApiFlight} {f : ApiFlight}
    (h : Alike s H strangers i x y) (hi : H i = false) (hx : x = some f) :
    y = some f ∧ ¬ strangers f.request.callerIp := by
  rw [Alike, if_neg (by simp [hi])] at h
  exact ⟨h.1 ▸ hx, h.2 f hx⟩

/-- A request of the group moves on one side. -/
theorem alike_update_left {x y : ℕ → Option ApiFlight} {i : ℕ} {f : ApiFlight}
    (h : ∀ j, Alike s H strangers j (x j) (y j)) (hi : H i = true)
    (hf : f.request.authorized s = false ∧ strangers f.request.callerIp) :
    ∀ j, Alike s H strangers j (Function.update x i (some f) j) (y j) := by
  intro j
  by_cases hj : j = i
  · subst hj
    rw [Function.update_self, Alike, if_pos hi]
    intro g hg
    rw [← Option.some.inj hg]
    exact hf
  · rw [Function.update_of_ne hj]
    exact h j

/-- Another request moves on both. -/
theorem alike_update_both {x y : ℕ → Option ApiFlight} {i : ℕ} {f : ApiFlight}
    (h : ∀ j, Alike s H strangers j (x j) (y j)) (hi : H i = false)
    (hf : ¬ strangers f.request.callerIp) :
    ∀ j, Alike s H strangers j (Function.update x i (some f) j)
      (Function.update y i (some f) j) := by
  intro j
  by_cases hj : j = i
  · subst hj
    rw [Function.update_self, Function.update_self, Alike, if_neg (by simp [hi])]
    refine ⟨rfl, fun g hg => ?_⟩
    rw [← Option.some.inj hg]
    exact hf
  · rw [Function.update_of_ne hj, Function.update_of_ne hj]
    exact h j

section

variable {a b : Api} {i : ℕ} {f : ApiFlight} {phase : ApiPhase}

/-- A request of the group goes on. -/
theorem SameButFor.goto_left (h : SameButFor s H strangers a b) (hi : H i = true)
    (hf : a.flights i = some f) : SameButFor s H strangers (a.goto i f phase) b where
  db := h.db
  counts := h.counts
  flights := by
    have hstranger := (h.flights i).stranger hi hf
    exact alike_update_left h.flights hi hstranger

/-- Another request goes on. -/
theorem SameButFor.goto_both (h : SameButFor s H strangers a b) (hi : H i = false)
    (hf : a.flights i = some f) :
    SameButFor s H strangers (a.goto i f phase) (b.goto i f phase) where
  db := h.db
  counts := h.counts
  flights := by
    have helsewhere := ((h.flights i).same hi hf).2
    exact alike_update_both h.flights hi helsewhere

/-- The counter of a stranger's address is theirs alone. -/
theorem SameButFor.count_left (h : SameButFor s H strangers a b) {ip : String}
    (hip : strangers ip) (n : ℕ) :
    SameButFor s H strangers
      { a with counts := Function.update a.counts (ratelimitKey .taskapi ip) n } b where
  db := h.db
  counts := by
    intro ip' hip'
    have hkey : ratelimitKey .taskapi ip' ≠ ratelimitKey .taskapi ip := by
      intro heq
      rw [ratelimitKey_inj heq] at hip'
      exact hip' hip
    show Function.update a.counts _ _ _ = _
    rw [Function.update_of_ne hkey]
    exact h.counts ip' hip'
  flights := h.flights

/-- A counter is set on both sides. -/
theorem SameButFor.count_both (h : SameButFor s H strangers a b) (key : String) (n : ℕ) :
    SameButFor s H strangers { a with counts := Function.update a.counts key n }
      { b with counts := Function.update b.counts key n } where
  db := h.db
  counts := by
    intro ip hip
    show Function.update a.counts _ _ _ = Function.update b.counts _ _ _
    by_cases hkey : ratelimitKey .taskapi ip = key
    · rw [hkey, Function.update_self, Function.update_self]
    · rw [Function.update_of_ne hkey, Function.update_of_ne hkey]
      exact h.counts ip hip
  flights := h.flights

/-- A transaction is committed on both sides. -/
theorem SameButFor.commit_both (h : SameButFor s H strangers a b) (db : Db) :
    SameButFor s H strangers { a with db := db } { b with db := db } where
  db := rfl
  counts := h.counts
  flights := h.flights

end

/-- The interface, with everybody at their own addresses. -/
def sortedApi (s : ApiSettings) (schemas : Schemas) (H : ℕ → Bool) (strangers : String → Prop) :
    System Api ApiEvent :=
  (operatorApi s schemas).guarded fun _ e => e.Sorted s H strangers

/-- What an event of the group does stays on its side. -/
theorem SameButFor.hidden {a b a' : Api} {e : ApiEvent} (h : SameButFor s H strangers a b)
    (hof : e.isOf H = true) (hstep : (sortedApi s schemas H strangers).step a e a') :
    SameButFor s H strangers a' b := by
  obtain ⟨⟨-, hnext⟩, hsorted⟩ := hstep
  cases Api.next_move hnext with
  | @arrive i request hnew =>
      have hi : H i = true := hof
      rw [ApiEvent.Sorted, if_pos hi] at hsorted
      exact ⟨h.db, h.counts, alike_update_left h.flights hi hsorted⟩
  | @count i f hf hphase =>
      have hstranger := (h.flights i).stranger hof hf
      exact (h.count_left hstranger.2 _).goto_left hof hf
  | @serve i ctx f rateLimited hf hphase =>
      have hstranger := (h.flights i).stranger hof hf
      obtain ⟨response, -, hanswer⟩ := answer_of_not_authorized schemas hstranger.1 rateLimited
      rw [hanswer]
      exact h.goto_left hof hf
  | read hf hphase => exact h.goto_left hof hf
  | reply hf hphase => exact h.goto_left hof hf
  | drop hf => exact h.goto_left hof hf
  | expire => cases hof
  | internal => cases hof

/-- Another request arrives on both sides. -/
theorem SameButFor.shown_arrive {a b : Api} {i : ℕ} {request : ApiRequest}
    (h : SameButFor s H strangers a b) (hi : H i = false) (hnew : a.flights i = none)
    (hsorted : (ApiEvent.arrive i request).Sorted s H strangers) :
    ∃ b', (sortedApi s schemas H strangers).step b (.arrive i request) b' ∧
      SameButFor s H strangers
        { a with flights := Function.update a.flights i (some ⟨request, Api.entry request⟩) }
        b' := by
  have hfree : b.flights i = none := by
    have halike := h.flights i
    rw [Alike, if_neg (by simp [hi])] at halike
    rw [← halike.1, hnew]
  have helsewhere := hsorted
  rw [ApiEvent.Sorted, if_neg (by simp [hi])] at helsewhere
  refine ⟨{ b with
    flights := Function.update b.flights i (some ⟨request, Api.entry request⟩) },
    ⟨⟨trivial, ?_⟩, hsorted⟩, h.db, h.counts, alike_update_both h.flights hi helsewhere⟩
  simp only [Api.next, hfree]

/-- Its counter stands at the same number on both sides. -/
theorem SameButFor.shown_count {a b : Api} {i : ℕ} {f : ApiFlight}
    (h : SameButFor s H strangers a b) (hi : H i = false) (hf : a.flights i = some f)
    (hphase : f.phase = .counting) :
    ∃ b', (sortedApi s schemas H strangers).step b (.count i) b' ∧
      SameButFor s H strangers
        ({ a with
          counts := Function.update a.counts (ratelimitKey .taskapi f.request.callerIp)
            (a.counts (ratelimitKey .taskapi f.request.callerIp) + 1) }.goto i f
          (.admitted (s.limits.taskApiRateLimitPerMinute <
            a.counts (ratelimitKey .taskapi f.request.callerIp) + 1))) b' := by
  obtain ⟨hfb, hip⟩ := (h.flights i).same hi hf
  have hcount := h.counts f.request.callerIp hip
  refine ⟨_, ⟨⟨trivial, ?_⟩, trivial⟩, (h.count_both _ _).goto_both hi hf⟩
  simp only [Api.next, hfb, hphase, hcount]
  rfl

/-- It is served alike on both sides. -/
theorem SameButFor.shown_serve {a b : Api} {i : ℕ} {ctx : ApiContext} {f : ApiFlight}
    {rateLimited : Bool} (h : SameButFor s H strangers a b) (hi : H i = false)
    (hadm : (ApiEvent.serve i ctx).Admissible a) (hf : a.flights i = some f)
    (hphase : f.phase = .admitted rateLimited) :
    ∃ b', (sortedApi s schemas H strangers).step b (.serve i ctx) b' ∧
      SameButFor s H strangers
        ({ a with db := (a.answer s schemas f.request rateLimited ctx).1 }.goto i f
          (.pending (a.answer s schemas f.request rateLimited ctx).2)) b' := by
  obtain ⟨hfb, -⟩ := (h.flights i).same hi hf
  have hanswer : b.answer s schemas f.request rateLimited ctx =
      a.answer s schemas f.request rateLimited ctx := by
    rw [Api.answer, Api.answer, h.db]
  refine ⟨_, ⟨⟨?_, ?_⟩, trivial⟩, (h.commit_both _).goto_both hi hf⟩
  · intro g hg
    obtain rfl := Option.some.inj (hfb.symm.trans hg)
    rw [← h.db]
    exact hadm f hf
  · simp only [Api.next, hfb, hphase, hanswer]

/-- What any other event does is done on both sides. -/
theorem SameButFor.shown {a b a' : Api} {e : ApiEvent} (h : SameButFor s H strangers a b)
    (hof : e.isOf H = false) (hstep : (sortedApi s schemas H strangers).step a e a') :
    ∃ b', (sortedApi s schemas H strangers).step b e b' ∧ SameButFor s H strangers a' b' := by
  obtain ⟨⟨hadm, hnext⟩, hsorted⟩ := hstep
  cases Api.next_move hnext with
  | arrive hnew => exact h.shown_arrive hof hnew hsorted
  | count hf hphase => exact h.shown_count hof hf hphase
  | serve hf hphase => exact h.shown_serve hof hadm hf hphase
  | @read i f rest hf hphase =>
      obtain ⟨hfb, -⟩ := (h.flights i).same hof hf
      refine ⟨_, ⟨⟨trivial, ?_⟩, trivial⟩, h.goto_both hof hf⟩
      simp only [Api.next, hfb, hphase, h.db]
  | @reply i f response hf hphase =>
      obtain ⟨hfb, -⟩ := (h.flights i).same hof hf
      refine ⟨_, ⟨⟨trivial, ?_⟩, trivial⟩, h.goto_both hof hf⟩
      simp only [Api.next, hfb, hphase]
  | @drop i f hf =>
      obtain ⟨hfb, -⟩ := (h.flights i).same hof hf
      refine ⟨b.goto i f (.dropped f.phase.outcome), ⟨⟨trivial, ?_⟩, trivial⟩, h.goto_both hof hf⟩
      -- the phase that lets it be dropped here lets it be dropped there
      simp only [Api.next, hf] at hnext
      simp only [Api.next, hfb]
      split at hnext
      · rfl
      · rfl
      · rfl
      · cases hnext
  | @expire key => exact ⟨_, ⟨⟨trivial, rfl⟩, trivial⟩, h.count_both key 0⟩
  | @internal now op =>
      refine ⟨{ b with db := (apply s.cfg schemas b.db now op).1 }, ⟨⟨?_, rfl⟩, trivial⟩, ?_⟩
      · have hop : op.Admissible a.db := hadm
        rw [h.db] at hop
        exact hop
      · rw [← h.db]
        exact h.commit_both _

/-- **The strangers' requests can be taken out**: what they do stays on their side. -/
theorem strangers_unwinding (s : ApiSettings) (schemas : Schemas) (H : ℕ → Bool)
    (strangers : String → Prop) :
    (sortedApi s schemas H strangers).Unwinding (fun e => !e.isOf H)
      (SameButFor s H strangers) where
  start a ha := by
    refine ⟨rfl, fun _ _ => rfl, fun i => ?_⟩
    have hnone : a.flights i = none := congrFun ha.2 i
    rw [Alike, hnone]
    split
    · intro f hf
      cases hf
    · refine ⟨rfl, fun f hf => ?_⟩
      cases hf
  hidden _ _ _ _ h hv hstep := h.hidden ((Bool.not_eq_false' _).mp hv) hstep
  shown _ _ _ _ h hv hstep := h.shown ((Bool.not_eq_true' _).mp hv) hstep

/-- What a request of the group can be answered: it names a number out of range, or its
rejection, which is made of the request and of what the limiter said. -/
def Uninformed (s : ApiSettings) (request : ApiRequest) (response : ApiResponse) : Prop :=
  response = ⟨422, .unprocessable⟩ ∨
    ∃ rateLimited, request.rejection s rateLimited = some response

/-- **No insight**: every outcome of the group is of that kind. -/
theorem Run.uninformed {es : List ApiEvent} {a : Api} (h : (operatorApi s schemas).Run es a)
    (hsorted : ∀ e ∈ es, e.Sorted s H strangers) : ∀ i f, H i = true → a.flights i = some f →
      f.request.authorized s = false ∧ ∀ outcome, f.phase.outcome = some outcome →
        ∃ response, outcome = .replies response ∧ Uninformed s f.request response := by
  refine h.invariant (I := fun es a => (∀ e ∈ es, e.Sorted s H strangers) →
    ∀ i f, H i = true → a.flights i = some f → f.request.authorized s = false ∧
      ∀ outcome, f.phase.outcome = some outcome →
        ∃ response, outcome = .replies response ∧ Uninformed s f.request response) ?_ ?_ hsorted
  · rintro a ⟨-, hnone⟩ - i f - hf
    rw [hnone] at hf
    cases hf
  · rintro es a e a' - ih ⟨-, hnext⟩ hall i f hi hf
    have hpast := ih fun e he => hall e (List.mem_append_left _ he)
    have hlast : e.Sorted s H strangers := hall e (List.mem_append_right _ List.mem_cons_self)
    -- only the request the event is about can have changed
    have hmoved : ∀ {j : ℕ} {g : ApiFlight}, Function.update a.flights j (some g) i = some f →
        (j = i ∧ g = f) ∨ a.flights i = some f := by
      intro j g hg
      by_cases hij : i = j
      · subst hij
        rw [Function.update_self, Option.some.injEq] at hg
        exact .inl ⟨rfl, hg⟩
      · rw [Function.update_of_ne hij] at hg
        exact .inr hg
    cases Api.next_move hnext with
    | @arrive j request hnew =>
        rcases hmoved hf with ⟨rfl, rfl⟩ | hold
        · rw [ApiEvent.Sorted, if_pos hi] at hlast
          refine ⟨hlast.1, fun outcome hout => ?_⟩
          have hentry : (Api.entry request).outcome = some outcome := hout
          unfold Api.entry at hentry
          split at hentry
          · split at hentry <;> cases hentry
          · exact ⟨_, (Option.some.inj hentry).symm, .inl rfl⟩
        · exact hpast i f hi hold
    | @count j g hg hphase =>
        rcases hmoved hf with ⟨rfl, rfl⟩ | hold
        · exact ⟨(hpast j g hi hg).1, fun outcome hout => by cases hout⟩
        · exact hpast i f hi hold
    | @serve j ctx g rateLimited hg hphase =>
        rcases hmoved hf with ⟨rfl, rfl⟩ | hold
        · have hauth := (hpast j g hi hg).1
          obtain ⟨response, hreject, hanswer⟩ :=
            answer_of_not_authorized schemas hauth rateLimited
          refine ⟨hauth, fun outcome hout => ⟨response, ?_, .inr ⟨rateLimited, hreject⟩⟩⟩
          rw [hanswer] at hout
          exact (Option.some.inj hout).symm
        · exact hpast i f hi hold
    | @read j g rest hg hphase =>
        rcases hmoved hf with ⟨rfl, rfl⟩ | hold
        · -- one of the group never comes to read on
          obtain ⟨response, hreply, -⟩ := (hpast j g hi hg).2 (.reads rest) (by rw [hphase]; rfl)
          cases hreply
        · exact hpast i f hi hold
    | @reply j g response hg hphase =>
        rcases hmoved hf with ⟨rfl, rfl⟩ | hold
        · refine ⟨(hpast j g hi hg).1, fun outcome hout => (hpast j g hi hg).2 outcome ?_⟩
          rw [hphase]
          exact hout
        · exact hpast i f hi hold
    | @drop j g hg =>
        rcases hmoved hf with ⟨rfl, rfl⟩ | hold
        · exact ⟨(hpast j g hi hg).1, (hpast j g hi hg).2⟩
        · exact hpast i f hi hold
    | expire => exact hpast i f hi hf
    | internal => exact hpast i f hi hf

end

end TaskFleet.Model
