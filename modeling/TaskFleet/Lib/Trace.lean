import Mathlib.Data.List.Basic

/-!
# Labelled transition systems and their traces

A `System` has initial states and a labelled step relation. `Trace S s es t`
says that the events `es`, in order, lead from `s` to `t`; a `Run` is a trace
from an initial state. Because the events are kept, an invariant may relate
the state reached to the whole history that led to it.
-/

namespace TaskFleet

/-- A transition system over states `σ` whose steps are labelled with `ε`. -/
structure System (σ ε : Type) where
  init : σ → Prop
  step : σ → ε → σ → Prop

namespace System

variable {σ ε : Type} {S : System σ ε}

/-- The events `es`, oldest first, lead from `s` to the last index. -/
inductive Trace (S : System σ ε) (s : σ) : List ε → σ → Prop
  | nil : Trace S s [] s
  | snoc {es : List ε} {t u : σ} {e : ε} :
      Trace S s es t → S.step t e u → Trace S s (es ++ [e]) u

/-- A trace that starts in an initial state. -/
def Run (S : System σ ε) (es : List ε) (t : σ) : Prop :=
  ∃ s, S.init s ∧ S.Trace s es t

/-- Some run reaches the state. -/
def Reachable (S : System σ ε) (t : σ) : Prop := ∃ es, S.Run es t

theorem Trace.append {s t u : σ} {es fs : List ε} (h : S.Trace s es t)
    (h' : S.Trace t fs u) : S.Trace s (es ++ fs) u := by
  induction h' with
  | nil => simpa using h
  | snoc _ hstep ih => rw [← List.append_assoc]; exact .snoc ih hstep

theorem Trace.single {s t : σ} {e : ε} (h : S.step s e t) : S.Trace s [e] t := by
  simpa using Trace.snoc Trace.nil h

theorem Trace.cons {s t u : σ} {e : ε} {es : List ε} (h : S.step s e t)
    (h' : S.Trace t es u) : S.Trace s (e :: es) u := by
  simpa using (Trace.single h).append h'

/-- A trace over a concatenation passes through the state in between. -/
theorem Trace.split {s u : σ} {fs : List ε} (h : S.Trace s fs u) :
    ∀ as bs, fs = as ++ bs → ∃ t, S.Trace s as t ∧ S.Trace t bs u := by
  induction h with
  | nil =>
      intro as bs hsplit
      obtain ⟨rfl, rfl⟩ := List.append_eq_nil_iff.mp hsplit.symm
      exact ⟨s, .nil, .nil⟩
  | @snoc es t u e htrace hstep ih =>
      intro as bs hsplit
      rcases List.eq_nil_or_concat bs with rfl | ⟨bs', b, rfl⟩
      · rw [List.append_nil] at hsplit
        exact ⟨u, hsplit ▸ htrace.snoc hstep, .nil⟩
      · rw [List.concat_eq_append, ← List.append_assoc] at hsplit
        obtain ⟨hes, he⟩ := List.append_inj' hsplit rfl
        obtain rfl : e = b := by simpa using he
        obtain ⟨v, hleft, hright⟩ := ih as bs' hes
        refine ⟨v, hleft, ?_⟩
        rw [List.concat_eq_append]
        exact hright.snoc hstep

/-- The empty trace goes nowhere. -/
theorem Trace.eq_of_nil {s t : σ} (h : S.Trace s [] t) : t = s := by
  generalize hes : ([] : List ε) = es at h
  cases h with
  | nil => rfl
  | snoc _ _ => simp at hes

/-- The last step of a trace. -/
theorem Trace.last {s u : σ} {es : List ε} {e : ε} (h : S.Trace s (es ++ [e]) u) :
    ∃ t, S.Trace s es t ∧ S.step t e u := by
  generalize hfs : es ++ [e] = fs at h
  cases h with
  | nil => simp at hfs
  | snoc htrace hstep =>
      obtain ⟨rfl, he⟩ := List.append_inj' hfs rfl
      obtain rfl := by simpa using he
      exact ⟨_, htrace, hstep⟩

/-- The step a trace takes at a marked event, with what led to it and what
followed. -/
theorem Trace.at_event {s u : σ} {as bs : List ε} {e : ε}
    (h : S.Trace s (as ++ e :: bs) u) :
    ∃ t t', S.Trace s as t ∧ S.step t e t' ∧ S.Trace t' bs u := by
  obtain ⟨t', hleft, hright⟩ := h.split (as ++ [e]) bs (by simp)
  obtain ⟨t, htrace, hstep⟩ := hleft.last
  exact ⟨t, t', htrace, hstep, hright⟩

theorem Run.nil {s : σ} (h : S.init s) : S.Run [] s := ⟨s, h, .nil⟩

theorem Run.extend {s t : σ} {es fs : List ε} (h : S.Run es s) (h' : S.Trace s fs t) :
    S.Run (es ++ fs) t := by
  obtain ⟨s₀, hinit, htrace⟩ := h
  exact ⟨s₀, hinit, htrace.append h'⟩

theorem Run.snoc {s t : σ} {es : List ε} {e : ε} (h : S.Run es s) (h' : S.step s e t) :
    S.Run (es ++ [e]) t :=
  h.extend (.single h')

theorem Run.reachable {t : σ} {es : List ε} (h : S.Run es t) : S.Reachable t := ⟨es, h⟩

theorem Reachable.step {s t : σ} {e : ε} (h : S.Reachable s) (h' : S.step s e t) :
    S.Reachable t := by
  obtain ⟨es, hrun⟩ := h
  exact (hrun.snoc h').reachable

/-- Every event of a run is a step from a reachable state. -/
theorem Run.step_of_mem {t : σ} {es : List ε} {e : ε} (h : S.Run es t) (he : e ∈ es) :
    ∃ s s', S.Reachable s ∧ S.step s e s' := by
  obtain ⟨s₀, hinit, htrace⟩ := h
  obtain ⟨as, bs, rfl⟩ := List.append_of_mem he
  obtain ⟨s, s', hleft, hstep, -⟩ := htrace.at_event
  exact ⟨s, s', ⟨as, s₀, hinit, hleft⟩, hstep⟩

/-- **Invariant rule.** A relation between history and state that holds at
the start and is kept by every step holds of every run. -/
theorem Run.invariant {I : List ε → σ → Prop}
    (hinit : ∀ s, S.init s → I [] s)
    (hstep : ∀ es s e t, S.Run es s → I es s → S.step s e t → I (es ++ [e]) t)
    {es : List ε} {t : σ} (h : S.Run es t) : I es t := by
  obtain ⟨s₀, hs₀, htrace⟩ := h
  induction htrace with
  | nil => exact hinit s₀ hs₀
  | snoc htr h' ih => exact hstep _ _ _ _ ⟨s₀, hs₀, htr⟩ ih h'

/-- The invariant rule for a property of the state alone. -/
theorem Reachable.invariant {P : σ → Prop} (hinit : ∀ s, S.init s → P s)
    (hstep : ∀ s e t, S.Reachable s → P s → S.step s e t → P t)
    {t : σ} (h : S.Reachable t) : P t := by
  obtain ⟨es, hrun⟩ := h
  exact hrun.invariant (I := fun _ s => P s) hinit
    (fun _ s e t hr hp hs => hstep s e t hr.reachable hp hs)

/-- **Order rule.** What is late of a key and what is held of it are both numbered. If a
step makes late only what is above all that is held, and makes held only what is below
all that is late, then what is held is never above what is late. -/
theorem Reachable.ordered {κ : Type} (late held : σ → κ → ℕ → Prop)
    (hinit : ∀ s, S.init s → ∀ k i, ¬ late s k i)
    (hlate : ∀ s e t, S.Reachable s → S.step s e t → ∀ k i, late t k i →
      late s k i ∨ ∀ j, held t k j → j ≤ i)
    (hheld : ∀ s e t, S.Reachable s → S.step s e t → ∀ k j, held t k j →
      held s k j ∨ ∀ i, late t k i → j ≤ i)
    {t : σ} (h : S.Reachable t) : ∀ k i j, late t k i → held t k j → j ≤ i := by
  refine h.invariant (P := fun s => ∀ k i j, late s k i → held s k j → j ≤ i) ?_ ?_
  · intro s hs k i j hi
    exact absurd hi (hinit s hs k i)
  · intro s e t hs ih hstep k i j hi hj
    rcases hlate s e t hs hstep k i hi with hi' | habove
    · rcases hheld s e t hs hstep k j hj with hj' | hbelow
      · exact ih k i j hi' hj'
      · exact hbelow i hi
    · exact habove j hj

/-- The system restricted to the steps that meet `G` in the state they are
taken from. -/
def guarded (S : System σ ε) (G : σ → ε → Prop) : System σ ε where
  init := S.init
  step s e t := S.step s e t ∧ G s e

theorem Trace.of_guarded {G : σ → ε → Prop} {s t : σ} {es : List ε}
    (h : (S.guarded G).Trace s es t) : S.Trace s es t := by
  induction h with
  | nil => exact .nil
  | snoc _ h' ih => exact ih.snoc h'.1

/-- A trace all of whose events meet a condition is one of the guarded system. -/
theorem Trace.guarded_of_forall {G : ε → Prop} {s t : σ} {es : List ε} (h : S.Trace s es t)
    (hall : ∀ e ∈ es, G e) : (S.guarded fun _ e => G e).Trace s es t := by
  induction h with
  | nil => exact .nil
  | @snoc es u v e _ hstep ih =>
      have hlast : G e := hall e (List.mem_append_right es List.mem_cons_self)
      exact (ih fun f hf => hall f (List.mem_append_left [e] hf)).snoc ⟨hstep, hlast⟩

theorem Run.of_guarded {G : σ → ε → Prop} {t : σ} {es : List ε}
    (h : (S.guarded G).Run es t) : S.Run es t := by
  obtain ⟨s, hs, htrace⟩ := h
  exact ⟨s, hs, htrace.of_guarded⟩

/-- An event leads to one state. -/
def Deterministic (S : System σ ε) : Prop :=
  ∀ s e t t', S.step s e t → S.step s e t' → t = t'

theorem Reachable.of_guarded {G : σ → ε → Prop} {t : σ} (h : (S.guarded G).Reachable t) :
    S.Reachable t := by
  obtain ⟨es, hrun⟩ := h
  exact hrun.of_guarded.reachable

/-- In a deterministic system the events determine the state reached. -/
theorem Trace.unique (hdet : S.Deterministic) {s t : σ} {es : List ε} (h : S.Trace s es t) :
    ∀ t', S.Trace s es t' → t = t' := by
  induction h with
  | nil => intro t' h'; exact h'.eq_of_nil.symm
  | snoc _ hstep ih =>
      intro t' h'
      obtain ⟨u, htrace, hstep'⟩ := h'.last
      exact hdet _ _ _ _ hstep (ih u htrace ▸ hstep')

/-- **Guard rule, with history.** Let `P` hold at the start of a trace, and let
each step from a reachable state with `P` keep it exactly when it meets `G`.
Then a trace passes only through states with `P` exactly when every step of it
meets `G`. -/
theorem Trace.guarded_iff_history {G : σ → ε → Prop} {P : List ε → σ → Prop}
    (hdet : S.Deterministic) (hinit : ∀ s, S.init s → P [] s)
    (hiff : ∀ es s e t, S.Run es s → S.step s e t → P es s → (P (es ++ [e]) t ↔ G s e))
    {s t : σ} {es : List ε} (hs : S.init s) (h : S.Trace s es t) :
    (S.guarded G).Trace s es t ↔ ∀ as bs u, es = as ++ bs → S.Trace s as u → P as u := by
  constructor
  · intro hg as bs u hsplit hu
    have hkeep : ∀ {fs : List ε} {v : σ}, (S.guarded G).Trace s fs v → P fs v := by
      intro fs v hv
      induction hv with
      | nil => exact hinit s hs
      | snoc htr h' ih => exact (hiff _ _ _ _ ⟨s, hs, htr.of_guarded⟩ h'.1 ih).mpr h'.2
    obtain ⟨v, hv, -⟩ := hg.split as bs hsplit
    rw [hu.unique hdet v hv.of_guarded]
    exact hkeep hv
  · intro hall
    induction h with
    | nil => exact .nil
    | @snoc es t u e htr h' ih =>
        refine .snoc (ih fun as bs v hsplit hv => ?_) ⟨h', ?_⟩
        · exact hall as (bs ++ [e]) v (by rw [hsplit, List.append_assoc]) hv
        · have ht : P es t := hall es [e] t rfl htr
          have hu : P (es ++ [e]) u := hall (es ++ [e]) [] u (List.append_nil _).symm (htr.snoc h')
          exact (hiff _ _ _ _ ⟨s, hs, htr⟩ h' ht).mp hu

/-- **Guard rule** for a property of the state alone. -/
theorem Trace.guarded_iff {G : σ → ε → Prop} {P : σ → Prop} (hdet : S.Deterministic)
    (hinit : ∀ s, S.init s → P s)
    (hiff : ∀ s e t, S.Reachable s → S.step s e t → P s → (P t ↔ G s e))
    {s t : σ} {es : List ε} (hs : S.init s) (h : S.Trace s es t) :
    (S.guarded G).Trace s es t ↔ ∀ as bs u, es = as ++ bs → S.Trace s as u → P u :=
  h.guarded_iff_history (P := fun _ s => P s) hdet hinit
    (fun _ s e t hrun => hiff s e t hrun.reachable) hs

/-- **Step rule.** When, from reachable states, a step does what `Q` says
exactly if it meets `G`, then every step of a trace meets `G` exactly if every
step of it does what `Q` says. -/
theorem Trace.guarded_iff_steps {G : σ → ε → Prop} {Q : σ → ε → σ → Prop} (hdet : S.Deterministic)
    (hiff : ∀ s e t, S.Reachable s → S.step s e t → (Q s e t ↔ G s e))
    {s t : σ} {es : List ε} (hs : S.Reachable s) (h : S.Trace s es t) :
    (S.guarded G).Trace s es t ↔
      ∀ as e bs u u', es = as ++ e :: bs → S.Trace s as u → S.step u e u' → Q u e u' := by
  have hreach : ∀ {fs u}, S.Trace s fs u → S.Reachable u := by
    intro fs u hu
    obtain ⟨past, hpast⟩ := hs
    exact (hpast.extend hu).reachable
  constructor
  · intro hg as e bs u u' hsplit hu hstep
    subst hsplit
    obtain ⟨v, v', hleft, hv, -⟩ := hg.at_event
    obtain rfl := hu.unique hdet v hleft.of_guarded
    exact (hiff _ _ _ (hreach hu) hstep).mpr hv.2
  · intro hall
    induction h with
    | nil => exact .nil
    | @snoc es u v e htr hstep ih =>
        refine .snoc (ih fun as f bs w w' hsplit hw hw' => ?_) ⟨hstep, ?_⟩
        · exact hall as f (bs ++ [e]) w w' (by rw [hsplit]; simp) hw hw'
        · exact (hiff _ _ _ (hreach htr) hstep).mp (hall es e [] u v rfl htr hstep)

section Simulation

variable {σ' ε' : Type} {S' : System σ' ε'} (abs : σ → σ') (label : ε → ε')

/-- When every step from a reachable state is, seen through `abs` and
`label`, a step of the abstract system, so is every trace. -/
theorem Trace.simulate
    (hstep : ∀ s e t, S.Reachable s → S.step s e t → S'.step (abs s) (label e) (abs t))
    {s t : σ} {es : List ε} (hs : S.Reachable s) (h : S.Trace s es t) :
    S'.Trace (abs s) (es.map label) (abs t) := by
  obtain ⟨past, hpast⟩ := hs
  induction h with
  | nil => exact .nil
  | snoc htrace h' ih =>
      rw [List.map_append, List.map_singleton]
      exact ih.snoc (hstep _ _ _ (hpast.extend htrace).reachable h')

/-- **Simulation rule.** A run is then a run of the abstract system. -/
theorem Run.simulate (hinit : ∀ s, S.init s → S'.init (abs s))
    (hstep : ∀ s e t, S.Reachable s → S.step s e t → S'.step (abs s) (label e) (abs t))
    {es : List ε} {t : σ} (h : S.Run es t) : S'.Run (es.map label) (abs t) := by
  obtain ⟨s, hs, htrace⟩ := h
  exact ⟨abs s, hinit s hs, htrace.simulate abs label hstep (Run.nil hs).reachable⟩

end Simulation

section Observation

variable {α : Type}

/-- What `see` shows of the events `es`, oldest first, played from `s` with the
executable step `next`. -/
def observed (next : σ → ε → Option σ) (see : σ → ε → Option α) : σ → List ε → List α
  | _, [] => []
  | s, e :: es =>
      match next s e with
      | some t => (see s e).toList ++ observed next see t es
      | none => []

variable {next : σ → ε → Option σ} {see : σ → ε → Option α}

/-- Along a trace the observations follow the states passed through. -/
theorem Trace.observed_append (hnext : ∀ {s e t}, S.step s e t → next s e = some t) {s t : σ}
    {es : List ε} (h : S.Trace s es t) :
    ∀ fs, observed next see s (es ++ fs) = observed next see s es ++ observed next see t fs := by
  induction h with
  | nil => exact fun _ => rfl
  | @snoc es t u e _ hstep ih =>
      intro fs
      have hone : ∀ fs, observed next see t (e :: fs) =
          (see t e).toList ++ observed next see u fs := by
        intro fs
        rw [observed, hnext hstep]
      rw [List.append_assoc, ih, ih, List.singleton_append, hone, hone, List.append_assoc]
      simp only [observed, List.append_nil]

/-- The last step adds what it shows. -/
theorem Trace.observed_snoc (hnext : ∀ {s e t}, S.step s e t → next s e = some t) {s t u : σ}
    {es : List ε} {e : ε} (h : S.Trace s es t) (hstep : S.step t e u) :
    observed next see s (es ++ [e]) = observed next see s es ++ (see t e).toList := by
  rw [h.observed_append hnext, observed, hnext hstep]
  simp only [observed, List.append_nil]

/-- **Observation rule.** A relation between what was seen and the state, which
holds at the start and is kept when a step adds what it shows, holds along every
run. -/
theorem Trace.observed_invariant (hnext : ∀ {s e t}, S.step s e t → next s e = some t)
    {I : List α → σ → Prop} (hinit : ∀ s, S.init s → I [] s)
    (hstep : ∀ log s e t, S.Reachable s → I log s → S.step s e t → I (log ++ (see s e).toList) t)
    {s t : σ} {es : List ε} (hs : S.init s) (h : S.Trace s es t) :
    I (observed next see s es) t := by
  induction h with
  | nil => exact hinit s hs
  | @snoc es u v e htrace h' ih =>
      have hlast : observed next see u [e] = (see u e).toList := by
        simp only [observed, hnext h', List.append_nil]
      rw [htrace.observed_append hnext, hlast]
      exact hstep _ u e v ⟨es, s, hs, htrace⟩ ih h'

end Observation

/-- Events played with an executable step make a trace. -/
theorem Trace.of_foldlM {next : σ → ε → Option σ}
    (hnext : ∀ s e t, next s e = some t → S.step s e t)
    {es : List ε} : ∀ {s t : σ}, es.foldlM next s = some t → S.Trace s es t := by
  induction es with
  | nil => intro s t h; cases h; exact .nil
  | cons e es ih =>
      intro s t h
      rw [List.foldlM_cons] at h
      obtain ⟨u, hu, hrest⟩ := Option.bind_eq_some_iff.mp h
      exact .cons (hnext s e u hu) (ih hrest)

/-- The same for the steps that meet a guard. -/
theorem Trace.guarded_of_foldlM {next : σ → ε → Option σ}
    {G : σ → ε → Prop} [∀ s e, Decidable (G s e)]
    (hnext : ∀ s e t, next s e = some t → S.step s e t) {s t : σ} {es : List ε}
    (h : es.foldlM (fun s e => if G s e then next s e else none) s = some t) :
    (S.guarded G).Trace s es t := by
  refine Trace.of_foldlM (fun s e t hs => ?_) h
  split at hs
  · next hG => exact ⟨hnext s e t hs, hG⟩
  · cases hs

/-- **Latch rule.** If a ring sets a flag and only an answer clears it, then in a
run that ends with the flag clear every ring was answered later. -/
theorem Run.answered {F : σ → Prop} {R : ε → Prop} {A : σ → ε → σ → Prop}
    (hring : ∀ s e t, S.Reachable s → S.step s e t → R e → F t)
    (hclear : ∀ s e t, S.step s e t → F s → F t ∨ A s e t) {t : σ} {es : List ε}
    (h : S.Run es t) (ht : ¬ F t) :
    ∀ as e bs, es = as ++ e :: bs → R e →
      ∃ cs f ds u v, bs = cs ++ f :: ds ∧ S.Run (as ++ e :: cs) u ∧ S.step u f v ∧ A u f v := by
  obtain ⟨s, hs, h⟩ := h
  induction h with
  | nil =>
      intro as e bs hsplit
      simp at hsplit
  | @snoc es t u f htrace hstep ih =>
      intro as e bs hsplit he
      rcases List.eq_nil_or_concat bs with rfl | ⟨bs', b, rfl⟩
      · obtain ⟨-, hf⟩ := List.append_inj' hsplit rfl
        obtain rfl : f = e := by simpa using hf
        exact absurd (hring _ _ _ ⟨es, s, hs, htrace⟩ hstep he) ht
      · rw [List.concat_eq_append, ← List.cons_append, ← List.append_assoc] at hsplit
        obtain ⟨rfl, hf⟩ := List.append_inj' hsplit rfl
        obtain rfl : f = b := by simpa using hf
        by_cases hflag : F t
        · rcases hclear _ _ _ hstep hflag with hu | hanswer
          · exact absurd hu ht
          · exact ⟨bs', f, [], t, u, by simp, ⟨s, hs, htrace⟩, hstep, hanswer⟩
        · obtain ⟨cs, g, ds, v, w, rfl, hrest⟩ := ih hflag as e bs' rfl he
          exact ⟨cs, g, ds ++ [f], v, w, by simp, hrest⟩

/-- **Since rule.** A phase is entered only by a mark. If the mark makes `J` true of the
empty history, and every other event that stays in the phase keeps it, then `J` relates
the events since the last mark to the state. -/
theorem Run.since {mark : ε → Prop} {phase : σ → Prop} {J : List ε → σ → Prop}
    (hinit : ∀ s, S.init s → ¬ phase s)
    (hmark : ∀ s e t, S.step s e t → mark e → phase t → J [] t)
    (hkeep : ∀ bs s e t, S.step s e t → ¬ mark e → phase t → phase s ∧ (J bs s → J (bs ++ [e]) t))
    {es : List ε} {t : σ} (h : S.Run es t) :
    phase t → ∃ as e bs, es = as ++ e :: bs ∧ mark e ∧ (∀ f ∈ bs, ¬ mark f) ∧ J bs t := by
  refine h.invariant (I := fun es t => phase t →
    ∃ as e bs, es = as ++ e :: bs ∧ mark e ∧ (∀ f ∈ bs, ¬ mark f) ∧ J bs t) ?_ ?_
  · intro s hs hphase
    exact absurd hphase (hinit s hs)
  · intro es s e t _ ih hstep hphase
    by_cases he : mark e
    · exact ⟨es, e, [], rfl, he, fun _ hf => (List.not_mem_nil hf).elim,
        hmark s e t hstep he hphase⟩
    · obtain ⟨as, m, bs, rfl, hm, hbs, hJ⟩ := ih (hkeep [] s e t hstep he hphase).1
      refine ⟨as, m, bs ++ [e], by simp, hm, fun f hf => ?_, (hkeep bs s e t hstep he hphase).2 hJ⟩
      rcases List.mem_append.mp hf with hold | hlast
      · exact hbs f hold
      · rw [List.mem_singleton.mp hlast]
        exact he

/-- **Once rule.** If an event of a kind can only happen where `Q` is false,
makes `Q` true, and `Q` is never undone, no run has two such events. -/
theorem Run.at_most_once {kind : ε → Bool} {Q : σ → Prop}
    (hpre : ∀ s e t, S.Reachable s → S.step s e t → kind e = true → ¬ Q s ∧ Q t)
    (hkeep : ∀ s e t, S.Reachable s → S.step s e t → Q s → Q t)
    {es : List ε} {t : σ} (h : S.Run es t) : (es.filter kind).length ≤ 1 := by
  have hmain : (es.filter kind).length ≤ 1 ∧ ((es.filter kind).length = 1 → Q t) := by
    refine h.invariant (I := fun es t =>
      (es.filter kind).length ≤ 1 ∧ ((es.filter kind).length = 1 → Q t)) ?_ ?_
    · intro s _
      simp
    · intro es s e t hrun ⟨hle, hq⟩ hstep
      rw [List.filter_append, List.length_append]
      cases hk : kind e with
      | false =>
          simp only [hk, List.filter_cons_of_neg, Bool.false_eq_true, not_false_eq_true,
            List.filter_nil, List.length_nil, Nat.add_zero]
          exact ⟨hle, fun h1 => hkeep s e t hrun.reachable hstep (hq h1)⟩
      | true =>
          obtain ⟨hnq, hqt⟩ := hpre s e t hrun.reachable hstep hk
          have hzero : (es.filter kind).length = 0 := by
            rcases Nat.le_one_iff_eq_zero_or_eq_one.mp hle with h0 | h1
            · exact h0
            · exact absurd (hq h1) hnq
          simp [hk, hzero, hqt]
  exact hmain.1

/-- **Reserve rule.** If a step that meets `K` draws what it marks from a reserve, a
trace of such steps marks no more than there was. -/
theorem Trace.count_le {K : σ → ε → Prop} {mark : ε → Bool} {reserve : σ → ℕ}
    (hstep : ∀ s e t, S.Reachable s → S.step s e t → K s e →
      ([e].filter mark).length + reserve t ≤ reserve s)
    {s t : σ} {es : List ε} (hs : S.Reachable s) (h : (S.guarded K).Trace s es t) :
    (es.filter mark).length + reserve t ≤ reserve s := by
  induction h with
  | nil => simp
  | @snoc es t u e htrace h' ih =>
      obtain ⟨past, hpast⟩ := hs
      have hlast := hstep t e u (hpast.extend htrace.of_guarded).reachable h'.1 h'.2
      rw [List.filter_append, List.length_append]
      omega

end System

end TaskFleet
