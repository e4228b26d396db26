import TaskFleet.Lib.Trace

/-!
# Erasing events

Some events of a system are to leave no mark on the rest of it. They leave none when a
relation between states survives them on one side only, and a visible event can be taken on
both sides at once (`Unwinding`). Then a trace can be repeated without its hidden events
(`Trace.erase`): whatever the relation preserves is the same in the end.
-/

namespace TaskFleet

namespace System

variable {σ ε : Type}

/-- The relation does not notice hidden events, and follows visible ones. -/
structure Unwinding (S : System σ ε) (visible : ε → Bool) (R : σ → σ → Prop) : Prop where
  /-- A state without hidden events so far starts a run as well as one with them. -/
  start : ∀ s, S.init s → R s s
  hidden : ∀ s t e s', R s t → visible e = false → S.step s e s' → R s' t
  shown : ∀ s t e s', R s t → visible e = true → S.step s e s' → ∃ t', S.step t e t' ∧ R s' t'

variable {S : System σ ε} {visible : ε → Bool} {R : σ → σ → Prop}

/-- A trace repeated without its hidden events, from a related state. -/
theorem Trace.erase (hu : S.Unwinding visible R) {s s' : σ} {es : List ε}
    (h : S.Trace s es s') {t : σ} (hR : R s t) :
    ∃ t', S.Trace t (es.filter visible) t' ∧ R s' t' := by
  induction h with
  | nil => exact ⟨t, .nil, hR⟩
  | @snoc es u v e _ hstep ih =>
      obtain ⟨t', htrace, hR'⟩ := ih
      rw [List.filter_append]
      cases hv : visible e with
      | false =>
          rw [List.filter_cons_of_neg (by simp [hv]), List.filter_nil, List.append_nil]
          exact ⟨t', htrace, hu.hidden u t' e v hR' hv hstep⟩
      | true =>
          obtain ⟨t'', hstep', hR''⟩ := hu.shown u t' e v hR' hv hstep
          rw [List.filter_cons_of_pos hv, List.filter_nil]
          exact ⟨t'', htrace.snoc hstep', hR''⟩

/-- **Erasing rule.** The same of a run. -/
theorem Run.erase (hu : S.Unwinding visible R) {s' : σ} {es : List ε} (h : S.Run es s') :
    ∃ t', S.Run (es.filter visible) t' ∧ R s' t' := by
  obtain ⟨s, hs, htrace⟩ := h
  obtain ⟨t', htrace', hR⟩ := htrace.erase hu (hu.start s hs)
  exact ⟨t', ⟨s, hs, htrace'⟩, hR⟩

end System

end TaskFleet
