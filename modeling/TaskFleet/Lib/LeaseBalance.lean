import TaskFleet.Lib.FencedLease

/-!
# The books of a fenced lease

What went into a phase of the resource went out of it again, or is still there. Idle is
entered by a create or a revoke and left by a grant or a withdrawal; held is entered by a
grant and left by whatever ends it. Counted along a run, the two sides balance
(`Run.balance`).
-/

namespace TaskFleet.Lease

variable {ω : Type}

namespace Event

def isCreate : Event ω → Bool
  | create => true
  | _ => false

def isRevoke : Event ω → Bool
  | revoke _ _ => true
  | _ => false

def isExpire : Event ω → Bool
  | expire _ _ => true
  | _ => false

def isAbandon : Event ω → Bool
  | abandon _ => true
  | _ => false

def isWithdraw : Event ω → Bool
  | withdraw => true
  | _ => false

def isSilent : Event ω → Bool
  | silent => true
  | _ => false

end Event

/-- How often a kind of event occurs in a history. -/
def occurrences (kind : Event ω → Bool) (es : List (Event ω)) : ℕ := (es.filter kind).length

theorem occurrences_snoc (kind : Event ω → Bool) (es : List (Event ω)) (e : Event ω) :
    occurrences kind (es ++ [e]) = occurrences kind es + if kind e then 1 else 0 := by
  unfold occurrences
  rw [List.filter_append, List.length_append, List.filter_singleton]
  cases kind e <;> rfl

/-- A grant is an occurrence like any other. -/
theorem grants_length (es : List (Event ω)) :
    (grants es).length = occurrences (fun e => e.granted.isSome) es := by
  induction es with
  | nil => rfl
  | cons e es ih =>
      rw [grants] at ih
      rw [grants, occurrences, List.filterMap_cons, List.filter_cons]
      cases hg : e.granted with
      | none =>
          rw [if_neg (by simp)]
          exact ih
      | some g =>
          rw [if_pos (by simp), List.length_cons, List.length_cons, ih]
          rfl

/-- One while the resource is there and nobody has it. -/
def Resource.idleCount (r : Resource ω) : ℕ :=
  match r.phase with
  | .idle => 1
  | _ => 0

/-- One while somebody has it. -/
def Resource.heldCount (r : Resource ω) : ℕ :=
  match r.phase with
  | .held _ => 1
  | _ => 0

/-- The books of a history that led to the resource. -/
structure Balance (es : List (Event ω)) (r : Resource ω) : Prop where
  idle : r.idleCount + (grants es).length + occurrences Event.isWithdraw es =
    occurrences Event.isCreate es + occurrences Event.isRevoke es
  held : r.heldCount + occurrences Event.isRevoke es + occurrences Event.isExpire es +
    occurrences Event.isAccept es + occurrences Event.isAbandon es = (grants es).length

/-- **One step** keeps the books. -/
theorem Balance.step {es : List (Event ω)} {r r' : Resource ω} {e : Event ω} (h : Balance es r)
    (hstep : Step r e r') : Balance (es ++ [e]) r' := by
  obtain ⟨hidle, hheld⟩ := h
  cases hstep <;>
    (constructor <;>
      simp only [Resource.idleCount, Resource.heldCount, grants_snoc, occurrences_snoc,
        Event.granted, Event.isCreate, Event.isRevoke, Event.isExpire, Event.isAccept,
        Event.isAbandon, Event.isWithdraw, List.length_append, Option.toList_some,
        Option.toList_none, List.length_cons, List.length_nil, Bool.false_eq_true, if_false,
        if_true] at hidle hheld ⊢ <;>
      omega)

/-- **Balance.** The books of every run are in order. -/
theorem Run.balance {es : List (Event ω)} {r : Resource ω} (h : (system ω).Run es r) :
    Balance es r := by
  refine h.invariant (I := Balance) ?_ fun _ _ _ _ _ ih hstep => ih.step hstep
  intro s hs
  have hs' : s = ⟨.absent, 0⟩ := hs
  rw [hs']
  exact ⟨rfl, rfl⟩

end TaskFleet.Lease
