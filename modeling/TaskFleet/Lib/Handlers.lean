import TaskFleet.Lib.Trace
import Mathlib.Logic.Function.Basic

/-!
# Handlers over a shared store

A handler is a program that sends commands to a store one at a time and goes on
with each reply. A pool runs any number of handlers at once: a command is
atomic, and between two commands of one handler the others may do anything.

Two rules carry what a handler does into the runs of a pool. A request gets to
its result by the replies the store gave it on the way, one after another
(`Pool.finishes`); and what holds of every exchange the program can have holds
of every exchange in the run (`Pool.always`).
-/

namespace TaskFleet

/-- The commands of a store, and what each is answered with. -/
structure Commands where
  Cmd : Type
  Reply : Cmd → Type

/-- A program over the commands `K` with a result in `α`. -/
inductive Handler (K : Commands) (α : Type) where
  | done (result : α)
  | send (c : K.Cmd) (next : K.Reply c → Handler K α)

namespace Handler

variable {K : Commands} {α β : Type}

/-- Send one command and return its reply. -/
@[simp] def call (c : K.Cmd) : Handler K (K.Reply c) := .send c .done

/-- Sequencing. -/
def bind : Handler K α → (α → Handler K β) → Handler K β
  | .done a, f => f a
  | .send c next, f => .send c fun r => (next r).bind f

@[simp] theorem bind_done (a : α) (f : α → Handler K β) : (Handler.done a).bind f = f a := rfl

@[simp] theorem bind_send (c : K.Cmd) (next : K.Reply c → Handler K α) (f : α → Handler K β) :
    (Handler.send c next).bind f = .send c fun r => (next r).bind f := rfl

instance : Monad (Handler K) where
  pure := .done
  bind := bind

@[simp] theorem pure_eq_done (a : α) : (pure a : Handler K α) = .done a := rfl

@[simp] theorem bind_eq_bind (h : Handler K α) (f : α → Handler K β) : h >>= f = h.bind f := rfl

@[simp] theorem map_eq_bind (g : α → β) (h : Handler K α) : g <$> h = h.bind fun a =>
    .done (g a) := rfl

/-- The result when a command is always answered in the same way. -/
def eval (answer : (c : K.Cmd) → K.Reply c) : Handler K α → α
  | .done a => a
  | .send c next => (next (answer c)).eval answer

@[simp] theorem eval_done (answer : (c : K.Cmd) → K.Reply c) (a : α) :
    (Handler.done a : Handler K α).eval answer = a := rfl

theorem eval_bind_done (answer : (c : K.Cmd) → K.Reply c) (h : Handler K α) (g : α → β) :
    (h.bind fun a => .done (g a)).eval answer = g (h.eval answer) := by
  induction h with
  | done a => rfl
  | send c next ih => exact ih (answer c)

@[simp] theorem eval_send (answer : (c : K.Cmd) → K.Reply c) (c : K.Cmd)
    (next : K.Reply c → Handler K α) :
    (Handler.send c next).eval answer = (next (answer c)).eval answer := rfl

/-- A program over commands that are among others. -/
def lift {K' : Commands} (f : K.Cmd → K'.Cmd) (g : (c : K.Cmd) → K'.Reply (f c) → K.Reply c) :
    Handler K α → Handler K' α
  | .done a => .done a
  | .send c next => .send (f c) fun r => (next (g c r)).lift f g

/-- Every exchange the program can have meets `P`, which also sees how the
program goes on. -/
def Always (P : (c : K.Cmd) → K.Reply c → Handler K α → Prop) : Handler K α → Prop
  | .done _ => True
  | .send c next => ∀ r, P c r (next r) ∧ (next r).Always P

/-- Every command the program can send meets `C`. -/
def Sends (C : K.Cmd → Prop) : Handler K α → Prop
  | .done _ => True
  | .send c next => C c ∧ ∀ r, (next r).Sends C

theorem Sends.bind {C : K.Cmd → Prop} {h : Handler K α} {f : α → Handler K β} (hh : h.Sends C)
    (hf : ∀ a, (f a).Sends C) : (h.bind f).Sends C := by
  induction h with
  | done a => exact hf a
  | send c next ih => exact ⟨hh.1, fun r => ih r (hh.2 r)⟩

theorem Sends.lift {K' : Commands} {C : K'.Cmd → Prop} {f : K.Cmd → K'.Cmd}
    {g : (c : K.Cmd) → K'.Reply (f c) → K.Reply c} (hf : ∀ c, C (f c)) (h : Handler K α) :
    (h.lift f g).Sends C := by
  induction h with
  | done a => trivial
  | send c next ih => exact ⟨hf c, fun r => ih (g c r)⟩

@[simp] theorem always_done (P : (c : K.Cmd) → K.Reply c → Handler K α → Prop) (a : α) :
    (Handler.done a : Handler K α).Always P := trivial

@[simp] theorem always_send {P : (c : K.Cmd) → K.Reply c → Handler K α → Prop} {c : K.Cmd}
    {next : K.Reply c → Handler K α} :
    (Handler.send c next).Always P ↔ ∀ r, P c r (next r) ∧ (next r).Always P := Iff.rfl

end Handler

/-- A store with states `σ`: which replies a command may get, and the state it
leaves. -/
structure Store (K : Commands) (σ : Type) where
  replies : σ → (c : K.Cmd) → K.Reply c → Prop
  after : σ → (c : K.Cmd) → K.Reply c → σ

/-- A store and the requests made of it so far, by number, each with what is
left of its handler. -/
structure Pool (K : Commands) (σ ρ α : Type) where
  store : σ
  tasks : ℕ → Option (ρ × Handler K α)

/-- What happens in a pool: a request comes in, or a handler is answered. -/
inductive PoolEvent (K : Commands) (ρ : Type) where
  | start (i : ℕ) (request : ρ)
  | reply (i : ℕ) (c : K.Cmd) (r : K.Reply c)

namespace Pool

variable {K : Commands} {σ ρ α : Type} (S : Store K σ) (handler : ρ → Handler K α) (init : σ → Prop)

/-- One event of a pool that handles requests with `handler`. -/
inductive Step : Pool K σ ρ α → PoolEvent K ρ → Pool K σ ρ α → Prop
  | start {p : Pool K σ ρ α} {i : ℕ} {q : ρ} (hnew : p.tasks i = none) :
      Step p (.start i q) { p with tasks := Function.update p.tasks i (some (q, handler q)) }
  | reply {p : Pool K σ ρ α} {i : ℕ} {q : ρ} {c : K.Cmd} {next : K.Reply c → Handler K α}
      {r : K.Reply c} (htask : p.tasks i = some (q, .send c next))
        (hreply : S.replies p.store c r) :
      Step p (.reply i c r)
        ⟨S.after p.store c r, Function.update p.tasks i (some (q, next r))⟩

/-- The runs of a pool. -/
def system : System (Pool K σ ρ α) (PoolEvent K ρ) where
  init p := init p.store ∧ ∀ i, p.tasks i = none
  step := Step S handler

variable {S handler init} {p t u : Pool K σ ρ α} {es : List (PoolEvent K ρ)} {i : ℕ} {q : ρ}

theorem deterministic : (system S handler init).Deterministic := by
  intro p e t t' h h'
  cases h with
  | start => cases h'; rfl
  | reply htask hreply =>
      cases h' with
      | reply htask' _ =>
          cases htask.symm.trans htask'
          rfl

/-- A property of the store that every command keeps holds in every run. -/
theorem store_invariant {I : σ → Prop} (hinit : ∀ s, init s → I s)
    (hstep : ∀ s c r, I s → S.replies s c r → I (S.after s c r))
    (h : (system S handler init).Reachable t) : I t.store := by
  refine h.invariant (P := fun t => I t.store) ?_ ?_
  · rintro s ⟨hs, -⟩
    exact hinit _ hs
  · intro s e t _ hI hs
    cases hs with
    | start => exact hI
    | reply _ hreply => exact hstep _ _ _ hI hreply

/-- **What an event does to a request**, seen from after it: nothing, or it came
in, or it was answered. -/
theorem Step.task {e : PoolEvent K ρ} {h' : Handler K α} (h : Step S handler p e t)
    (ht : t.tasks i = some (q, h')) :
    (p.tasks i = some (q, h') ∧ ∀ c r, e ≠ .reply i c r) ∨
    (e = .start i q ∧ p.tasks i = none ∧ h' = handler q) ∨
      ∃ c next r, e = .reply i c r ∧ p.tasks i = some (q, .send c next) ∧ h' = next r ∧
        S.replies p.store c r := by
  cases h with
  | @start j q' hnew =>
      simp only [Function.update_apply] at ht
      split at ht
      · next hij => cases ht; cases hij; exact .inr (.inl ⟨rfl, hnew, rfl⟩)
      · exact .inl ⟨ht, fun _ _ he => by cases he⟩
  | @reply j q' c next r htask hreply =>
      simp only [Function.update_apply] at ht
      split at ht
      · next hij => cases ht; cases hij; exact .inr (.inr ⟨c, next, r, rfl, htask, rfl, hreply⟩)
      · next hij => exact .inl ⟨ht, fun c' r' he => hij (by cases he; rfl)⟩

/-- Request `i` with `h` left of its handler gets to the result `a` by the
replies it is given, one after another, in the events `es` from `p`. -/
def Finishes (S : Store K σ) (handler : ρ → Handler K α) (init : σ → Prop) (i : ℕ) :
    Handler K α → Pool K σ ρ α → List (PoolEvent K ρ) → α → Prop
  | .done b, _, _, a => b = a
  | .send c next, p, es, a => ∃ r as bs u u', es = as ++ .reply i c r :: bs ∧
      (system S handler init).Trace p as u ∧ Step S handler u (.reply i c r) u' ∧
      S.replies u.store c r ∧ Finishes S handler init i (next r) u' bs a

@[simp] theorem finishes_done {a b : α} :
    Finishes S handler init i (.done b : Handler K α) p es a ↔ b = a := Iff.rfl

@[simp] theorem finishes_send {c : K.Cmd} {next : K.Reply c → Handler K α} {a : α} :
    Finishes S handler init i (.send c next) p es a ↔ ∃ r as bs u u',
      es = as ++ .reply i c r :: bs ∧
      (system S handler init).Trace p as u ∧ Step S handler u (.reply i c r) u' ∧
      S.replies u.store c r ∧ Finishes S handler init i (next r) u' bs a := Iff.rfl

/-- What happens before a handler goes on does not matter to it. -/
theorem Finishes.append {h : Handler K α} {a : α} {fs : List (PoolEvent K ρ)}
    (htrace : (system S handler init).Trace p es t) (hf : Finishes S handler init i h t fs a) :
    Finishes S handler init i h p (es ++ fs) a := by
  cases h with
  | done b => exact hf
  | send c next =>
      obtain ⟨r, as, bs, u, u', rfl, hu, hstep, hreply, hrest⟩ := hf
      exact ⟨r, es ++ as, bs, u, u', by simp, htrace.append hu, hstep, hreply, hrest⟩

/-- A handler that only wraps its result gets to a wrapped one. -/
theorem Finishes.of_bind_done {β : Type} {handler : ρ → Handler K β} {p : Pool K σ ρ β}
    {h : Handler K α}
    {g : α → β} {b : β} (hf : Finishes S handler init i (h.bind fun a => .done (g a)) p es b) :
    ∃ a, b = g a := by
  induction h generalizing p es with
  | done a => exact ⟨a, hf.symm⟩
  | send c next ih =>
      obtain ⟨r, as, bs, u, u', -, -, -, -, hrest⟩ := hf
      exact ih r hrest

/-- **Result rule.** A request that came in and returned along a trace got to its
result by the replies it was given there. -/
theorem finishes (h : (system S handler init).Trace p es t) (hnew : p.tasks i = none) {a : α}
    (hdone : t.tasks i = some (q, .done a)) : Finishes S handler init i (handler q) p es a := by
  have hmain : ∀ h' fs, t.tasks i = some (q, h') → Finishes S handler init i h' t fs a →
      Finishes S handler init i (handler q) p (es ++ fs) a := by
    clear hdone
    induction h with
    | nil =>
        intro h' fs hh'
        rw [hnew] at hh'
        cases hh'
    | @snoc es s u e htrace hs ih =>
        intro h' fs hh' hf
        rw [List.append_assoc, List.singleton_append]
        rcases Step.task hs hh'
          with ⟨hold, -⟩ | ⟨rfl, -, rfl⟩ | ⟨c, next, r, rfl, hsend, rfl, hreply⟩
        · exact ih h' _ hold (hf.append (.single hs))
        · have hboth : (system S handler init).Trace p (es ++ [.start i q]) u := htrace.snoc hs
          simpa using hf.append hboth
        · exact ih _ _ hsend ⟨r, [], fs, s, u, rfl, .nil, hs, hreply, hf⟩
  simpa using hmain _ [] hdone rfl

/-- Request `i`, with `h` left of a part of its handler at `p`, has `h'` left of it at `t`, after
the replies it was given one after another in the events `es`. -/
inductive Course (S : Store K σ) (handler : ρ → Handler K α) (init : σ → Prop) (i : ℕ)
    {β : Type} (t : Pool K σ ρ α) (h' : Handler K β) :
    Handler K β → Pool K σ ρ α → List (PoolEvent K ρ) → Prop
  | rest {p : Pool K σ ρ α} {es : List (PoolEvent K ρ)}
      (htrace : (system S handler init).Trace p es t) (hquiet : ∀ c r, .reply i c r ∉ es) :
      Course S handler init i t h' h' p es
  | reply {c : K.Cmd} {next : K.Reply c → Handler K β} {r : K.Reply c} {p u u' : Pool K σ ρ α}
      {as bs : List (PoolEvent K ρ)} (htrace : (system S handler init).Trace p as u)
      (hstep : Step S handler u (.reply i c r) u') (hreply : S.replies u.store c r)
      (hrest : Course S handler init i t h' (next r) u' bs) :
      Course S handler init i t h' (.send c next) p (as ++ .reply i c r :: bs)

section Course

variable {β γ : Type} {h h' : Handler K β}

theorem Course.trace (hc : Course S handler init i t h' h p es) :
    (system S handler init).Trace p es t := by
  induction hc with
  | rest htrace _ => exact htrace
  | reply htrace hstep _ _ ih => exact htrace.append (.cons hstep ih)

/-- A request that is done has nothing to go through. -/
theorem course_done {b : β} (hc : Course S handler init i t h' (.done b) p es) : h' = .done b := by
  cases hc with
  | rest _ _ => rfl

/-- A request that awaits a reply still does, or was given one. -/
theorem course_send {c : K.Cmd} {next : K.Reply c → Handler K β}
    (hc : Course S handler init i t h' (.send c next) p es) :
    (h' = .send c next ∧ ∀ c r, .reply i c r ∉ es) ∨ ∃ r as bs u u', es = as ++ .reply i c r :: bs ∧
      (system S handler init).Trace p as u ∧ Step S handler u (.reply i c r) u' ∧
      S.replies u.store c r ∧ Course S handler init i t h' (next r) u' bs := by
  cases hc with
  | rest _ hquiet => exact .inl ⟨rfl, hquiet⟩
  | reply htrace hstep hreply hrest =>
      exact .inr ⟨_, _, _, _, _, rfl, htrace, hstep, hreply, hrest⟩

/-- What is left of a sequence is what is left of its first part, or that is over and the second
has gone on. -/
theorem course_bind {f : γ → Handler K β} {h : Handler K γ}
    (hc : Course S handler init i t h' (h.bind f) p es) :
    (∃ h'', h' = h''.bind f ∧ Course S handler init i t h'' h p es) ∨
    ∃ a as bs u, es = as ++ bs ∧ Course S handler init i u (.done a) h p as ∧
      Course S handler init i t h' (f a) u bs := by
  induction h generalizing p es with
  | done a =>
      exact .inr ⟨a, [], es, p, rfl, .rest .nil fun _ _ hmem => List.not_mem_nil hmem, hc⟩
  | send c next ih =>
      cases hc with
      | rest htrace hquiet => exact .inl ⟨.send c next, rfl, .rest htrace hquiet⟩
      | reply htrace hstep hreply hrest =>
          obtain ⟨h'', rfl, hfirst⟩ | ⟨a, as, bs, u, rfl, hfirst, hsecond⟩ := ih _ hrest
          · exact .inl ⟨h'', rfl, .reply htrace hstep hreply hfirst⟩
          · exact .inr ⟨a, _, bs, u, by simp, .reply htrace hstep hreply hfirst, hsecond⟩

/-- A sequence that awaits a reply awaits it in one of its parts. -/
theorem course_bind_send {f : γ → Handler K β} {h : Handler K γ} {c : K.Cmd}
    {next : K.Reply c → Handler K β}
    (hc : Course S handler init i t (.send c next) (h.bind f) p es) :
    (∃ next', Course S handler init i t (.send c next') h p es) ∨
    ∃ a as bs u, es = as ++ bs ∧ (system S handler init).Trace p as u ∧
      Course S handler init i t (.send c next) (f a) u bs := by
  obtain ⟨h'', heq, hfirst⟩ | ⟨a, as, bs, u, hes, hbefore, hsecond⟩ := course_bind hc
  · cases h'' with
    | done a =>
        refine .inr ⟨a, es, [], t, by simp, ?_, ?_⟩
        · exact hfirst.trace
        · rw [heq]
          exact .rest .nil fun _ _ hmem => List.not_mem_nil hmem
    | send c' next' =>
        cases heq
        exact .inl ⟨next', hfirst⟩
  · exact .inr ⟨a, as, bs, u, hes, hbefore.trace, hsecond⟩

/-- A sequence that is over is over in both parts. -/
theorem course_bind_done {f : γ → Handler K β} {h : Handler K γ} {b : β}
    (hc : Course S handler init i t (.done b) (h.bind f) p es) :
    ∃ a as bs u, es = as ++ bs ∧ Course S handler init i u (.done a) h p as ∧
      Course S handler init i t (.done b) (f a) u bs := by
  obtain ⟨h'', heq, hfirst⟩ | hboth := course_bind hc
  · cases h'' with
    | done a =>
        refine ⟨a, es, [], t, by simp, hfirst, ?_⟩
        rw [heq]
        exact .rest .nil fun _ _ hmem => List.not_mem_nil hmem
    | send c next => cases heq
  · exact hboth

/-- Another request's event is not felt. -/
theorem Course.other {e : PoolEvent K ρ} (hc : Course S handler init i u h' h p es)
    (hs : Step S handler u e t) (hother : ∀ c r, e ≠ .reply i c r) :
    Course S handler init i t h' h p (es ++ [e]) := by
  induction hc with
  | rest htrace hquiet =>
      refine .rest (htrace.snoc hs) fun c r hmem => ?_
      rcases List.mem_append.mp hmem with hold | hnew
      · exact hquiet c r hold
      · exact hother c r (List.mem_singleton.mp hnew).symm
  | reply htrace hstep hreply _ ih =>
      rw [List.append_assoc, List.cons_append]
      exact .reply htrace hstep hreply ih

theorem Course.snoc {c : K.Cmd} {next : K.Reply c → Handler K β} {r : K.Reply c}
    (hc : Course S handler init i u (.send c next) h p es)
    (hs : Step S handler u (.reply i c r) t) (hreply : S.replies u.store c r) :
    Course S handler init i t (next r) h p (es ++ [.reply i c r]) := by
  induction hc with
  | rest htrace _ =>
      exact .reply htrace hs hreply (.rest .nil fun _ _ hmem => List.not_mem_nil hmem)
  | reply htrace hstep hreply' _ ih =>
      rw [List.append_assoc, List.cons_append]
      exact .reply htrace hstep hreply' ih

/-- A request that has not come in was not answered. -/
theorem quiet_of_none (h : (system S handler init).Trace p es t) (hnone : t.tasks i = none) :
    ∀ c r, .reply i c r ∉ es := by
  induction h with
  | nil => exact fun _ _ hmem => List.not_mem_nil hmem
  | @snoc es s u e htrace hs ih =>
      have hbefore : s.tasks i = none ∧ ∀ c r, e ≠ .reply i c r := by
        cases hs with
        | @start j q hnew =>
            refine ⟨?_, fun _ _ he => by cases he⟩
            by_cases hij : i = j
            · exact hij ▸ hnew
            · simpa [Function.update_of_ne hij] using hnone
        | @reply j q c next r htask _ =>
            by_cases hij : i = j
            · subst hij
              simp at hnone
            · exact ⟨by simpa [Function.update_of_ne hij] using hnone,
                fun _ _ he => hij (PoolEvent.reply.inj he).1.symm⟩
      intro c r hmem
      rcases List.mem_append.mp hmem with hold | hnew
      · exact ih hbefore.1 c r hold
      · exact hbefore.2 c r (List.mem_singleton.mp hnew).symm

/-- **Course rule.** What is left of a request that came in along a trace is what the replies
it was given there left of its handler. -/
theorem course {h' : Handler K α} (h : (system S handler init).Trace p es t)
    (hnew : p.tasks i = none) (htask : t.tasks i = some (q, h')) :
    Course S handler init i t h' (handler q) p es := by
  induction h generalizing h' with
  | nil =>
      rw [hnew] at htask
      cases htask
  | snoc htrace hs ih =>
      rcases Step.task hs htask
        with ⟨hold, hother⟩ | ⟨rfl, hnone, rfl⟩ | ⟨c, next, r, rfl, hsend, rfl, hreply⟩
      · exact (ih hold).other hs hother
      · refine .rest (htrace.snoc hs) fun c r hmem => ?_
        rcases List.mem_append.mp hmem with hold | hstart
        · exact quiet_of_none htrace hnone c r hold
        · cases List.mem_singleton.mp hstart
      · exact (ih hsend).snoc hs hreply

/-- A request there is came in. -/
theorem started {h' : Handler K α} (h : (system S handler init).Trace p es t)
    (hnew : p.tasks i = none) (htask : t.tasks i = some (q, h')) : .start i q ∈ es := by
  induction h generalizing h' with
  | nil =>
      rw [hnew] at htask
      cases htask
  | snoc htrace hs ih =>
      rcases Step.task hs htask with ⟨hold, -⟩ | ⟨rfl, -, -⟩ | ⟨c, next, r, -, hsend, -, -⟩
      · exact List.mem_append_left _ (ih hold)
      · exact List.mem_append_right _ (List.mem_singleton.mpr rfl)
      · exact List.mem_append_left _ (ih hsend)

/-- A request that is there stays. -/
theorem Step.kept {e : PoolEvent K ρ} {x : Handler K α} (hs : Step S handler p e t)
    (hx : p.tasks i = some (q, x)) : ∃ h', t.tasks i = some (q, h') := by
  cases hs with
  | @start j q' hnew =>
      have hij : i ≠ j := fun hij => by
        rw [hij, hnew] at hx
        cases hx
      exact ⟨x, by simpa [Function.update_of_ne hij] using hx⟩
  | @reply j q' c next r htask _ =>
      by_cases hij : i = j
      · subst hij
        rw [htask] at hx
        cases hx
        exact ⟨next r, by simp⟩
      · exact ⟨x, by simpa [Function.update_of_ne hij] using hx⟩

theorem kept {x : Handler K α} (h : (system S handler init).Trace p es t)
    (hx : p.tasks i = some (q, x)) : ∃ h', t.tasks i = some (q, h') := by
  induction h with
  | nil => exact ⟨x, hx⟩
  | snoc _ hs ih =>
      obtain ⟨y, hy⟩ := ih
      exact hs.kept hy

theorem task_of_start (h : (system S handler init).Trace p es t) (hstart : .start i q ∈ es) :
    ∃ h', t.tasks i = some (q, h') := by
  obtain ⟨as, bs, rfl⟩ := List.append_of_mem hstart
  obtain ⟨u, u', -, hs, hright⟩ := h.at_event
  refine kept hright (x := handler q) ?_
  cases hs
  exact Function.update_self ..

/-- What is left of a program sends nothing the program does not. -/
theorem Course.sends {C : K.Cmd → Prop} (hc : Course S handler init i t h' h p es)
    (hh : h.Sends C) : h'.Sends C := by
  induction hc with
  | rest _ _ => exact hh
  | reply _ _ _ _ ih => exact ih (hh.2 _)

end Course

/-- **Exchange rule.** What holds of every exchange of every handler holds of
what is left of a request. -/
theorem always {P : (c : K.Cmd) → K.Reply c → Handler K α → Prop} (hP : ∀ q, (handler q).Always P)
    (h : (system S handler init).Reachable t) :
    ∀ i q h', t.tasks i = some (q, h') → h'.Always P := by
  refine h.invariant (P := fun t => ∀ i q h', t.tasks i = some (q, h') → h'.Always P) ?_ ?_
  · rintro s ⟨-, hnone⟩ i q h' hh'
    rw [hnone i] at hh'
    cases hh'
  · intro s e t _ hI hs i q h' hh'
    rcases hs.task hh' with ⟨hold, -⟩ | ⟨-, -, rfl⟩ | ⟨c, next, r, rfl, hsend, rfl, -⟩
    · exact hI i q h' hold
    · exact hP q
    · exact (hI i q _ hsend r).2

/-! ## Playing a pool -/

/-- What to do next in a pool: let a request in, or have a handler answered by
what `oracle` makes of the store. -/
inductive Move (K : Commands) (σ ρ : Type) where
  | start (i : ℕ) (request : ρ)
  | answer (i : ℕ) (oracle : σ → (c : K.Cmd) → K.Reply c)

/-- One move after another, with the events they make and the pool they leave. A
handler that is done has nothing to be answered. -/
def play (S : Store K σ) (handler : ρ → Handler K α) :
    Pool K σ ρ α → List (Move K σ ρ) → List (PoolEvent K ρ) × Pool K σ ρ α
  | p, [] => ([], p)
  | p, .start i q :: moves =>
      let rest := play S handler
        { p with tasks := Function.update p.tasks i (some (q, handler q)) } moves
      (.start i q :: rest.1, rest.2)
  | p, .answer i oracle :: moves =>
      match p.tasks i with
      | some (q, .send c next) =>
          let r := oracle p.store c
          let rest := play S handler
            ⟨S.after p.store c r, Function.update p.tasks i (some (q, next r))⟩ moves
          (.reply i c r :: rest.1, rest.2)
      | _ => play S handler p moves

/-- The moves use fresh numbers and replies the store may give. -/
def Playable (S : Store K σ) (handler : ρ → Handler K α) :
    Pool K σ ρ α → List (Move K σ ρ) → Prop
  | _, [] => True
  | p, .start i q :: moves =>
      p.tasks i = none ∧
        Playable S handler { p with tasks := Function.update p.tasks i (some (q, handler q)) } moves
  | p, .answer i oracle :: moves =>
      match p.tasks i with
      | some (q, .send c next) =>
          S.replies p.store c (oracle p.store c) ∧
            Playable S handler ⟨S.after p.store c (oracle p.store c),
              Function.update p.tasks i (some (q, next (oracle p.store c)))⟩ moves
      | _ => Playable S handler p moves

theorem play_trace {moves : List (Move K σ ρ)} :
    ∀ {p : Pool K σ ρ α}, Playable S handler p moves →
      (system S handler init).Trace p (play S handler p moves).1 (play S handler p moves).2 := by
  induction moves with
  | nil => intro p _; exact .nil
  | cons move moves ih =>
      intro p h
      cases move with
      | start i q => exact .cons (.start h.1) (ih h.2)
      | answer i oracle =>
          simp only [Playable, play] at h ⊢
          split at h
          · next q c next htask => exact .cons (.reply htask h.1) (ih h.2)
          · exact ih h

end Pool

end TaskFleet
