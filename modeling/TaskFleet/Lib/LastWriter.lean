import TaskFleet.Lib.Trace
import Mathlib.Data.List.Induction

/-!
# The last writer

A register is what its last writer left. `lastWritten` says it of a list of events, of which
each may write one value; a state whose register is stepped by the writes holds that value
after every trace (`Trace.lastWritten`).
-/

namespace TaskFleet

variable {ε ν : Type}

/-- What the events leave of a register that held `initial`. -/
def lastWritten (write : ε → Option ν) (initial : ν) (es : List ε) : ν :=
  ((es.filterMap write).getLast?).getD initial

variable {write : ε → Option ν} {initial : ν} {es : List ε}

@[simp] theorem lastWritten_nil : lastWritten write initial [] = initial := rfl

theorem lastWritten_snoc (es : List ε) (e : ε) : lastWritten write initial (es ++ [e]) =
    (write e).getD (lastWritten write initial es) := by
  rw [lastWritten, List.filterMap_append, lastWritten]
  cases hwrite : write e with
  | none => simp [hwrite]
  | some v => simp [hwrite]

theorem lastWritten_append_of_silent (as : List ε) {bs : List ε} (h : ∀ e ∈ bs, write e = none) :
    lastWritten write initial (as ++ bs) = lastWritten write initial as := by
  rw [lastWritten, List.filterMap_append, List.filterMap_eq_nil_iff.mpr h, List.append_nil,
    lastWritten]

/-- What is written may be looked at through a function. -/
theorem lastWritten_map {ν' : Type} (f : ν → ν') (es : List ε) :
    lastWritten (fun e => (write e).map f) (f initial) es = f (lastWritten write initial es) := by
  have hwrites : es.filterMap (fun e => (write e).map f) = (es.filterMap write).map f := by
    rw [List.map_filterMap]
  rw [lastWritten, hwrites, List.getLast?_map, lastWritten]
  cases (es.filterMap write).getLast? <;> rfl

/-- **Register rule.** A part of the state that every step leaves as the event writes it holds
what the last writer of a trace left. -/
theorem System.Trace.lastWritten {σ : Type} {S : System σ ε} {read : σ → ν}
    (hstep : ∀ s e t, S.step s e t → read t = (write e).getD (read s)) {s t : σ}
    (h : S.Trace s es t) : read t = lastWritten write (read s) es := by
  induction h with
  | nil => rfl
  | snoc _ h' ih => rw [hstep _ _ _ h', ih, lastWritten_snoc]

end TaskFleet
