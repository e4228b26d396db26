import TaskFleet.Logic.EngineSteps

/-!
# No lost doorbell

`notify_local` sets an event, and the loop clears it in the same turn in which it
starts a pass. So whenever the event is clear, every ring so far came before the
start of a pass (`no_lost_doorbell`).
-/

namespace TaskFleet.Model

open Py

/-- The event calls `notify_local()`. -/
def EngineEvent.rings : EngineEvent → Bool
  | .notify | .register _ _ => true
  | _ => false

/-- The event calls `assign_once()`. -/
inductive BeginsPass (s : Engine) : EngineEvent → Engine → Prop
  | woken : BeginsPass s .wake { s with workAvailable := false }.assignOnce
  | again : BeginsPass s .resumed s.assignOnce

section

variable {cfg : Config} {drainSeconds : Seconds} {s t : Engine} {e : EngineEvent}
  {es : List EngineEvent}

theorem rings_step (h : EngineMove cfg drainSeconds s e t) (he : e.rings = true) :
    t.workAvailable = true := by
  cases h with
  | notify | register => rfl
  | _ => cases he

/-- Only the loop that wakes clears the event, and it starts a pass. -/
theorem workAvailable_step (h : EngineMove cfg drainSeconds s e t) (hs : s.workAvailable = true) :
    t.workAvailable = true ∨ BeginsPass s e t := by
  cases h.effect with
  | wake hpass => exact .inr (hpass ▸ .woken)
  | notify | register => exact .inl rfl
  | _ => exact .inl hs

/-- **No lost doorbell.** In every run of a replica: while the event is clear, and
so whenever the loop is parked with it clear, every `notify_local` call was
followed by the start of a pass. -/
theorem no_lost_doorbell (h : (engine cfg drainSeconds).Run es t)
    (hclear : t.workAvailable = false) :
    ∀ as e bs, es = as ++ e :: bs → e.rings = true →
      ∃ cs f ds u v, bs = cs ++ f :: ds ∧ (engine cfg drainSeconds).Run (as ++ e :: cs) u ∧
        (engine cfg drainSeconds).step u f v ∧ BeginsPass u f v := by
  refine h.answered (F := fun s => s.workAvailable = true) (R := fun e => e.rings = true)
    (A := BeginsPass)
    ?_ ?_ (by simp [hclear])
  · rintro s e t - ⟨-, hs⟩ he
    exact rings_step (engineStep_move hs) he
  · rintro s e t ⟨-, hs⟩ hflag
    exact workAvailable_step (engineStep_move hs) hflag

end

/-- A ring before the first pass. -/
theorem no_lost_doorbell_woken :
    ∃ t cs f ds u v, (engine {} 0).Run [.notify, .wake] t ∧ t.pc = .waiting ∧
      t.workAvailable = false ∧
      [EngineEvent.wake] = cs ++ f :: ds ∧ (engine {} 0).Run (.notify :: cs) u ∧
        BeginsPass u f v := by
  have hrun : (engine {} 0).Run [.notify, .wake] { db := .empty, sessions := fun _ => none } :=
    ⟨_, ⟨.empty, rfl⟩, .cons ⟨trivial, rfl⟩ (.single ⟨trivial, rfl⟩)⟩
  obtain ⟨cs, f, ds, u, v, hsplit, hu, -, hbegins⟩ := no_lost_doorbell hrun rfl [] .notify _ rfl rfl
  exact ⟨_, cs, f, ds, u, v, hrun, rfl, rfl, hsplit, hu, hbegins⟩

end TaskFleet.Model
