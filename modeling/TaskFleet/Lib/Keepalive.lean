import Mathlib.Algebra.Order.Group.Defs
import Mathlib.Algebra.Order.Monoid.Unbundled.MinMax
import Mathlib.Order.Lattice
import Mathlib.Tactic.Abel

/-!
# A lease that is renewed lazily

The holder of a lease is heard from time to time. Being heard renews the lease
only once a timer has run out; a renewal pushes the lease out by `period + gap`,
up to a cap, and sets the timer to one `period` from then. A holder that is
never silent for as long as `gap` keeps its lease until the cap: when the timer
has run out there is still a gap's worth of lease left.

Lease and timer may also be written for other reasons, and under a new cap.
-/

namespace TaskFleet.Keepalive

variable {T : Type} [AddCommGroup T] [LinearOrder T] [IsOrderedAddMonoid T]

/-- The clocks of one lease. -/
structure Timer (T : Type) where
  /-- The present. -/
  clock : T
  /-- When the holder was last heard. -/
  heard : T
  /-- From when on being heard renews the lease. -/
  due : T
  lease : T
  /-- What no renewal passes. -/
  cap : T

/-- One step, at the time `now`. -/
inductive Step (period gap now : T) : Timer T → Timer T → Prop
  /-- The holder is silent, and nothing is written. -/
  | idle (x : Timer T) : Step period gap now x { x with clock := now }
  /-- The holder is heard before a renewal is due. -/
  | early (x : Timer T) (hearly : now < x.due) :
      Step period gap now x { x with clock := now, heard := now }
  /-- The lease is written, and the timer is not. -/
  | write (x : Timer T) (cap : T) :
      Step period gap now x
        { x with clock := now, lease := min (now + (period + gap)) cap, cap := cap }
  /-- Both are written, whether the holder was heard or not. -/
  | mark (x : Timer T) (cap : T) {heard : T} (hheard : heard = x.heard ∨ heard = now) :
      Step period gap now x ⟨now, heard, now + period, min (now + (period + gap)) cap, cap⟩

/-- The lease reaches a gap beyond the point where a renewal is due, or up to
the cap. -/
structure Safe (period gap : T) (x : Timer T) : Prop where
  heard_le : x.heard ≤ x.clock
  heard_lt : x.heard < x.due
  due_le : x.due ≤ x.clock + period
  covered : min (x.due + gap) x.cap ≤ x.lease

variable {period gap now : T} {x x' : Timer T}

/-- A lease written now reaches beyond any timer that was not set in the
future. -/
theorem covered_of_write {due cap : T} (hdue : due ≤ now + period) :
    min (due + gap) cap ≤ min (now + (period + gap)) cap := by
  refine min_le_min_right cap ?_
  calc due + gap ≤ now + period + gap := add_le_add_left hdue gap
    _ = now + (period + gap) := add_assoc now period gap

/-- **One step** keeps the lease safe, as time goes on. -/
theorem Safe.step (h : Safe period gap x) (hperiod : 0 < period) (hnow : x.clock ≤ now)
    (hs : Step period gap now x x') : Safe period gap x' := by
  have hdue : x.due ≤ now + period := h.due_le.trans (add_le_add_left hnow period)
  have hlater : now < now + period := lt_add_of_pos_right now hperiod
  cases hs with
  | idle => exact ⟨h.heard_le.trans hnow, h.heard_lt, hdue, h.covered⟩
  | early hearly => exact ⟨le_rfl, hearly, hdue, h.covered⟩
  | write cap => exact ⟨h.heard_le.trans hnow, h.heard_lt, hdue, covered_of_write hdue⟩
  | mark cap hheard =>
      rcases hheard with rfl | rfl
      · have hle : x.heard ≤ now := h.heard_le.trans hnow
        exact ⟨hle, hle.trans_lt hlater, le_rfl, covered_of_write le_rfl⟩
      · exact ⟨le_rfl, hlater, le_rfl, covered_of_write le_rfl⟩

/-- **A safe lease is alive** until the holder has been silent for a gap, or
the cap is reached. -/
theorem Safe.alive (h : Safe period gap x) {time : T} (hgap : time < x.heard + gap)
    (hcap : time < x.cap) : time < x.lease :=
  (lt_min (hgap.trans (add_lt_add_left h.heard_lt gap)) hcap).trans_le h.covered

end TaskFleet.Keepalive
