import Mathlib.Logic.Function.Basic
import Mathlib.Order.Lattice

/-!
# Keys with a time to live

A store of keys that are set with an expiry and are gone once it has passed: what a key holds
at a moment is the value it was last set to, unless its time is over or it was deleted.
-/

namespace TaskFleet

/-- For each key that was set and not deleted, its value and when it is over. -/
abbrev ExpiringKeys (κ τ ν : Type) := κ → Option (ν × τ)

namespace ExpiringKeys

variable {κ τ ν : Type} [DecidableEq κ] {s : ExpiringKeys κ τ ν} {k k' : κ} {v : ν}
  {expiresAt : τ}

/-- `SET key value EX …` -/
def put (s : ExpiringKeys κ τ ν) (k : κ) (v : ν) (expiresAt : τ) : ExpiringKeys κ τ ν :=
  Function.update s k (some (v, expiresAt))

/-- `DEL key` -/
def drop (s : ExpiringKeys κ τ ν) (k : κ) : ExpiringKeys κ τ ν := Function.update s k none

@[simp] theorem put_self (s : ExpiringKeys κ τ ν) (k : κ) (v : ν) (expiresAt : τ) :
    s.put k v expiresAt k = some (v, expiresAt) := Function.update_self ..

theorem put_of_ne (h : k' ≠ k) : s.put k v expiresAt k' = s k' := Function.update_of_ne h _ _

@[simp] theorem drop_self (s : ExpiringKeys κ τ ν) (k : κ) : s.drop k k = none :=
  Function.update_self ..

theorem drop_of_ne (h : k' ≠ k) : s.drop k k' = s k' := Function.update_of_ne h _ _

end ExpiringKeys

namespace ExpiringKeys

variable {κ τ ν : Type} [LinearOrder τ] {s : ExpiringKeys κ τ ν} {k : κ} {v : ν} {now : τ}

/-- `GET key` at `now`. -/
def live (s : ExpiringKeys κ τ ν) (now : τ) (k : κ) : Option ν :=
  (s k).bind fun entry => if now < entry.2 then some entry.1 else none

theorem live_eq_some_iff : s.live now k = some v ↔
    ∃ expiresAt, s k = some (v, expiresAt) ∧ now < expiresAt := by
  simp only [live, Option.bind_eq_some_iff, Prod.exists]
  constructor
  · rintro ⟨v', e, hk, hlive⟩
    by_cases hnow : now < e
    · rw [if_pos hnow] at hlive
      exact ⟨e, Option.some.inj hlive ▸ hk, hnow⟩
    · rw [if_neg hnow] at hlive
      cases hlive
  · rintro ⟨e, hk, hnow⟩
    exact ⟨v, e, hk, if_pos hnow⟩

theorem live_eq_none_iff : s.live now k = none ↔
    ∀ v expiresAt, s k = some (v, expiresAt) → expiresAt ≤ now := by
  rw [← Option.not_isSome_iff_eq_none, Option.isSome_iff_exists]
  simp only [live_eq_some_iff, not_exists, not_and, not_lt]

end ExpiringKeys

end TaskFleet
