import Mathlib.Data.Option.Basic

/-!
# SQL three-valued logic

A nullable column is an `Option`, and a predicate over nullable columns is a
`Tri`: true, false, or `none` for SQL's unknown. A `WHERE` clause keeps a row
exactly when its predicate `holds`, so unknown behaves as false there and
nowhere else.
-/

namespace TaskFleet.Sql

/-- A three-valued truth value; `none` is SQL's unknown. -/
abbrev Tri := Option Bool

namespace Tri

/-- SQL `AND`: false absorbs unknown. -/
def and : Tri → Tri → Tri
  | some false, _ => some false
  | _, some false => some false
  | some true, some true => some true
  | _, _ => none

/-- SQL `OR`: true absorbs unknown. -/
def or : Tri → Tri → Tri
  | some true, _ => some true
  | _, some true => some true
  | some false, some false => some false
  | _, _ => none

/-- What a `WHERE` clause keeps. -/
def holds (p : Tri) : Bool := p == some true

@[simp] theorem holds_some (b : Bool) : holds (some b) = b := by
  cases b <;> rfl

@[simp] theorem holds_none : holds none = false := rfl

@[simp] theorem some_and_some (a b : Bool) : and (some a) (some b) = some (a && b) := by
  cases a <;> cases b <;> rfl

@[simp] theorem some_or_some (a b : Bool) : or (some a) (some b) = some (a || b) := by
  cases a <;> cases b <;> rfl

@[simp] theorem holds_and (p q : Tri) : (p.and q).holds = (p.holds && q.holds) := by
  rcases p with _ | _ | _ <;> rcases q with _ | _ | _ <;> rfl

@[simp] theorem holds_or (p q : Tri) : (p.or q).holds = (p.holds || q.holds) := by
  rcases p with _ | _ | _ <;> rcases q with _ | _ | _ <;> rfl

end Tri

variable {α : Type}

/-- A condition on columns that are never null. -/
def test (b : Bool) : Tri := some b

@[simp] theorem test_holds (b : Bool) : (test b).holds = b := Tri.holds_some b

/-- `x IS NULL`. -/
def isNull (x : Option α) : Tri := test x.isNone

/-- `x IS NOT NULL`. -/
def isNotNull (x : Option α) : Tri := test x.isSome

@[simp] theorem isNull_holds (x : Option α) : (isNull x).holds = x.isNone := test_holds _

@[simp] theorem isNotNull_holds (x : Option α) : (isNotNull x).holds = x.isSome := test_holds _

/-- A comparison of two nullable values: unknown as soon as one is null. -/
def rel (r : α → α → Bool) (x y : Option α) : Tri :=
  x.bind fun a => y.map fun b => r a b

@[simp] theorem rel_some (r : α → α → Bool) (a b : α) :
    rel r (some a) (some b) = some (r a b) := rfl

@[simp] theorem rel_none_left (r : α → α → Bool) (y : Option α) :
    rel r none y = none := rfl

@[simp] theorem rel_none_right (r : α → α → Bool) (x : Option α) :
    rel r x none = none := by
  cases x <;> rfl

/-- A comparison holds only between two present values that satisfy it. -/
theorem rel_holds_iff {r : α → α → Bool} {x y : Option α} :
    (rel r x y).holds = true ↔ ∃ a b, x = some a ∧ y = some b ∧ r a b = true := by
  cases x with
  | none => simp
  | some a =>
      cases y with
      | none => simp
      | some b => simp

/-- `LEAST(x, y)`, which ignores nulls. -/
def least [Min α] : Option α → Option α → Option α
  | none, y => y
  | x, none => x
  | some a, some b => some (min a b)

@[simp] theorem least_some [Min α] (a b : α) :
    least (some a) (some b) = some (min a b) := rfl

@[simp] theorem least_isSome_left [Min α] (a : α) (y : Option α) :
    (least (some a) y).isSome = true := by
  cases y <;> rfl

@[simp] theorem least_isSome_right [Min α] (x : Option α) (b : α) :
    (least x (some b)).isSome = true := by
  cases x <;> rfl

end TaskFleet.Sql
