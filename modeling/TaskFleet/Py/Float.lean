import TaskFleet.Py.Json
import TaskFleet.Lib.Rounding
import Mathlib.Algebra.Order.Ring.Pow

/-!
# Float arithmetic

Python's operations on floats. Each rounds the exact result to a double; a
result past the largest double is an infinity, except that `**` raises
`OverflowError`, and one that is rounded to zero keeps its sign.
-/

namespace TaskFleet.Py

theorem binary64_exp_le : (-1074 : ℤ) ≤ 971 := by decide

/-- IEEE double precision. -/
def binary64 : BinaryFormat where
  precision := 53
  minExp := -1074
  maxExp := 971
  precision_pos := Nat.succ_pos 52
  exp_le := binary64_exp_le

/-- The finite doubles. -/
structure IsDouble (x : ℚ) : Prop where
  representable : binary64.Representable x
  finite : |x| ≤ binary64.largest

/-- The two messages of `OverflowError`. -/
inductive OverflowError where
  /-- `int too large to convert to float` -/
  | intTooLarge
  /-- `(34, 'Numerical result out of range')` -/
  | outOfRange
  deriving DecidableEq, Repr

/-- `float(n)` of a number that is not too large. -/
def nearestDouble (n : ℕ) : ℕ := ⌊binary64.round n⌋₊

namespace PyFloat

/-- The float of a rounded number whose sign was `negative`. -/
def ofRounded (negative : Bool) (y : ℚ) : PyFloat := if y = 0 then zero negative else .finite y

/-- The float an operation gives for an exact result. -/
def ofRat (x : ℚ) : PyFloat :=
  if |binary64.round x| ≤ binary64.largest then ofRounded (x < 0) (binary64.round x)
  else .inf (x < 0)

/-- `-x` -/
def neg : PyFloat → PyFloat
  | .finite x => ofRounded true (-x)
  | .negZero => .finite 0
  | .inf negative => .inf (!negative)
  | .nan => .nan

/-- `x + y` -/
def add : PyFloat → PyFloat → PyFloat
  | .finite x, .finite y => ofRat (x + y)
  | .negZero, y => y
  | x, .negZero => x
  | .inf s, .finite _ => .inf s
  | .finite _, .inf t => .inf t
  | .inf s, .inf t => if s = t then .inf s else .nan
  | .nan, _ | _, .nan => .nan

/-- `x - y` -/
def sub (x y : PyFloat) : PyFloat := x.add y.neg

/-- `x * y` -/
def mul : PyFloat → PyFloat → PyFloat
  | .finite x, .finite y =>
      if x * y = 0 then zero (decide (x < 0) ^^ decide (y < 0)) else ofRat (x * y)
  | .negZero, .finite y | .finite y, .negZero => zero (true ^^ decide (y < 0))
  | .negZero, .negZero => .finite 0
  | .inf s, .finite y | .finite y, .inf s => if y = 0 then .nan else .inf (s ^^ decide (y < 0))
  | .inf _, .negZero | .negZero, .inf _ => .nan
  | .inf s, .inf t => .inf (s ^^ t)
  | .nan, _ | _, .nan => .nan

/-- `x < y`, which does not see the sign of a zero. -/
def lt : PyFloat → PyFloat → Bool
  | .finite x, .finite y => x < y
  | .finite x, .negZero => x < 0
  | .negZero, .finite y => 0 < y
  | .negZero, .negZero => false
  | .inf s, .finite _ | .inf s, .negZero => s
  | .finite _, .inf t | .negZero, .inf t => !t
  | .inf s, .inf t => s && !t
  | .nan, _ | _, .nan => false

/-- `x <= y` -/
def le : PyFloat → PyFloat → Bool
  | .finite x, .finite y => x ≤ y
  | .finite x, .negZero => x ≤ 0
  | .negZero, .finite y => 0 ≤ y
  | .negZero, .negZero => true
  | .inf s, .finite _ | .inf s, .negZero => s
  | .finite _, .inf t | .negZero, .inf t => !t
  | .inf s, .inf t => s || !t
  | .nan, _ | _, .nan => false

/-- `x ** n` for a whole number of the language. -/
def pow (x : PyFloat) (n : ℕ) : Except OverflowError PyFloat :=
  if binary64.largest < binary64.round n then .error .intTooLarge
  else
    match x with
    | .finite x =>
        if |binary64.round (x ^ nearestDouble n)| ≤ binary64.largest then
          .ok (.ofRat (x ^ nearestDouble n))
        else .error .outOfRange
    | .negZero =>
        .ok (if nearestDouble n = 0 then .finite 1
          else zero (decide (nearestDouble n % 2 = 1)))
    | .inf negative =>
        .ok (if nearestDouble n = 0 then .finite 1
          else .inf (negative && decide (nearestDouble n % 2 = 1)))
    | .nan => .ok (if nearestDouble n = 0 then .finite 1 else .nan)

/-- `min(x, y)`, which keeps the first of two that do not compare. -/
def min (x y : PyFloat) : PyFloat := if y.lt x then y else x

/-- `max(x, y)` -/
def max (x y : PyFloat) : PyFloat := if x.lt y then y else x

/-- What `random.random()` may return. -/
structure Draw where
  val : ℚ
  nonneg : 0 ≤ val
  lt_one : val < 1

/-- `random.uniform(a, b)` -/
def uniform (a b : PyFloat) (draw : Draw) : PyFloat := a.add ((b.sub a).mul (.finite draw.val))

end PyFloat

section

variable {x y : ℚ} {n : ℕ}

theorem IsDouble.le_largest (h : IsDouble x) : x ≤ binary64.largest :=
    (le_abs_self x).trans h.finite

theorem IsDouble.of_nonneg (h : 0 ≤ x) (hrep : binary64.Representable x)
    (hle : x ≤ binary64.largest) :
    IsDouble x :=
  ⟨hrep, (abs_of_nonneg h).trans_le hle⟩

@[simp] theorem binary64_round_zero : binary64.round 0 = 0 := BinaryFormat.round_zero

/-- A result that a double bounds is a double again. -/
theorem IsDouble.round (hy : IsDouble y) (h : 0 ≤ x) (hxy : x ≤ y) : IsDouble (binary64.round x) :=
  .of_nonneg (BinaryFormat.round_nonneg h) (BinaryFormat.representable_round h)
    ((BinaryFormat.round_le_of_le h hy.representable hxy).trans hy.le_largest)

/-- Only a negative number can be rounded to the negative zero. -/
theorem PyFloat.ofRounded_eq {negative : Bool} (h : y = 0 → negative = false) :
    PyFloat.ofRounded negative y = .finite y := by
  unfold PyFloat.ofRounded
  split
  · next hy => rw [h hy, hy]; rfl
  · rfl

theorem PyFloat.ofRat_of_nonneg (h : 0 ≤ x) (hfinite : |binary64.round x| ≤ binary64.largest) :
    PyFloat.ofRat x = .finite (binary64.round x) := by
  rw [PyFloat.ofRat, if_pos hfinite]
  exact ofRounded_eq fun _ => decide_eq_false (not_lt.mpr h)

theorem PyFloat.ofRat_of_isDouble (h : IsDouble x) : PyFloat.ofRat x = .finite x := by
  have hround : binary64.round x = x := h.representable
  rw [PyFloat.ofRat, hround, if_pos h.finite]
  exact ofRounded_eq fun hx => decide_eq_false (not_lt.mpr hx.ge)

theorem PyFloat.ofRat_of_le (hy : IsDouble y) (h : 0 ≤ x) (hxy : x ≤ y) :
    PyFloat.ofRat x = .finite (binary64.round x) :=
  ofRat_of_nonneg h (hy.round h hxy).finite

/-- A difference: taking a zero away leaves the double as it is. -/
theorem PyFloat.sub_finite (hx : IsDouble x) (y : ℚ) :
    (PyFloat.finite x).sub (.finite y) = .ofRat (x + -y) := by
  rw [PyFloat.sub, PyFloat.neg]
  by_cases hy : -y = 0
  · rw [hy, add_zero, ofRat_of_isDouble hx]
    rfl
  · rw [ofRounded_eq fun hzero => absurd hzero hy, PyFloat.add]

/-- A product of numbers that are not negative. -/
theorem PyFloat.mul_of_nonneg (hx : 0 ≤ x) (hy : 0 ≤ y) :
    (PyFloat.finite x).mul (.finite y) = .ofRat (x * y) := by
  rw [PyFloat.mul]
  split
  · next hzero =>
      rw [hzero, ofRat_of_isDouble ⟨BinaryFormat.round_zero, by decide +kernel⟩,
        decide_eq_false (not_lt.mpr hx), decide_eq_false (not_lt.mpr hy)]
      rfl
  · rfl

theorem PyFloat.min_finite (x y : ℚ) :
    (PyFloat.finite x).min (.finite y) = .finite (if y < x then y else x) := by
  simp only [PyFloat.min, PyFloat.lt, decide_eq_true_eq]
  split <;> rfl

/-- Every whole number of 53 bits is a double. -/
theorem isDouble_natCast (h : n < 2 ^ 53) : IsDouble n := by
  have hrep := BinaryFormat.representable_mul_zpow (f := binary64) (n := n) (e := 0)
    (Int.natCast_nonneg n) (by exact_mod_cast h) (by decide)
  rw [zpow_zero, mul_one, Int.cast_natCast] at hrep
  have hle : (n : ℚ) ≤ (2 ^ 53 - 1) * 2 ^ (0 : ℤ) := by
    rw [zpow_zero, mul_one, le_sub_iff_add_le]
    exact_mod_cast h
  exact .of_nonneg (Nat.cast_nonneg n) hrep (hle.trans (mul_le_mul_of_nonneg_left
    (zpow_le_zpow_right₀ (by norm_num) (by decide)) (by norm_num)))

/-- The number 1 + 2⁻⁵² is the least double past 1. -/
theorem IsDouble.lt_of_one_lt (h : IsDouble x) (hx : 1 < x) : 1 + 1 / 2 ^ 52 ≤ x := by
  have hpos : 0 < x := one_pos.trans hx
  have hlow : 0 ≤ Int.log 2 x :=
    (Int.zpow_le_iff_le_log (b := 2) (by norm_num) hpos).mp (by simpa using hx.le)
  rcases hlow.eq_or_lt with hlog | hlog
  · -- in the binade of 1 the unit is 2⁻⁵²
    have hunit : binary64.unit x = -52 := by
      rw [BinaryFormat.unit, abs_of_pos hpos, ← hlog]
      rfl
    have hround : (nearestEven (x / 2 ^ (-52 : ℤ)) : ℚ) * 2 ^ (-52 : ℤ) = x := by
      rw [← hunit]
      exact h.representable
    rw [zpow_neg, zpow_ofNat] at hround
    generalize nearestEven (x / (2 ^ 52)⁻¹) = m at hround
    have hm : (2 ^ 52 : ℚ) < m := by
      rw [← hround, ← div_eq_mul_inv, one_lt_div (by positivity)] at hx
      exact hx
    have hm' : (2 ^ 52 : ℚ) + 1 ≤ m := by
      have : (2 ^ 52 : ℤ) < m := by exact_mod_cast hm
      exact_mod_cast Int.add_one_le_iff.mpr this
    rw [← hround, ← div_eq_mul_inv, le_div_iff₀ (by positivity)]
    linarith
  · have htwo : (2 : ℚ) ≤ x := by
      have := (Int.zpow_le_iff_le_log (b := 2) (by norm_num) hpos).mpr (Int.add_one_le_iff.mpr hlog)
      simpa using this
    exact le_trans (by norm_num) htwo

/-! ## Powers -/

theorem nearestDouble_mono {m n : ℕ} (h : m ≤ n) : nearestDouble m ≤ nearestDouble n :=
  Nat.floor_mono (BinaryFormat.round_mono (Nat.cast_nonneg m) (by exact_mod_cast h))

theorem nearestDouble_of_lt (h : n < 2 ^ 53) : nearestDouble n = n := by
  have hround : binary64.round n = n := (isDouble_natCast h).representable
  rw [nearestDouble, hround, Nat.floor_natCast]

/-- A power with a large enough exponent doubles as often as one likes. -/
theorem two_pow_le_pow {m j N : ℕ} (hm : 0 < m) (hx : 1 + 1 / m ≤ x) (hN : m * j ≤ N) :
    (2 : ℚ) ^ j ≤ x ^ N := by
  have hm' : (0 : ℚ) < m := by exact_mod_cast hm
  have hinv : (0 : ℚ) < 1 / m := by positivity
  have hone : 1 ≤ x := by linarith
  have htwo : (2 : ℚ) ≤ x ^ m := by
    calc (2 : ℚ) = 1 + m * (1 / m) := by field_simp; norm_num
      _ ≤ (1 + 1 / m) ^ m := one_add_mul_le_pow (by linarith) m
      _ ≤ x ^ m := pow_le_pow_left₀ (by linarith) hx m
  calc (2 : ℚ) ^ j ≤ (x ^ m) ^ j := pow_le_pow_left₀ (by norm_num) htwo j
    _ = x ^ (m * j) := (pow_mul x m j).symm
    _ ≤ x ^ N := pow_le_pow_right₀ hone hN

theorem overflowBound_le_two_pow : binary64.overflowBound ≤ 2 ^ 1024 := by
  have hlt : binary64.overflowBound < 2 ^ ((1024 : ℕ) : ℤ) := BinaryFormat.overflowBound_lt
  rw [zpow_natCast] at hlt
  exact hlt.le

/-- An exponent that is itself too large for a float makes the power too large. -/
theorem overflowBound_le_pow (h : IsDouble x) (hx : 1 < x)
    (hn : binary64.largest < binary64.round n) :
    binary64.overflowBound ≤ x ^ nearestDouble n := by
  refine overflowBound_le_two_pow.trans (two_pow_le_pow (m := 2 ^ 52) (by positivity) ?_ ?_)
  · exact_mod_cast h.lt_of_one_lt hx
  · refine Nat.le_floor (le_trans ?_ hn.le)
    have hlow : ((2 ^ 52 * 1024 : ℕ) : ℚ) ≤ (2 ^ 53 - 1) * 2 ^ (10 : ℤ) := by norm_num
    exact hlow.trans (mul_le_mul_of_nonneg_left (zpow_le_zpow_right₀ (by norm_num) (by decide))
      (by norm_num))

theorem PyFloat.pow_of_lt (h : IsDouble x) (hx : 1 < x)
    (hn : x ^ nearestDouble n < binary64.overflowBound) :
    (PyFloat.finite x).pow n = .ok (.finite (binary64.round (x ^ nearestDouble n))) := by
  have hnonneg : 0 ≤ x ^ nearestDouble n := (pow_pos (one_pos.trans hx) _).le
  have hsmall : ¬ binary64.largest < binary64.round n := fun hlarge =>
    absurd hn (not_lt.mpr (overflowBound_le_pow h hx hlarge))
  have hfinite : |binary64.round (x ^ nearestDouble n)| ≤ binary64.largest := by
    rw [abs_of_nonneg (BinaryFormat.round_nonneg hnonneg)]
    exact (BinaryFormat.round_le_largest_iff hnonneg).mpr hn
  simp only [PyFloat.pow, if_neg hsmall, if_pos hfinite, ofRat_of_nonneg hnonneg hfinite]

theorem PyFloat.pow_of_le (hx : 0 < x) (hn : binary64.overflowBound ≤ x ^ nearestDouble n) :
    ∃ e, (PyFloat.finite x).pow n = .error e := by
  have hnonneg : 0 ≤ x ^ nearestDouble n := (pow_pos hx _).le
  have hinfinite : ¬ |binary64.round (x ^ nearestDouble n)| ≤ binary64.largest := by
    rw [abs_of_nonneg (BinaryFormat.round_nonneg hnonneg),
      BinaryFormat.round_le_largest_iff hnonneg]
    exact not_lt.mpr hn
  by_cases hsmall : binary64.largest < binary64.round n
  · exact ⟨.intTooLarge, by simp only [PyFloat.pow, if_pos hsmall]⟩
  · exact ⟨.outOfRange, by simp only [PyFloat.pow, if_neg hsmall, if_neg hinfinite]⟩

/-! ## Draws -/

/-- `random.uniform(0, b)` stays between its ends. -/
theorem PyFloat.uniform_zero (hy : IsDouble y) (h : 0 ≤ y) (draw : PyFloat.Draw) :
    ∃ d, PyFloat.uniform (.finite 0) (.finite y) draw = .finite d ∧ 0 ≤ d ∧ d ≤ y := by
  have hnonneg : 0 ≤ y * draw.val := mul_nonneg h draw.nonneg
  have hle : y * draw.val ≤ y := mul_le_of_le_one_right h draw.lt_one.le
  refine ⟨binary64.round (y * draw.val), ?_, BinaryFormat.round_nonneg hnonneg,
    BinaryFormat.round_le_of_le hnonneg hy.representable hle⟩
  have hsub : (PyFloat.finite y).sub (.finite 0) = .finite y := by
    rw [PyFloat.sub, PyFloat.neg, neg_zero]
    rfl
  rw [PyFloat.uniform, hsub, mul_of_nonneg h draw.nonneg, ofRat_of_le hy hnonneg hle,
    PyFloat.add, zero_add, ofRat_of_isDouble (hy.round hnonneg hle)]

end

end TaskFleet.Py
