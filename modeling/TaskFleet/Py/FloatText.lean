import TaskFleet.Py.Float
import TaskFleet.Lib.Decimal

/-!
# How Python spells a float

`float(n)`, `round(x, 3)` and `float.__repr__` as CPython computes them, with the names
that `json.dumps` has for what is not finite. A `Numeral` is a spelled number: the digits
before the point, those after it, and the exponent. `repr` lays the shortest digits out as
one, and `float(text)` reads one back.
-/

namespace TaskFleet.Py

/-! ## Rounding -/

namespace PyFloat

/-- `float(n)`; `none` is `OverflowError`. -/
def ofInt (n : Int) : Option PyFloat :=
  if |binary64.round n| ≤ binary64.largest then some (.finite (binary64.round n)) else none

/-- `round(x, 3)`: the nearest number of three decimals, as a double. -/
def round3 : PyFloat → PyFloat
  | .finite x => ofRounded (x < 0) (binary64.round (nearestEven (1000 * x) / 1000))
  | x => x

end PyFloat

/-! ## Spelling -/

/-- A number literal without its sign. -/
structure Numeral where
  whole : List Char
  frac : List Char
  exp : Option ℤ
  deriving DecidableEq

/-- An exponent has a sign and two digits at least. -/
def exponentText (e : ℤ) : List Char :=
  (if e < 0 then '-' else '+') ::
    ((if e.natAbs < 10 then ['0'] else []) ++ Nat.toDigits 10 e.natAbs)

namespace Numeral

def fracText (frac : List Char) : List Char := if frac = [] then [] else '.' :: frac

def expText : Option ℤ → List Char
  | none => []
  | some e => 'e' :: exponentText e

def text (n : Numeral) : List Char := n.whole ++ (fracText n.frac ++ expText n.exp)

/-- The number it spells. -/
def value (n : Numeral) : ℚ :=
  decimalValue (n.whole ++ n.frac) (n.whole.length + n.exp.getD 0)

/-- `format_float_short` for `repr`: digits laid out around the place of the point. -/
def ofDigits (ds : List Char) (point : ℤ) : Numeral :=
  if point ≤ -4 ∨ 16 < point then ⟨ds.take 1, ds.drop 1, some (point - 1)⟩
  else if point ≤ 0 then ⟨['0'], List.replicate (-point).toNat '0' ++ ds, none⟩
  else if ds.length ≤ point then ⟨ds ++ List.replicate (point - ds.length).toNat '0', ['0'], none⟩
  else ⟨ds.take point.toNat, ds.drop point.toNat, none⟩

/-- The digits of a positive double are the fewest that are read back as it. -/
def ofPositive (x : ℚ) : Numeral :=
  match binary64.shortest 17 x with
  | some (n, k) =>
      let ds := Nat.toDigits 10 n.toNat
      ofDigits (stripZeros ds) (ds.length + k)
  | none => ⟨['0'], ['0'], none⟩

end Numeral

/-- The text of a float in `json.dumps`. -/
def PyFloat.repr : PyFloat → String
  | .finite x =>
      if x = 0 then "0.0"
      else if x < 0 then String.ofList ('-' :: (Numeral.ofPositive (-x)).text)
      else String.ofList (Numeral.ofPositive x).text
  | .negZero => "-0.0"
  | .inf negative => if negative then "-Infinity" else "Infinity"
  | .nan => "NaN"

/-- CPython's floats. -/
def cpython : FloatOps where
  ofInt := PyFloat.ofInt
  round3 := PyFloat.round3
  repr := PyFloat.repr

/-! ## Rounding twice -/

section

variable {x y : ℚ}

theorem nearest_thousandth_nonneg (h : 0 ≤ x) : (0 : ℚ) ≤ nearestEven (1000 * x) / 1000 :=
  div_nonneg (by exact_mod_cast nearestEven_nonneg (by linarith)) (by norm_num)

theorem round3_of_nonneg (h : 0 ≤ x) :
    (PyFloat.finite x).round3 = .finite (binary64.round (nearestEven (1000 * x) / 1000)) :=
  PyFloat.ofRounded_eq fun _ => decide_eq_false (not_lt.mpr h)

/-- **Three decimals are kept.** Where the unit is small, the same thousandth is nearest
again; where it is not, a thousandth is near enough to be rounded back. -/
theorem round3_idem (h : 0 ≤ x) :
    (PyFloat.finite x).round3.round3 = (PyFloat.finite x).round3 := by
  have hz := nearest_thousandth_nonneg h
  have hcast : (nearestEven (1000 * x) : ℚ) = 1000 * (nearestEven (1000 * x) / 1000) := by ring
  rw [round3_of_nonneg h, round3_of_nonneg (BinaryFormat.round_nonneg hz), PyFloat.finite.injEq]
  generalize (nearestEven (1000 * x) / 1000 : ℚ) = z at hz hcast ⊢
  rcases hz.eq_or_lt with rfl | hpos
  · simp [nearestEven]
  have herror := BinaryFormat.abs_round_sub_le (f := binary64) z
  rcases le_or_gt (binary64.unit z) (-10) with hfine | hcoarse
  · have hsmall : (2 : ℚ) ^ binary64.unit z ≤ 1 / 1024 :=
      (zpow_le_zpow_right₀ (by norm_num) hfine).trans_eq (by norm_num)
    have hsame : nearestEven (1000 * binary64.round z) = nearestEven (1000 * x) := by
      refine nearestEven_of_near ?_
      rw [hcast, ← mul_sub, abs_mul, abs_of_pos (by norm_num : (0 : ℚ) < 1000)]
      linarith
    rw [hsame, hcast, mul_div_cancel_left₀ z (by norm_num)]
  · have hunit : binary64.minExp < binary64.unit z := lt_trans (by decide) hcoarse
    have hleast := BinaryFormat.two_zpow_le_round hpos hunit
    have hrep := BinaryFormat.representable_round (f := binary64) hz
    generalize binary64.round z = y at hleast hrep ⊢
    have hy : 0 < y := (two_zpow_pos _).trans_le hleast
    have hlog : binary64.precision - 1 + binary64.unit z ≤ Int.log 2 y :=
      (Int.zpow_le_iff_le_log (b := 2) (by norm_num) hy).mp (by exact_mod_cast hleast)
    have hprecision : (binary64.precision : ℤ) = 53 := rfl
    have huy : -9 ≤ binary64.unit y := by
      have hmin := BinaryFormat.minExp_le_unit (f := binary64) z
      rw [BinaryFormat.unit_of_log hy rfl]
      omega
    have hlarge : 1 / 512 ≤ (2 : ℚ) ^ binary64.unit y :=
      le_of_eq_of_le (by norm_num) (zpow_le_zpow_right₀ (by norm_num) huy)
    have hnear := abs_nearestEven_sub_le (1000 * y)
    have hscale : |(nearestEven (1000 * y) / 1000 : ℚ) - y| ≤ 1 / 2000 := by
      have hdiv : (nearestEven (1000 * y) / 1000 : ℚ) - y =
          (nearestEven (1000 * y) - 1000 * y) / 1000 := by ring
      rw [hdiv, abs_div, abs_of_pos (by norm_num : (0 : ℚ) < 1000)]
      linarith
    refine BinaryFormat.round_of_near hy hrep (hscale.trans_lt (by linarith)) fun hbottom => ?_
    -- the least number of a binade so far up is whole
    have hexp : 0 ≤ binary64.precision - 1 + binary64.unit y := by omega
    obtain ⟨n, hn⟩ := Int.eq_ofNat_of_zero_le hexp
    have hwhole : y = ((2 ^ n : ℤ) : ℚ) := by
      conv_lhs => rw [hbottom, hn]
      push_cast
      exact zpow_natCast 2 n
    have hexact : (nearestEven (1000 * y) / 1000 : ℚ) = y := by
      have hint : 1000 * y = ((1000 * 2 ^ n : ℤ) : ℚ) := by
        rw [hwhole]
        push_cast
        rfl
      rw [hint, nearestEven_intCast, ← hint, mul_div_cancel_left₀ y (by norm_num)]
    rw [hexact, sub_self, abs_zero]
    linarith

/-- A double stays one: the largest is whole, so no thousandth goes past it. -/
theorem isDouble_round3 (h : IsDouble x) (hx : 0 ≤ x) :
    IsDouble (binary64.round (nearestEven (1000 * x) / 1000)) := by
  have hnonneg := nearest_thousandth_nonneg hx
  obtain ⟨n, hn⟩ := BinaryFormat.exists_largest_eq (f := binary64) (by decide)
  have hle : nearestEven (1000 * x) ≤ 1000 * n := by
    have hmono := nearestEven_mono
      (mul_le_mul_of_nonneg_left h.le_largest (by norm_num : (0 : ℚ) ≤ 1000))
    have hcast : (1000 : ℚ) * binary64.largest = ((1000 * n : ℤ) : ℚ) := by
      rw [hn]
      push_cast
      rfl
    rwa [hcast, nearestEven_intCast] at hmono
  refine .of_nonneg (BinaryFormat.round_nonneg hnonneg) (BinaryFormat.representable_round hnonneg)
    (BinaryFormat.round_le_of_le hnonneg BinaryFormat.representable_largest ?_)
  rw [div_le_iff₀' (by norm_num), hn]
  exact_mod_cast hle

end

end TaskFleet.Py
