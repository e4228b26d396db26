import Mathlib.Data.Int.Log
import Mathlib.Data.Rat.Floor
import Mathlib.Algebra.Order.Floor.Ring
import Mathlib.Tactic.Linarith
import Mathlib.Tactic.Ring
import Mathlib.Tactic.FieldSimp
import Mathlib.Tactic.NormNum

/-!
# Rounding to a binary floating-point format

A format keeps `precision` bits of a number and no bit below `2 ^ minExp`; the
unit in the last place of its largest numbers is `2 ^ maxExp`. Rounding is to
the nearest number of the format, ties to the even one, as if there were no
largest number: whether the result is too large is a question asked afterwards,
and `round_le_largest_iff` answers it before the rounding.
-/

namespace TaskFleet

/-! ## The nearest integer -/

/-- The integer nearest to `q`, the even one of two. -/
def nearestEven (q : ℚ) : ℤ :=
  if q - ⌊q⌋ < 1 / 2 then ⌊q⌋
  else if 1 / 2 < q - ⌊q⌋ then ⌊q⌋ + 1
  else if Even ⌊q⌋ then ⌊q⌋ else ⌊q⌋ + 1

theorem nearestEven_intCast (n : ℤ) : nearestEven n = n := by
  simp [nearestEven]

theorem floor_le_nearestEven (q : ℚ) : ⌊q⌋ ≤ nearestEven q := by
  unfold nearestEven
  split_ifs <;> omega

theorem nearestEven_le_floor_add_one (q : ℚ) : nearestEven q ≤ ⌊q⌋ + 1 := by
  unfold nearestEven
  split_ifs <;> omega

theorem nearestEven_of_lt_half {q : ℚ} (h : q - ⌊q⌋ < 1 / 2) : nearestEven q = ⌊q⌋ := if_pos h

/-- Nothing but `n` is within half a unit of `n`. -/
theorem nearestEven_of_near {q : ℚ} {n : ℤ} (h : |q - n| < 1 / 2) : nearestEven q = n := by
  obtain ⟨hlow, hhigh⟩ := abs_lt.mp h
  rcases le_or_gt (n : ℚ) q with hle | hlt
  · have hfloor : ⌊q⌋ = n := Int.floor_eq_iff.mpr ⟨hle, by linarith⟩
    rw [nearestEven_of_lt_half (by rw [hfloor]; exact hhigh), hfloor]
  · have hfloor : ⌊q⌋ = n - 1 :=
      Int.floor_eq_iff.mpr ⟨by push_cast; linarith, by push_cast; linarith⟩
    unfold nearestEven
    rw [hfloor]
    push_cast
    rw [if_neg (by linarith), if_pos (by linarith)]
    ring

theorem abs_nearestEven_sub_le (q : ℚ) : |nearestEven q - q| ≤ 1 / 2 := by
  have hlow := Int.floor_le q
  have hhigh := Int.lt_floor_add_one q
  rw [abs_le]
  unfold nearestEven
  split_ifs with hbelow habove
  · constructor <;> linarith
  · push_cast
    constructor <;> linarith
  · constructor <;> linarith
  · push_cast
    constructor <;> linarith

/-- Rounding does not depend on the sign. -/
theorem nearestEven_neg (q : ℚ) : nearestEven (-q) = -nearestEven q := by
  have hlow := Int.floor_le q
  have hhigh := Int.lt_floor_add_one q
  rcases lt_trichotomy (q - ⌊q⌋) (1 / 2) with hbelow | htie | habove
  · rw [nearestEven_of_lt_half hbelow]
    refine nearestEven_of_near (abs_lt.mpr ?_)
    push_cast
    constructor <;> linarith
  · -- between two whole numbers one is even, on either side of zero
    have hfloor : ⌊-q⌋ = -⌊q⌋ - 1 := by
      refine Int.floor_eq_iff.mpr ?_
      push_cast
      constructor <;> linarith
    have hhalf : ¬ -q - ⌊-q⌋ < 1 / 2 ∧ ¬ 1 / 2 < -q - ⌊-q⌋ := by
      rw [hfloor]
      push_cast
      constructor <;> linarith
    have heven : Even (-⌊q⌋ - 1) ↔ ¬ Even ⌊q⌋ := by
      rw [Int.even_sub_one, even_neg]
    unfold nearestEven
    rw [if_neg hhalf.1, if_neg hhalf.2, if_neg htie.not_lt, if_neg htie.not_gt, hfloor]
    simp only [heven, ite_not]
    split_ifs <;> ring
  · have hnear : nearestEven q = ⌊q⌋ + 1 := by
      refine nearestEven_of_near (abs_lt.mpr ?_)
      push_cast
      constructor <;> linarith
    rw [hnear]
    refine nearestEven_of_near (abs_lt.mpr ?_)
    push_cast
    constructor <;> linarith

theorem nearestEven_mono {p q : ℚ} (h : p ≤ q) : nearestEven p ≤ nearestEven q := by
  rcases (Int.floor_mono h).lt_or_eq with hlt | heq
  · exact (nearestEven_le_floor_add_one p).trans ((Int.add_one_le_iff.mpr hlt).trans
      (floor_le_nearestEven q))
  · -- in one unit interval only the two distances to its ends count
    have hcast : ((⌊p⌋ : ℤ) : ℚ) = ⌊q⌋ := by rw [heq]
    unfold nearestEven
    rw [heq] at *
    split_ifs <;> first | omega | (exfalso; linarith)

theorem nearestEven_nonneg {q : ℚ} (h : 0 ≤ q) : 0 ≤ nearestEven q :=
  (Int.floor_nonneg.mpr h).trans (floor_le_nearestEven q)

theorem two_zpow_pos (e : ℤ) : (0 : ℚ) < 2 ^ e := zpow_pos (by norm_num) e

/-! ## Formats -/

/-- A binary floating-point format. -/
structure BinaryFormat where
  precision : ℕ
  minExp : ℤ
  maxExp : ℤ
  precision_pos : 0 < precision
  exp_le : minExp ≤ maxExp

namespace BinaryFormat

variable (f : BinaryFormat) {x y : ℚ}

/-- The exponent of the unit in the last place of `x`. -/
def unit (x : ℚ) : ℤ := max (Int.log 2 |x| - f.precision + 1) f.minExp

/-- The number of the format nearest to `x`. -/
def round (x : ℚ) : ℚ := nearestEven (x / 2 ^ f.unit x) * 2 ^ f.unit x

/-- The largest number of the format. -/
def largest : ℚ := (2 ^ f.precision - 1) * 2 ^ f.maxExp

/-- Half a unit past the largest number. -/
def overflowBound : ℚ := (2 ^ f.precision - 1 / 2) * 2 ^ f.maxExp

/-- The numbers that need no rounding. -/
def Representable (x : ℚ) : Prop := f.round x = x

variable {f}

theorem round_zero : f.round 0 = 0 := by
  simp [round, nearestEven]

theorem round_nonneg (h : 0 ≤ x) : 0 ≤ f.round x :=
  mul_nonneg (by exact_mod_cast nearestEven_nonneg (div_nonneg h (two_zpow_pos _).le))
    (two_zpow_pos _).le

theorem unit_neg (x : ℚ) : f.unit (-x) = f.unit x := by
  rw [unit, unit, abs_neg]

theorem round_neg (x : ℚ) : f.round (-x) = -f.round x := by
  rw [round, round, unit_neg, neg_div, nearestEven_neg]
  push_cast
  ring

theorem Representable.neg (h : f.Representable x) : f.Representable (-x) := by
  rw [Representable, round_neg, h]

/-- Rounding is off by half a unit at most. -/
theorem abs_round_sub_le (x : ℚ) : |f.round x - x| ≤ 2 ^ f.unit x / 2 := by
  have hpos := two_zpow_pos (f.unit x)
  have hscale : f.round x - x =
      (nearestEven (x / 2 ^ f.unit x) - x / 2 ^ f.unit x) * 2 ^ f.unit x := by
    rw [round, sub_mul, div_mul_cancel₀ _ hpos.ne']
  rw [hscale, abs_mul, abs_of_pos hpos]
  linarith [mul_le_mul_of_nonneg_right (abs_nearestEven_sub_le (x / 2 ^ f.unit x)) hpos.le]

theorem minExp_le_unit (x : ℚ) : f.minExp ≤ f.unit x := le_max_right _ _

/-- A number has at most `precision` bits above its last place. -/
theorem lt_two_zpow (h : 0 ≤ x) : x < 2 ^ (f.precision + f.unit x) := by
  have hlog : x < 2 ^ (Int.log 2 |x| + 1) := by
    have := Int.lt_zpow_succ_log_self (b := 2) (by norm_num) |x|
    rw [abs_of_nonneg h] at this ⊢
    exact_mod_cast this
  refine hlog.trans_le (zpow_le_zpow_right₀ (by norm_num) ?_)
  have := le_max_left (Int.log 2 |x| - f.precision + 1) f.minExp
  unfold unit
  omega

/-- A number above the subnormal ones has exactly `precision` bits. -/
theorem two_zpow_le (h : 0 < x) (hunit : f.minExp < f.unit x) :
    (2 : ℚ) ^ (f.precision - 1 + f.unit x) ≤ x := by
  have hlog : (2 : ℚ) ^ Int.log 2 x ≤ x := by
    exact_mod_cast Int.zpow_log_le_self (b := 2) (by norm_num) h
  have hexp : f.precision - 1 + f.unit x = Int.log 2 x := by
    unfold unit at hunit ⊢
    rw [abs_of_pos h] at hunit ⊢
    omega
  rwa [hexp]

theorem unit_mono (h : 0 < x) (hxy : x ≤ y) : f.unit x ≤ f.unit y := by
  have := Int.log_mono_right (b := 2) h hxy
  unfold unit
  rw [abs_of_pos h, abs_of_pos (h.trans_le hxy)]
  omega

/-- A whole number of units is not rounded. -/
theorem representable_of_unit_le {n e : ℤ} (h : f.unit (n * 2 ^ e) ≤ e) :
    f.Representable (n * 2 ^ e) := by
  obtain ⟨d, hd⟩ := Int.eq_ofNat_of_zero_le (sub_nonneg.mpr h)
  have hquot : (n * 2 ^ e : ℚ) / 2 ^ f.unit (n * 2 ^ e) = ((n * 2 ^ d : ℤ) : ℚ) := by
    rw [mul_div_assoc, ← zpow_sub₀ (by norm_num), hd]
    push_cast
    rfl
  unfold Representable round
  rw [hquot, nearestEven_intCast, ← hquot, div_mul_cancel₀ _ (two_zpow_pos _).ne']

theorem representable_mul_zpow {n e : ℤ} (h : 0 ≤ n) (hn : n < 2 ^ f.precision)
    (he : f.minExp ≤ e) :
    f.Representable (n * 2 ^ e) := by
  rcases h.eq_or_lt with rfl | hpos
  · simpa [Representable] using round_zero
  · refine representable_of_unit_le (max_le ?_ he)
    have hx : (0 : ℚ) < n * 2 ^ e := mul_pos (by exact_mod_cast hpos) (two_zpow_pos e)
    have hlt : (n * 2 ^ e : ℚ) < 2 ^ (f.precision + e) := by
      rw [zpow_add₀ (by norm_num), zpow_natCast]
      exact mul_lt_mul_of_pos_right (by exact_mod_cast hn) (two_zpow_pos e)
    have := (Int.lt_zpow_iff_log_lt (b := 2) (by norm_num) hx).mp (by exact_mod_cast hlt)
    rw [abs_of_pos hx]
    omega

theorem representable_zpow {e : ℤ} (he : f.minExp ≤ e) : f.Representable (2 ^ e) := by
  have := representable_mul_zpow (f := f) (n := 1) (by norm_num)
    (one_lt_pow₀ (by norm_num) f.precision_pos.ne') he
  simpa using this

/-- Rounding stays within the binade, its upper end included. -/
theorem round_le_two_zpow (h : 0 ≤ x) : f.round x ≤ 2 ^ (f.precision + f.unit x) := by
  have hquot : x / 2 ^ f.unit x ≤ ((2 ^ f.precision : ℤ) : ℚ) := by
    rw [div_le_iff₀ (two_zpow_pos _)]
    have := (lt_two_zpow (f := f) h).le
    rw [zpow_add₀ (by norm_num), zpow_natCast] at this
    exact_mod_cast this
  have hround : nearestEven (x / 2 ^ f.unit x) ≤ 2 ^ f.precision := by
    have := nearestEven_mono hquot
    rwa [nearestEven_intCast] at this
  rw [zpow_add₀ (by norm_num), zpow_natCast]
  exact mul_le_mul_of_nonneg_right (by exact_mod_cast hround) (two_zpow_pos _).le

/-- Rounding does not fall out of the binade. -/
theorem two_zpow_le_round (h : 0 < x) (hunit : f.minExp < f.unit x) :
    (2 : ℚ) ^ (f.precision - 1 + f.unit x) ≤ f.round x := by
  obtain ⟨p, hp⟩ := Nat.exists_eq_succ_of_ne_zero f.precision_pos.ne'
  have hexp : (f.precision - 1 + f.unit x : ℤ) = (p : ℤ) + f.unit x := by
    rw [hp]
    push_cast
    omega
  have hlow := two_zpow_le h hunit
  rw [hexp, zpow_add₀ (by norm_num), zpow_natCast] at hlow ⊢
  have hquot : ((2 ^ p : ℤ) : ℚ) ≤ x / 2 ^ f.unit x := by
    rw [le_div_iff₀ (two_zpow_pos _)]
    exact_mod_cast hlow
  have hround := nearestEven_mono hquot
  rw [nearestEven_intCast] at hround
  exact mul_le_mul_of_nonneg_right (by exact_mod_cast hround) (two_zpow_pos _).le

/-- **Rounding keeps the order.** -/
theorem round_mono (h : 0 ≤ x) (hxy : x ≤ y) : f.round x ≤ f.round y := by
  rcases h.eq_or_lt with rfl | hx
  · rw [round_zero]
    exact round_nonneg hxy
  · rcases (unit_mono (f := f) hx hxy).lt_or_eq with hlt | heq
    · -- `y` is in a higher binade, whose lower end separates the two
      calc f.round x ≤ 2 ^ (f.precision + f.unit x) := round_le_two_zpow h
        _ ≤ 2 ^ (f.precision - 1 + f.unit y) := zpow_le_zpow_right₀ (by norm_num) (by omega)
        _ ≤ f.round y := two_zpow_le_round (hx.trans_le hxy) ((minExp_le_unit x).trans_lt hlt)
    · have hquot : x / 2 ^ f.unit x ≤ y / 2 ^ f.unit x :=
        div_le_div_of_nonneg_right hxy (two_zpow_pos _).le
      unfold round
      rw [← heq]
      exact mul_le_mul_of_nonneg_right (by exact_mod_cast nearestEven_mono hquot)
        (two_zpow_pos _).le

/-- What has been rounded needs no rounding. -/
theorem representable_round (h : 0 ≤ x) : f.Representable (f.round x) := by
  have hle := round_le_two_zpow (f := f) h
  have hnonneg : 0 ≤ nearestEven (x / 2 ^ f.unit x) :=
    nearestEven_nonneg (div_nonneg h (two_zpow_pos _).le)
  have hunit := minExp_le_unit (f := f) x
  rcases hle.lt_or_eq with hlt | heq
  · refine representable_mul_zpow hnonneg ?_ hunit
    rw [round, zpow_add₀ (by norm_num), zpow_natCast] at hlt
    exact_mod_cast lt_of_mul_lt_mul_right hlt (two_zpow_pos _).le
  · rw [heq]
    exact representable_zpow (by omega)

theorem round_le_of_le (h : 0 ≤ x) (hy : f.Representable y) (hxy : x ≤ y) : f.round x ≤ y :=
  (round_mono h hxy).trans_eq hy

/-! ## Neighbourhoods -/

theorem unit_of_log {e : ℤ} (h : 0 < x) (hlog : Int.log 2 x = e) :
    f.unit x = max (e - f.precision + 1) f.minExp := by
  rw [unit, abs_of_pos h, hlog]

/-- A number of the unit `e` that is less than half of it from `n` of them. -/
theorem round_of_near_mul {n e : ℤ} (hunit : f.unit y = e) (hnear : |y - n * 2 ^ e| < 2 ^ e / 2) :
    f.round y = n * 2 ^ e := by
  have hquot : |y / 2 ^ e - n| < 1 / 2 := by
    have hpos := two_zpow_pos e
    have hscale : y - n * 2 ^ e = (y / 2 ^ e - n) * 2 ^ e := by
      rw [sub_mul, div_mul_cancel₀ _ hpos.ne']
    rw [hscale, abs_mul, abs_of_pos hpos] at hnear
    exact lt_of_mul_lt_mul_right (by linarith) hpos.le
  rw [round, hunit, nearestEven_of_near hquot]

/-- Below the least number of a binade the unit is half as large. -/
theorem round_of_near_bottom (hx : x = 2 ^ (f.precision - 1 + f.unit x))
    (hunit : f.minExp < f.unit x) (hlow : x / 2 ≤ y) (hlt : y < x)
    (hnear : |y - x| < 2 ^ f.unit x / 4) : f.round y = x := by
  have hpos : 0 < x := by rw [hx]; exact two_zpow_pos _
  have hy : 0 < y := (half_pos hpos).trans_le hlow
  have hhalf : x / 2 = 2 ^ (f.precision - 2 + f.unit x) := by
    conv_lhs => rw [hx]
    rw [div_eq_iff two_ne_zero, ← zpow_add_one₀ two_ne_zero]
    congr 1
    ring
  have hge : f.precision - 2 + f.unit x ≤ Int.log 2 y :=
    (Int.zpow_le_iff_le_log (b := 2) (by norm_num) hy).mp
      (by rw [hhalf] at hlow; exact_mod_cast hlow)
  have hless : Int.log 2 y < f.precision - 1 + f.unit x :=
    (Int.lt_zpow_iff_log_lt (b := 2) (by norm_num) hy).mp (by rw [hx] at hlt; exact_mod_cast hlt)
  have huy : f.unit y = f.unit x - 1 := by
    have hlog : Int.log 2 y = f.precision - 2 + f.unit x := by omega
    rw [unit_of_log hy hlog]
    omega
  have hwhole : x = ((2 ^ f.precision : ℤ) : ℚ) * 2 ^ (f.unit x - 1) := by
    conv_lhs => rw [hx]
    push_cast
    rw [← zpow_natCast, ← zpow_add₀ two_ne_zero]
    congr 1
    ring
  have hstep : (2 : ℚ) ^ (f.unit x - 1) / 2 = 2 ^ f.unit x / 4 := by
    rw [zpow_sub_one₀ two_ne_zero]
    ring
  have hround := round_of_near_mul (n := 2 ^ f.precision) huy (by rw [← hwhole, hstep]; exact hnear)
  rw [hround, ← hwhole]

theorem two_pow_precision_sub_one (f : BinaryFormat) (e : ℤ) :
    (2 : ℚ) ^ (f.precision - 1 + e) = ((2 ^ (f.precision - 1) : ℤ) : ℚ) * 2 ^ e := by
  push_cast
  rw [← zpow_natCast, ← zpow_add₀ two_ne_zero, Nat.cast_sub f.precision_pos, Nat.cast_one]

/-- Between a number of the format and the end of its binade is a unit. -/
theorem add_unit_le (h : 0 ≤ x) (hrep : f.Representable x) :
    x + 2 ^ f.unit x ≤ 2 ^ (f.precision + f.unit x) := by
  have hpos := two_zpow_pos (f.unit x)
  have hlt := lt_two_zpow (f := f) h
  have hwhole : (nearestEven (x / 2 ^ f.unit x) : ℚ) * 2 ^ f.unit x = x := hrep
  generalize nearestEven (x / 2 ^ f.unit x) = n at hwhole
  rw [zpow_add₀ two_ne_zero, zpow_natCast] at hlt ⊢
  have hn : (n : ℚ) < ((2 ^ f.precision : ℤ) : ℚ) := by
    push_cast
    exact lt_of_mul_lt_mul_right (hwhole.trans_lt hlt) hpos.le
  have hn' : (n : ℚ) + 1 ≤ 2 ^ f.precision := by
    exact_mod_cast Int.add_one_le_iff.mpr (by exact_mod_cast hn)
  calc x + 2 ^ f.unit x = ((n : ℚ) + 1) * 2 ^ f.unit x := by rw [add_mul, one_mul, hwhole]
    _ ≤ _ := mul_le_mul_of_nonneg_right hn' hpos.le

/-- Only the least number of a binade has anything below the binade nearer than a unit. -/
theorem eq_bottom_of_near (hx : 0 < x) (hrep : f.Representable x) (hunit : f.minExp < f.unit x)
    (hbelow : y < 2 ^ (f.precision - 1 + f.unit x)) (hnear : x - y < 2 ^ f.unit x) :
    x = 2 ^ (f.precision - 1 + f.unit x) := by
  have hpos := two_zpow_pos (f.unit x)
  have hleast := two_zpow_le hx hunit
  have hwhole : (nearestEven (x / 2 ^ f.unit x) : ℚ) * 2 ^ f.unit x = x := hrep
  generalize nearestEven (x / 2 ^ f.unit x) = n at hwhole
  rw [two_pow_precision_sub_one] at hbelow hleast ⊢
  generalize (2 ^ (f.precision - 1) : ℤ) = m at hbelow hleast ⊢
  have hge : (m : ℚ) ≤ n := le_of_mul_le_mul_right (hleast.trans_eq hwhole.symm) hpos
  have hlt : (n : ℚ) < m + 1 := by
    refine lt_of_mul_lt_mul_right ?_ hpos.le
    rw [add_mul, one_mul]
    linarith
  have heq : n = m := le_antisymm (Int.lt_add_one_iff.mp (by exact_mod_cast hlt))
    (by exact_mod_cast hge)
  rw [← heq, hwhole]

/-- A number of the format that is not zero is a unit at least. -/
theorem unit_le_self (hx : 0 < x) (hrep : f.Representable x) : 2 ^ f.unit x ≤ x := by
  have hpos := two_zpow_pos (f.unit x)
  have hwhole : (nearestEven (x / 2 ^ f.unit x) : ℚ) * 2 ^ f.unit x = x := hrep
  generalize nearestEven (x / 2 ^ f.unit x) = n at hwhole
  have hn : (0 : ℚ) < n := pos_of_mul_pos_left (hx.trans_eq hwhole.symm) hpos.le
  have hone : (1 : ℚ) ≤ n := by exact_mod_cast hn
  calc (2 : ℚ) ^ f.unit x ≤ n * 2 ^ f.unit x := le_mul_of_one_le_left hpos.le hone
    _ = x := hwhole

/-- **Rounding back.** What is less than half a unit from a number of the format, and less
than a quarter from the least one of a binade, is rounded to it. -/
theorem round_of_near (hx : 0 < x) (hrep : f.Representable x) (hnear : |y - x| < 2 ^ f.unit x / 2)
    (hbottom : x = 2 ^ (f.precision - 1 + f.unit x) → |y - x| < 2 ^ f.unit x / 4) :
    f.round y = x := by
  have hpos := two_zpow_pos (f.unit x)
  have hge := unit_le_self hx hrep
  obtain ⟨hlow, hhigh⟩ := abs_lt.mp hnear
  have hy : 0 < y := by linarith
  rcases lt_trichotomy (f.unit y) (f.unit x) with hless | hsame | hmore
  · -- `y` is below the binade, so `x` is its least number
    have hmin : f.minExp < f.unit x := (minExp_le_unit y).trans_lt hless
    have hbelow : y < 2 ^ (f.precision - 1 + f.unit x) :=
      (lt_two_zpow (f := f) hy.le).trans_le (zpow_le_zpow_right₀ (by norm_num) (by omega))
    have hxeq := eq_bottom_of_near hx hrep hmin hbelow (by linarith)
    exact round_of_near_bottom hxeq hmin (by linarith) (hbelow.trans_eq hxeq.symm) (hbottom hxeq)
  · have hwhole : (nearestEven (x / 2 ^ f.unit x) : ℚ) * 2 ^ f.unit x = x := hrep
    have hround := round_of_near_mul (n := nearestEven (x / 2 ^ f.unit x)) hsame
      (by rw [hwhole]; exact hnear)
    rw [hround, hwhole]
  · -- `y` is above the binade, whose end is a unit away
    have hmin : f.minExp < f.unit y := (minExp_le_unit x).trans_lt hmore
    have habove : (2 : ℚ) ^ (f.precision + f.unit x) ≤ y :=
      (zpow_le_zpow_right₀ (by norm_num) (by omega)).trans (two_zpow_le hy hmin)
    have hend := add_unit_le hx.le hrep
    exact absurd habove (not_le.mpr (by linarith))

/-! ## The end of the range -/

theorem largest_pos : 0 < f.largest :=
  mul_pos (sub_pos.mpr (one_lt_pow₀ (by norm_num) f.precision_pos.ne')) (two_zpow_pos _)

theorem representable_largest : f.Representable f.largest := by
  have hlt : (1 : ℤ) ≤ 2 ^ f.precision := one_le_pow₀ (by norm_num)
  have := representable_mul_zpow (f := f) (n := 2 ^ f.precision - 1) (by omega) (by omega) f.exp_le
  push_cast at this
  exact this

/-- Where the unit is no fraction, the largest number is whole. -/
theorem exists_largest_eq (h : 0 ≤ f.maxExp) : ∃ n : ℤ, f.largest = n := by
  obtain ⟨k, hk⟩ := Int.eq_ofNat_of_zero_le h
  refine ⟨(2 ^ f.precision - 1) * 2 ^ k, ?_⟩
  rw [largest, hk]
  push_cast
  rw [zpow_natCast]

/-- The unit of the numbers just past the largest one is still the last one. -/
theorem unit_of_near_largest (h : f.largest ≤ x) (hx : x < 2 ^ (f.precision + f.maxExp)) :
    f.unit x = f.maxExp := by
  have hpos : 0 < x := largest_pos.trans_le h
  have hlow : (2 : ℚ) ^ (f.precision - 1 + f.maxExp) ≤ x := by
    refine le_trans ?_ h
    obtain ⟨p, hp⟩ := Nat.exists_eq_succ_of_ne_zero f.precision_pos.ne'
    have hexp : (f.precision - 1 + f.maxExp : ℤ) = (p : ℤ) + f.maxExp := by
      rw [hp]
      push_cast
      omega
    have hone : (1 : ℚ) ≤ 2 ^ p := one_le_pow₀ (by norm_num)
    rw [hexp, zpow_add₀ (by norm_num), zpow_natCast, largest, hp, pow_succ]
    exact mul_le_mul_of_nonneg_right (by linarith) (two_zpow_pos _).le
  have hge : (f.precision - 1 + f.maxExp : ℤ) ≤ Int.log 2 x :=
    (Int.zpow_le_iff_le_log (b := 2) (by norm_num) hpos).mp (by exact_mod_cast hlow)
  have hlt : Int.log 2 x < f.precision + f.maxExp :=
    (Int.lt_zpow_iff_log_lt (b := 2) (by norm_num) hpos).mp (by exact_mod_cast hx)
  have := f.exp_le
  rw [unit, abs_of_pos hpos]
  omega

theorem overflowBound_lt : f.overflowBound < 2 ^ (f.precision + f.maxExp) := by
  rw [zpow_add₀ (by norm_num), zpow_natCast]
  exact mul_lt_mul_of_pos_right (by linarith) (two_zpow_pos _)

theorem largest_lt_overflowBound : f.largest < f.overflowBound :=
  mul_lt_mul_of_pos_right (by linarith) (two_zpow_pos _)

/-- The midpoint itself goes to the even side, which is out of range. -/
theorem round_overflowBound : f.round f.overflowBound = 2 ^ (f.precision + f.maxExp) := by
  have hunit : f.unit f.overflowBound = f.maxExp :=
    unit_of_near_largest largest_lt_overflowBound.le overflowBound_lt
  have hquot : f.overflowBound / 2 ^ f.maxExp = ((2 ^ f.precision - 1 : ℤ) : ℚ) + 1 / 2 := by
    rw [overflowBound, mul_div_cancel_right₀ _ (two_zpow_pos _).ne']
    push_cast
    ring
  have hfloor : ⌊((2 ^ f.precision - 1 : ℤ) : ℚ) + 1 / 2⌋ = 2 ^ f.precision - 1 := by
    rw [Int.floor_intCast_add]
    norm_num
  have hodd : ¬ Even (2 ^ f.precision - 1 : ℤ) := by
    obtain ⟨p, hp⟩ := Nat.exists_eq_succ_of_ne_zero f.precision_pos.ne'
    rw [hp, pow_succ, Int.even_iff]
    omega
  have hnear : nearestEven (((2 ^ f.precision - 1 : ℤ) : ℚ) + 1 / 2) = 2 ^ f.precision := by
    unfold nearestEven
    rw [hfloor, if_neg (by linarith), if_neg (by linarith), if_neg hodd]
    ring
  rw [round, hunit, hquot, hnear, zpow_add₀ (by norm_num), zpow_natCast]
  push_cast
  rfl

/-- **Overflow.** The rounded number is in range exactly when the exact one is
below the midpoint past the largest. -/
theorem round_le_largest_iff (h : 0 ≤ x) : f.round x ≤ f.largest ↔ x < f.overflowBound := by
  constructor
  · intro hle
    by_contra hge
    have hbound : 0 ≤ f.overflowBound := (largest_pos.trans largest_lt_overflowBound).le
    have := round_mono (f := f) hbound (not_lt.mp hge)
    rw [round_overflowBound] at this
    exact absurd (this.trans hle) (not_le.mpr (largest_lt_overflowBound.trans overflowBound_lt))
  · intro hlt
    rcases le_total x f.largest with hle | hge
    · exact round_le_of_le h representable_largest hle
    · have hunit : f.unit x = f.maxExp := unit_of_near_largest hge (hlt.trans overflowBound_lt)
      have hlow : ((2 ^ f.precision - 1 : ℤ) : ℚ) ≤ x / 2 ^ f.maxExp := by
        rw [le_div_iff₀ (two_zpow_pos _)]
        push_cast
        exact hge
      have hhigh : x / 2 ^ f.maxExp < ((2 ^ f.precision - 1 : ℤ) : ℚ) + 1 / 2 := by
        rw [div_lt_iff₀ (two_zpow_pos _)]
        refine hlt.trans_eq ?_
        rw [overflowBound]
        push_cast
        ring
      have hfloor : ⌊x / 2 ^ f.maxExp⌋ = 2 ^ f.precision - 1 :=
        Int.floor_eq_iff.mpr ⟨hlow, by linarith⟩
      rw [round, hunit, nearestEven_of_lt_half (by rw [hfloor]; linarith), hfloor, largest]
      push_cast
      rfl

end BinaryFormat

end TaskFleet
