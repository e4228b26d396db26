import TaskFleet.Lib.Rounding
import Mathlib.Data.List.DropRight

/-!
# Decimals that are rounded back

A decimal of few digits tells a number of a binary format from all others. `shortest` is
the decimal with the fewest digits that is rounded to the number, and the nearest of
those; a format of `p` bits needs no more than `n` digits if `2 ^ p < 10 ^ (n - 1)`
(`exists_shortest`). The second part is about the digits themselves, with a point among
them or beside them.
-/

namespace TaskFleet

/-! ## Around a number -/

/-- The two whole numbers around `q`, the nearer one first. -/
def around (q : ℚ) : List ℤ := [nearestEven q, ⌊q⌋ + ⌈q⌉ - nearestEven q]

theorem nearestEven_le_ceil (q : ℚ) : nearestEven q ≤ ⌈q⌉ := by
  have := nearestEven_mono (Int.le_ceil q)
  rwa [nearestEven_intCast] at this

theorem mem_around {q : ℚ} {n : ℤ} (h : n ∈ around q) : ⌊q⌋ ≤ n ∧ n ≤ ⌈q⌉ := by
  have hlow := floor_le_nearestEven q
  have hhigh := nearestEven_le_ceil q
  simp only [around, List.mem_cons, List.not_mem_nil, or_false] at h
  omega

namespace BinaryFormat

/-! ## The shortest decimal -/

/-- The exponent of the last of so many decimal digits of `x`. -/
def decimalExp (digits : ℕ) (x : ℚ) : ℤ := Int.log 10 x + 1 - digits

/-- The decimals `n * 10 ^ k` of so many digits that are next to `x`. -/
def decimals (digits : ℕ) (x : ℚ) : List (ℤ × ℤ) :=
  (around (x / 10 ^ decimalExp digits x)).map fun n => (n, decimalExp digits x)

/-- The shortest decimal that is rounded to `x`, if one has no more than `digits` digits. -/
def shortest (f : BinaryFormat) (digits : ℕ) (x : ℚ) : Option (ℤ × ℤ) :=
  ((List.range digits).flatMap fun n => decimals (n + 1) x).find? fun d =>
    f.round (d.1 * 10 ^ d.2) = x

section

variable {f : BinaryFormat} {x : ℚ} {digits : ℕ} {d : ℤ × ℤ}

theorem ten_zpow_pos (e : ℤ) : (0 : ℚ) < 10 ^ e := zpow_pos (by norm_num) e

/-- With `digits` digits before the point, `x` has that many. -/
theorem scaled_bounds (hx : 0 < x) (hdigits : 1 ≤ digits) :
    ((10 ^ (digits - 1) : ℤ) : ℚ) ≤ x / 10 ^ decimalExp digits x ∧
      x / 10 ^ decimalExp digits x < ((10 ^ digits : ℤ) : ℚ) := by
  have hlow : (10 : ℚ) ^ Int.log 10 x ≤ x := by
    exact_mod_cast Int.zpow_log_le_self (b := 10) (by norm_num) hx
  have hhigh : x < (10 : ℚ) ^ (Int.log 10 x + 1) := by
    exact_mod_cast Int.lt_zpow_succ_log_self (b := 10) (by norm_num) x
  have hcast : ((digits - 1 : ℕ) : ℤ) = digits - 1 := by omega
  constructor
  · rw [le_div_iff₀ (ten_zpow_pos _)]
    push_cast
    rw [← zpow_natCast, ← zpow_add₀ (by norm_num), hcast, decimalExp]
    refine le_of_eq_of_le ?_ hlow
    congr 1
    ring
  · rw [div_lt_iff₀ (ten_zpow_pos _)]
    push_cast
    rw [← zpow_natCast, ← zpow_add₀ (by norm_num), decimalExp]
    refine hhigh.trans_eq ?_
    congr 1
    ring

theorem mem_decimals (hx : 0 < x) (hdigits : 1 ≤ digits) (h : d ∈ decimals digits x) :
    d.2 = decimalExp digits x ∧ 10 ^ (digits - 1) ≤ d.1 ∧ d.1 ≤ 10 ^ digits := by
  obtain ⟨n, hn, rfl⟩ := List.mem_map.mp h
  obtain ⟨hlow, hhigh⟩ := scaled_bounds hx hdigits
  obtain ⟨hfloor, hceil⟩ := mem_around hn
  exact ⟨rfl, (Int.le_floor.mpr hlow).trans hfloor, hceil.trans (Int.ceil_le.mpr hhigh.le)⟩

/-- **Enough digits.** Where they are finer than the bits, the nearest decimal is rounded
back. -/
theorem round_nearest_decimal (hx : 0 < x) (hrep : f.Representable x) (hdigits : 1 ≤ digits)
    (hfine : 2 ^ f.precision < 10 ^ (digits - 1)) :
    f.round (nearestEven (x / 10 ^ decimalExp digits x) * 10 ^ decimalExp digits x) = x := by
  obtain ⟨hlow, -⟩ := scaled_bounds hx hdigits
  have hunit := two_zpow_pos (f.unit x)
  have hstep := ten_zpow_pos (decimalExp digits x)
  have hnear := abs_nearestEven_sub_le (x / 10 ^ decimalExp digits x)
  have hfine' : (2 : ℚ) ^ f.precision < ((10 ^ (digits - 1) : ℤ) : ℚ) := by exact_mod_cast hfine
  rw [le_div_iff₀ hstep] at hlow
  -- the error is half of the last digit
  have herror : |(nearestEven (x / 10 ^ decimalExp digits x) * 10 ^ decimalExp digits x : ℚ) - x| ≤
      10 ^ decimalExp digits x / 2 := by
    have hscale : (nearestEven (x / 10 ^ decimalExp digits x) * 10 ^ decimalExp digits x : ℚ) - x =
        (nearestEven (x / 10 ^ decimalExp digits x) - x / 10 ^ decimalExp digits x) *
          10 ^ decimalExp digits x := by
      rw [sub_mul, div_mul_cancel₀ _ hstep.ne']
    rw [hscale, abs_mul, abs_of_pos hstep]
    linarith [mul_le_mul_of_nonneg_right hnear hstep.le]
  generalize (10 : ℚ) ^ decimalExp digits x = step at hlow hstep herror ⊢
  generalize ((10 ^ (digits - 1) : ℤ) : ℚ) = scale at hlow hfine'
  have hpow : (0 : ℚ) < 2 ^ f.precision := by positivity
  refine round_of_near hx hrep (herror.trans_lt ?_) fun hbottom => herror.trans_lt ?_
  · have hlt := lt_two_zpow (f := f) hx.le
    rw [zpow_add₀ two_ne_zero, zpow_natCast] at hlt
    have : step < 2 ^ f.unit x := by
      by_contra hge
      have := mul_le_mul hfine'.le (not_lt.mp hge) hunit.le (hpow.trans hfine').le
      linarith
    linarith
  · have hhalf : x = 2 ^ f.precision * (2 ^ f.unit x / 2) := by
      conv_lhs => rw [hbottom]
      rw [sub_add_eq_add_sub, zpow_sub_one₀ two_ne_zero, zpow_add₀ two_ne_zero, zpow_natCast]
      ring
    have : step < 2 ^ f.unit x / 2 := by
      by_contra hge
      have hle := mul_le_mul_of_nonneg_left (not_lt.mp hge) hpow.le
      have hlt := mul_lt_mul_of_pos_right hfine' hstep
      linarith
    linarith

theorem exists_shortest (hx : 0 < x) (hrep : f.Representable x) (hdigits : 1 ≤ digits)
    (hfine : 2 ^ f.precision < 10 ^ (digits - 1)) : ∃ d, f.shortest digits x = some d := by
  refine Option.isSome_iff_exists.mp (List.find?_isSome.mpr ⟨(_, decimalExp digits x), ?_,
    decide_eq_true (round_nearest_decimal hx hrep hdigits hfine)⟩)
  refine List.mem_flatMap.mpr ⟨digits - 1, List.mem_range.mpr (by omega), ?_⟩
  rw [Nat.sub_add_cancel hdigits]
  exact List.mem_map_of_mem List.mem_cons_self

/-- **The shortest decimal** is rounded back, and is one of the decimals of so many digits. -/
theorem shortest_spec (hx : 0 < x) (h : f.shortest digits x = some d) :
    f.round (d.1 * 10 ^ d.2) = x ∧ ∃ n, 1 ≤ n ∧ n ≤ digits ∧ d.2 = decimalExp n x ∧
      10 ^ (n - 1) ≤ d.1 ∧ d.1 ≤ 10 ^ n := by
  have hback := List.find?_some h
  obtain ⟨n, hn, hd⟩ := List.mem_flatMap.mp (List.mem_of_find?_eq_some h)
  refine ⟨of_decide_eq_true hback, ?_⟩
  have hlt := List.mem_range.mp hn
  exact ⟨n + 1, by omega, by omega, mem_decimals hx (by omega) hd⟩

end

end BinaryFormat

/-! ## Digits and a point -/

/-- The number with the digits `ds`, the point after the first `point` of them. -/
def decimalValue (ds : List Char) (point : ℤ) : ℚ :=
  Nat.ofDigitChars 10 ds 0 * 10 ^ (point - ds.length)

/-- The zeros at the end do not count. -/
theorem decimalValue_append_zeros (ds : List Char) (n : ℕ) (point : ℤ) :
    decimalValue (ds ++ List.replicate n '0') point = decimalValue ds point := by
  have hexp : point - ds.length = point - (ds.length + n : ℕ) + n := by
    push_cast
    ring
  rw [decimalValue, decimalValue, Nat.ofDigitChars_append, Nat.ofDigitChars_replicate_zero,
    List.length_append, List.length_replicate, hexp, zpow_add₀ (by norm_num), zpow_natCast]
  push_cast
  ring

/-- Nor do those at the front. -/
theorem decimalValue_zeros_append (ds : List Char) (n : ℕ) (point : ℤ) :
    decimalValue (List.replicate n '0' ++ ds) point = decimalValue ds (point - n) := by
  rw [decimalValue, decimalValue, Nat.ofDigitChars_append, Nat.ofDigitChars_replicate_zero,
    List.length_append, List.length_replicate]
  congr 2
  push_cast
  ring

theorem decimalValue_toDigits (n : ℕ) (k : ℤ) :
    decimalValue (Nat.toDigits 10 n) ((Nat.toDigits 10 n).length + k) = n * 10 ^ k := by
  rw [decimalValue, Nat.ofDigitChars_ten_toDigits, add_sub_cancel_left]

/-- The digits up to the last that is not a zero. -/
def stripZeros (ds : List Char) : List Char := ds.rdropWhile (· = '0')

theorem stripZeros_append (ds : List Char) :
    ∃ n, ds = stripZeros ds ++ List.replicate n '0' := by
  refine ⟨(ds.rtakeWhile (· = '0')).length, ?_⟩
  have hzeros : ds.rtakeWhile (· = '0') =
      List.replicate (ds.rtakeWhile (· = '0')).length '0' :=
    List.eq_replicate_of_mem fun c hc => by simpa using List.mem_rtakeWhile_imp hc
  rw [← hzeros]
  exact List.rdropWhile_append_rtakeWhile.symm

theorem decimalValue_stripZeros (ds : List Char) (point : ℤ) :
    decimalValue (stripZeros ds) point = decimalValue ds point := by
  obtain ⟨n, hn⟩ := stripZeros_append ds
  conv_rhs => rw [hn]
  rw [decimalValue_append_zeros]

theorem toDigits_ten_pow (n : ℕ) : Nat.toDigits 10 (10 ^ n) = '1' :: List.replicate n '0' := by
  induction n with
  | zero => rfl
  | succ n ih =>
      have hbase : 10 ≤ 10 ^ (n + 1) := by
        rw [pow_succ]
        exact Nat.le_mul_of_pos_left 10 (by positivity)
      rw [Nat.toDigits_of_base_le (by omega) hbase, pow_succ, Nat.mul_div_cancel _ (by omega), ih,
        Nat.mul_mod_left, List.replicate_succ', List.cons_append]
      rfl

/-- A number of at most `n` digits, or the first one with more, keeps at most `n`. -/
theorem length_stripZeros_le {m n : ℕ} (hn : 1 ≤ n) (hm : m ≤ 10 ^ n) :
    (stripZeros (Nat.toDigits 10 m)).length ≤ n := by
  rcases hm.lt_or_eq with hlt | rfl
  · have hstripped := List.rdropWhile_prefix (fun c : Char => decide (c = '0')) (Nat.toDigits 10 m)
    exact hstripped.length_le.trans ((Nat.length_toDigits_le_iff (by omega) hn).mpr hlt)
  · have hone : stripZeros ('1' :: List.replicate n '0') = ['1'] := by
      rw [stripZeros, List.rdropWhile, List.reverse_cons, List.reverse_replicate,
        List.dropWhile_append_of_pos (by simp)]
      rfl
    rw [toDigits_ten_pow, hone]
    exact hn

end TaskFleet
