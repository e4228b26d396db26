import TaskFleet.Py.Loads
import TaskFleet.Logic.WireText

/-!
# Numbers are read back

A literal is read as what it is (`scanNumeral_text`). `repr` lays out the digits that are
rounded back to a double, so `json.loads` finds the same double in them (`scanNumber_repr`);
integers come back as long as the interpreter spells them (`scanNumber_toString`).
-/

namespace TaskFleet.Py

open StrictJson

/-! ## Digits -/

/-- What may follow digits without becoming one of them. -/
def EndsDigits (rest : List Char) : Prop := ∀ c ∈ rest.head?, c.isDigit = false

theorem takeWhile_digits {ds rest : List Char} (hds : ∀ c ∈ ds, c.isDigit = true)
    (hrest : EndsDigits rest) : (ds ++ rest).takeWhile Char.isDigit = ds := by
  rw [List.takeWhile_append_of_pos hds]
  cases rest with
  | nil => simp
  | cons c rest =>
      have hc := hrest c rfl
      simp [hc]

theorem dropWhile_digits {ds rest : List Char} (hds : ∀ c ∈ ds, c.isDigit = true)
    (hrest : EndsDigits rest) : (ds ++ rest).dropWhile Char.isDigit = rest := by
  rw [List.dropWhile_append_of_pos hds]
  cases rest with
  | nil => rfl
  | cons c rest =>
      have hc := hrest c rfl
      simp [hc]

theorem endsDigits_cons {c : Char} (h : c.isDigit = false) (rest : List Char) :
    EndsDigits (c :: rest) := by
  intro d hd
  cases hd
  exact h

theorem stops_endsDigits {rest : List Char} (h : Stops rest) : EndsDigits rest :=
  fun c hc => (h c hc).1

theorem isDigit_toDigits (n : ℕ) : ∀ c ∈ Nat.toDigits 10 n, c.isDigit = true :=
  fun _ hc => Nat.isDigit_of_mem_toDigits (by omega) (by omega) hc

/-- So are those of an exponent. -/
theorem isDigit_padded (n : ℕ) :
    ∀ c ∈ (if n < 10 then ['0'] else []) ++ Nat.toDigits 10 n, c.isDigit = true := by
  intro c hc
  rcases List.mem_append.mp hc with hzero | hdigit
  · split at hzero
    · rw [List.mem_singleton.mp hzero]
      rfl
    · cases hzero
  · exact isDigit_toDigits n c hdigit

theorem length_toDigits_le {m k : ℕ} (hk : 0 < k) (hm : m < 10 ^ k) :
    (Nat.toDigits 10 m).length ≤ k :=
  (Nat.length_toDigits_le_iff (by decide) hk).mpr hm

theorem isDigit_zeros (n : ℕ) : ∀ c ∈ List.replicate n '0', c.isDigit = true := by
  intro c hc
  rw [List.eq_of_mem_replicate hc]
  rfl

/-! ## Numerals -/

namespace Numeral

/-- The number literals of the grammar. -/
structure WellFormed (n : Numeral) : Prop where
  whole : ∃ c rest, n.whole = c :: rest ∧ (c = '0' → rest = [])
  wholeDigits : ∀ c ∈ n.whole, c.isDigit = true
  fracDigits : ∀ c ∈ n.frac, c.isDigit = true

end Numeral

theorem isDigit_zero : ∀ c ∈ ['0'], c.isDigit = true := by
  intro c hc
  rw [List.mem_singleton.mp hc]
  rfl

/-- `0.0` -/
theorem wellFormed_zero : (⟨['0'], ['0'], none⟩ : Numeral).WellFormed :=
  ⟨⟨'0', [], rfl, fun _ => rfl⟩, isDigit_zero, isDigit_zero⟩

section

variable {n : Numeral} {ds rest : List Char} {point : ℤ}

theorem scanWhole_append (hn : n.WellFormed) (hrest : EndsDigits rest) :
    scanWhole (n.whole ++ rest) = some (n.whole, rest) := by
  obtain ⟨c, tail, heq, hzero⟩ := hn.whole
  have hdigits := hn.wholeDigits
  rw [heq] at hdigits ⊢
  rw [List.cons_append, scanWhole]
  split
  · next hc =>
      rw [hzero hc, hc]
      rfl
  · rw [if_pos (hdigits c List.mem_cons_self)]
    have htail : ∀ d ∈ tail, d.isDigit = true := fun d hd => hdigits d (List.mem_cons_of_mem _ hd)
    rw [takeWhile_digits htail hrest, dropWhile_digits htail hrest]

theorem scanFrac_none (hrest : ∀ c ∈ rest.head?, c ≠ '.') : scanFrac rest = ([], rest) := by
  match rest with
  | [] => rfl
  | [c] => rfl
  | c :: d :: rest =>
      have hc : c ≠ '.' := hrest c rfl
      simp [scanFrac, hc]

theorem scanFrac_append (hds : ∀ c ∈ ds, c.isDigit = true) (hne : ds ≠ [])
    (hrest : EndsDigits rest) : scanFrac ('.' :: (ds ++ rest)) = (ds, rest) := by
  obtain ⟨d, tail, rfl⟩ := List.exists_cons_of_ne_nil hne
  have htail : ∀ e ∈ tail, e.isDigit = true := fun e he => hds e (List.mem_cons_of_mem _ he)
  have hd := hds d List.mem_cons_self
  rw [List.cons_append, scanFrac, hd, takeWhile_digits htail hrest, dropWhile_digits htail hrest]
  rfl

theorem scanExp_none (hrest : ∀ c ∈ rest.head?, c ≠ 'e' ∧ c ≠ 'E') :
    scanExp rest = (none, rest) := by
  match rest with
  | [] => rfl
  | [c] => rfl
  | c :: d :: rest =>
      obtain ⟨he, hE⟩ := hrest c rfl
      simp [scanExp, he, hE]

/-- The digits of an exponent, padded to two. -/
theorem scanExpDigits_append (e : ℤ) (hrest : EndsDigits rest) (negative : Bool) :
    scanExpDigits negative
      ((if e.natAbs < 10 then ['0'] else []) ++ Nat.toDigits 10 e.natAbs ++ rest) =
      some (if negative then -(e.natAbs : ℤ) else e.natAbs, rest) := by
  have hpad := isDigit_padded e.natAbs
  have hvalue : Nat.ofDigitChars 10
      ((if e.natAbs < 10 then ['0'] else []) ++ Nat.toDigits 10 e.natAbs) 0 = e.natAbs := by
    rw [Nat.ofDigitChars_append]
    split
    · exact Nat.ofDigitChars_ten_toDigits
    · exact Nat.ofDigitChars_ten_toDigits
  have hne : ¬ (if e.natAbs < 10 then ['0'] else []) ++ Nat.toDigits 10 e.natAbs = [] := by simp
  rw [scanExpDigits, takeWhile_digits hpad hrest, dropWhile_digits hpad hrest, if_neg hne, hvalue]

theorem scanExp_append (e : ℤ) (hrest : EndsDigits rest) :
    scanExp ('e' :: (exponentText e ++ rest)) = (some e, rest) := by
  have hpos : 0 ≤ e → (e.natAbs : ℤ) = e := Int.natAbs_of_nonneg
  have hneg : e < 0 → (e.natAbs : ℤ) = -e := fun h => Int.ofNat_natAbs_of_nonpos h.le
  rw [exponentText, List.cons_append, scanExp]
  by_cases h : e < 0
  · rw [if_pos h, if_pos rfl, scanExpDigits_append e hrest, hneg h]
    simp
  · have hplus : ('+' : Char) ≠ '-' := by decide
    rw [if_neg h, if_neg hplus, if_pos rfl, scanExpDigits_append e hrest, hpos (not_lt.mp h)]
    simp

/-- **Literals.** A literal is read as what it is. -/
theorem scanNumeral_text (hn : n.WellFormed) (hrest : Stops rest) :
    scanNumeral (n.text ++ rest) = some (n, rest) := by
  have hexp : scanExp (Numeral.expText n.exp ++ rest) = (n.exp, rest) ∧
      ∀ c ∈ (Numeral.expText n.exp ++ rest).head?, c.isDigit = false ∧ c ≠ '.' := by
    cases n.exp with
    | none => exact ⟨scanExp_none fun c hc => (hrest c hc).2.2,
        fun c hc => ⟨(hrest c hc).1, (hrest c hc).2.1⟩⟩
    | some e =>
        refine ⟨scanExp_append e (stops_endsDigits hrest), fun c hc => ?_⟩
        cases hc
        exact ⟨rfl, by decide⟩
  rw [Numeral.text, List.append_assoc, List.append_assoc]
  generalize Numeral.expText n.exp ++ rest = tail at hexp ⊢
  have hfrac : scanFrac (Numeral.fracText n.frac ++ tail) = (n.frac, tail) ∧
      EndsDigits (Numeral.fracText n.frac ++ tail) := by
    rw [Numeral.fracText]
    by_cases hne : n.frac = []
    · rw [if_pos hne, hne]
      exact ⟨scanFrac_none fun c hc => (hexp.2 c hc).2, fun c hc => (hexp.2 c hc).1⟩
    · rw [if_neg hne]
      exact ⟨scanFrac_append hn.fracDigits hne fun c hc => (hexp.2 c hc).1, endsDigits_cons rfl _⟩
  rw [scanNumeral, scanWhole_append hn hfrac.2, Option.map_some]
  simp only [hfrac.1, hexp.1]

/-- It begins with a digit. -/
theorem Numeral.WellFormed.head (hn : n.WellFormed) :
    ∃ c rest, n.text = c :: rest ∧ c.isDigit = true := by
  obtain ⟨c, tail, heq, -⟩ := hn.whole
  have hmem : c ∈ n.whole := by
    rw [heq]
    exact List.mem_cons_self
  exact ⟨c, _, by rw [Numeral.text, heq]; rfl, hn.wholeDigits c hmem⟩

/-! ## The digits of `repr` -/

/-- Digits that do not begin with a zero. -/
structure Significant (ds : List Char) : Prop where
  head : ∃ c rest, ds = c :: rest ∧ c ≠ '0'
  digits : ∀ c ∈ ds, c.isDigit = true

theorem significant_stripZeros {m : ℕ} (hm : 0 < m) :
    Significant (stripZeros (Nat.toDigits 10 m)) := by
  obtain ⟨c, tail, heq, -, -, hzero⟩ := toDigits_head m
  have hc : c ≠ '0' := by
    intro hc
    have hvalue := Nat.ofDigitChars_ten_toDigits (n := m)
    rw [heq, hzero hc, hc] at hvalue
    have : (0 : ℕ) = m := hvalue
    omega
  have hstripped : stripZeros (Nat.toDigits 10 m) <+: Nat.toDigits 10 m :=
    List.rdropWhile_prefix _ _
  refine ⟨?_, fun d hd => isDigit_toDigits m d (hstripped.subset hd)⟩
  have hne : stripZeros (Nat.toDigits 10 m) ≠ [] := by
    intro hnil
    have hall := List.rdropWhile_eq_nil_iff.mp hnil c (by rw [heq]; exact List.mem_cons_self)
    exact hc (of_decide_eq_true hall)
  obtain ⟨d, rest, hds⟩ := List.exists_cons_of_ne_nil hne
  refine ⟨d, rest, hds, ?_⟩
  rw [hds, heq] at hstripped
  have hhead : d = c := (List.cons_prefix_cons.mp hstripped).1
  rwa [hhead]

theorem Significant.length_pos (h : Significant ds) : 1 ≤ ds.length := by
  obtain ⟨c, rest, rfl, -⟩ := h.head
  exact Nat.succ_le_succ (Nat.zero_le _)

/-- Wherever the point is, the literal is one. -/
theorem wellFormed_ofDigits (h : Significant ds) (point : ℤ) :
    (Numeral.ofDigits ds point).WellFormed := by
  obtain ⟨c, tail, heq, hc⟩ := h.head
  have hmem : ∀ n, ∀ d ∈ ds.take n, d.isDigit = true := fun n d hd =>
      h.digits d (List.mem_of_mem_take hd)
  have hdrop : ∀ n, ∀ d ∈ ds.drop n, d.isDigit = true := fun n d hd =>
      h.digits d (List.mem_of_mem_drop hd)
  unfold Numeral.ofDigits
  split_ifs with hexp hsmall hlarge
  · exact ⟨⟨c, [], by rw [heq]; rfl, fun _ => rfl⟩, hmem 1, hdrop 1⟩
  · refine ⟨⟨'0', [], rfl, fun _ => rfl⟩, fun d hd => ?_, fun d hd => ?_⟩
    · rw [List.mem_singleton.mp hd]
      rfl
    · rcases List.mem_append.mp hd with hd | hd
      · exact isDigit_zeros _ d hd
      · exact h.digits d hd
  · refine ⟨⟨c, tail ++ _, by rw [heq]; rfl, fun hzero => absurd hzero hc⟩, fun d hd => ?_,
      fun d hd => ?_⟩
    · rcases List.mem_append.mp hd with hd | hd
      · exact h.digits d hd
      · exact isDigit_zeros _ d hd
    · rw [List.mem_singleton.mp hd]
      rfl
  · obtain ⟨k, hk⟩ := Int.eq_ofNat_of_zero_le (show 0 ≤ point - 1 by omega)
    have hpoint : point.toNat = k + 1 := by omega
    rw [hpoint]
    exact ⟨⟨c, tail.take k, by rw [heq]; rfl, fun hzero => absurd hzero hc⟩, hmem _, hdrop _⟩

/-- Laying digits out does not change the number. -/
theorem value_ofDigits (h : Significant ds) (point : ℤ) :
    (Numeral.ofDigits ds point).value = decimalValue ds point := by
  have hlength := h.length_pos
  unfold Numeral.ofDigits
  split_ifs with hexp hsmall hlarge
  · rw [Numeral.value, List.take_append_drop, List.length_take, min_eq_left hlength]
    congr 1
    simp
  · obtain ⟨k, hk⟩ := Int.eq_ofNat_of_zero_le (show 0 ≤ -point by omega)
    have hzeros : ['0'] ++ (List.replicate (-point).toNat '0' ++ ds) =
        List.replicate (k + 1) '0' ++ ds := by
      rw [hk, List.replicate_succ]
      rfl
    rw [Numeral.value, hzeros, decimalValue_zeros_append]
    congr 1
    simp
    omega
  · obtain ⟨k, hk⟩ := Int.eq_ofNat_of_zero_le (show 0 ≤ point - ds.length by omega)
    have hzeros : ds ++ List.replicate (point - ds.length).toNat '0' ++ ['0'] =
        ds ++ List.replicate (k + 1) '0' := by
      rw [hk, List.replicate_succ', List.append_assoc]
      rfl
    rw [Numeral.value, hzeros, decimalValue_append_zeros]
    congr 1
    simp [hk]
    omega
  · rw [Numeral.value, List.take_append_drop, List.length_take]
    congr 1
    simp
    omega

/-- What `repr` writes is never taken for an integer. -/
theorem load_ofDigits (h : Significant ds) (point : ℤ) (negative : Bool) :
    (Numeral.ofDigits ds point).load negative =
      some (.float (if negative then (PyFloat.ofRat (decimalValue ds point)).neg
        else .ofRat (decimalValue ds point))) := by
  have hfloat : ¬ ((Numeral.ofDigits ds point).frac = [] ∧
      (Numeral.ofDigits ds point).exp = none) := by
    have hlength := h.length_pos
    rintro ⟨hfrac, hexp⟩
    unfold Numeral.ofDigits at hfrac hexp
    split_ifs at hfrac hexp with h1 h2 h3
    · rw [List.append_eq_nil_iff] at hfrac
      rw [hfrac.2] at hlength
      exact absurd hlength (by decide)
    · have := List.drop_eq_nil_iff.mp hfrac
      omega
  rw [Numeral.load, if_neg hfloat, value_ofDigits h]

end

/-! ## Floats -/

section

variable {x y : ℚ} {rest : List Char}

theorem IsDouble.neg (h : IsDouble x) : IsDouble (-x) :=
  ⟨h.representable.neg, (abs_neg x).trans_le h.finite⟩

theorem PyFloat.ofRat_of_round (h : IsDouble x) (hx : x ≠ 0) (hround : binary64.round y = x) :
    PyFloat.ofRat y = .finite x := by
  rw [PyFloat.ofRat, hround, if_pos h.finite]
  exact ofRounded_eq fun hzero => absurd hzero hx

theorem PyFloat.neg_of_ne_zero (hx : x ≠ 0) : (PyFloat.finite x).neg = .finite (-x) :=
  ofRounded_eq fun hzero => absurd (neg_eq_zero.mp hzero) hx

theorem PyFloat.ofRat_zero : PyFloat.ofRat 0 = .finite 0 :=
  ofRat_of_isDouble (isDouble_natCast (n := 0) (by decide))

theorem two_pow_le_ten_pow {m n : ℕ} (h : m ≤ 3 * n) : (2 : ℚ) ^ m ≤ 10 ^ n := by
  calc (2 : ℚ) ^ m ≤ 2 ^ (3 * n) := pow_le_pow_right₀ (by norm_num) h
    _ = 8 ^ n := by rw [pow_mul]; norm_num
    _ ≤ 10 ^ n := pow_le_pow_left₀ (by norm_num) (by norm_num) n

/-- Doubles are neither very large nor very small. -/
theorem IsDouble.log_bounds (h : IsDouble x) (hx : 0 < x) :
    -400 ≤ Int.log 10 x ∧ Int.log 10 x < 400 := by
  have hlow : (10 : ℚ) ^ (-((400 : ℕ) : ℤ)) ≤ x := by
    calc (10 : ℚ) ^ (-((400 : ℕ) : ℤ)) ≤ 2 ^ (-((1074 : ℕ) : ℤ)) := by
          rw [zpow_neg, zpow_neg, zpow_natCast, zpow_natCast]
          exact inv_anti₀ (by positivity) (two_pow_le_ten_pow (by omega))
      _ ≤ 2 ^ binary64.unit x :=
          zpow_le_zpow_right₀ (by norm_num) (BinaryFormat.minExp_le_unit (f := binary64) x)
      _ ≤ x := BinaryFormat.unit_le_self hx h.representable
  have hhigh : x < (10 : ℚ) ^ ((400 : ℕ) : ℤ) := by
    rw [zpow_natCast]
    calc x ≤ binary64.largest := h.le_largest
      _ < binary64.overflowBound := BinaryFormat.largest_lt_overflowBound
      _ ≤ 2 ^ 1024 := overflowBound_le_two_pow
      _ ≤ 10 ^ 400 := two_pow_le_ten_pow (by omega)
  exact ⟨(Int.zpow_le_iff_le_log (b := 10) (by norm_num) hx).mp (by exact_mod_cast hlow),
    (Int.lt_zpow_iff_log_lt (b := 10) (by norm_num) hx).mp (by exact_mod_cast hhigh)⟩

/-- **The digits of a double.** They are seventeen at most, and rounded back. -/
theorem ofPositive_of_isDouble (h : IsDouble x) (hx : 0 < x) : ∃ ds point,
    Numeral.ofPositive x = Numeral.ofDigits ds point ∧ Significant ds ∧ ds.length ≤ 17 ∧
      -900 < point ∧ point < 900 ∧ binary64.round (decimalValue ds point) = x := by
  have hdigits : 1 ≤ 17 := by decide
  obtain ⟨⟨m, k⟩, hd⟩ := BinaryFormat.exists_shortest hx h.representable hdigits
    (by show 2 ^ 53 < 10 ^ 16; norm_num)
  obtain ⟨hback, n, hn, hn17, hk, hlow, hhigh⟩ := BinaryFormat.shortest_spec hx hd
  obtain ⟨hlogLow, hlogHigh⟩ := h.log_bounds hx
  simp only at hback hk hlow hhigh
  have hone : (1 : ℤ) ≤ m := (one_le_pow₀ (by norm_num)).trans hlow
  obtain ⟨m', rfl⟩ := Int.eq_ofNat_of_zero_le (show 0 ≤ m by omega)
  have hm : m' ≤ 10 ^ n := by exact_mod_cast hhigh
  have hlength : (Nat.toDigits 10 m').length ≤ n + 1 := by
    refine (Nat.length_toDigits_le_iff (by omega) (by omega)).mpr (hm.trans_lt ?_)
    exact Nat.pow_lt_pow_right (by omega) (by omega)
  have hpos := Nat.length_toDigits_pos (b := 10) (n := m')
  rw [BinaryFormat.decimalExp] at hk
  refine ⟨stripZeros (Nat.toDigits 10 m'), (Nat.toDigits 10 m').length + k, ?_,
    significant_stripZeros (by omega), (length_stripZeros_le hn hm).trans hn17, by omega, by omega,
    ?_⟩
  · rw [Numeral.ofPositive, hd]
    rfl
  · rw [decimalValue_stripZeros, decimalValue_toDigits]
    exact_mod_cast hback

theorem scanNumber_positive (h : IsDouble x) (hx : 0 < x) (hrest : Stops rest) :
    scanNumber ((Numeral.ofPositive x).text ++ rest) = some (.float (.finite x), rest) ∧
      scanNumber ('-' :: ((Numeral.ofPositive x).text ++ rest)) =
        some (.float (.finite (-x)), rest) := by
  obtain ⟨ds, point, hds, hsig, -, -, -, hround⟩ := ofPositive_of_isDouble h hx
  have hwell := wellFormed_ofDigits hsig point
  have hread := scanNumeral_text hwell hrest
  obtain ⟨c, tail, htext, hc⟩ := hwell.head
  have hminus : c ≠ '-' := by
    rintro rfl
    cases hc
  rw [hds]
  constructor
  · rw [htext, List.cons_append] at hread ⊢
    rw [scanNumber, if_neg hminus, hread, Option.bind_some, decide_eq_false hminus,
      load_ofDigits hsig, if_neg Bool.false_ne_true, PyFloat.ofRat_of_round h hx.ne' hround]
    rfl
  · rw [scanNumber, if_pos rfl, hread, Option.bind_some, decide_eq_true rfl, load_ofDigits hsig,
      if_pos rfl, PyFloat.ofRat_of_round h hx.ne' hround, PyFloat.neg_of_ne_zero hx.ne']
    rfl

theorem value_zero : Numeral.value ⟨['0'], ['0'], none⟩ = 0 := by
  simp [Numeral.value, decimalValue, Nat.ofDigitChars]

/-- The negative zero is read as one. -/
theorem scanNumber_negZero (hrest : Stops rest) :
    scanNumber ('-' :: '0' :: '.' :: '0' :: rest) = some (.float .negZero, rest) := by
  have hread : scanNumeral ('0' :: '.' :: '0' :: rest) = _ := scanNumeral_text wellFormed_zero hrest
  have hnot : ¬ ((['0'] : List Char) = [] ∧ (none : Option ℤ) = none) := by decide
  rw [scanNumber, if_pos rfl, hread, Option.bind_some, decide_eq_true rfl, Numeral.load,
    if_neg hnot, if_pos rfl, value_zero, PyFloat.ofRat_zero]
  rfl

/-- **Floats.** What `repr` writes for a double is read as that double. -/
theorem scanNumber_repr (h : IsDouble x) (hrest : Stops rest) :
    scanNumber ((PyFloat.repr (.finite x)).toList ++ rest) = some (.float (.finite x), rest) := by
  rw [PyFloat.repr]
  rcases lt_trichotomy x 0 with hneg | rfl | hpos
  · have hread := (scanNumber_positive h.neg (neg_pos.mpr hneg) hrest).2
    rw [neg_neg] at hread
    rw [if_neg hneg.ne, if_pos hneg, String.toList_ofList, List.cons_append, hread]
  · have hread : scanNumeral ('0' :: '.' :: '0' :: rest) = _ :=
      scanNumeral_text wellFormed_zero hrest
    have hminus : ('0' : Char) ≠ '-' := by decide
    rw [if_pos rfl]
    show scanNumber ('0' :: '.' :: '0' :: rest) = _
    rw [scanNumber, if_neg hminus, hread, Option.bind_some, decide_eq_false hminus, Numeral.load,
      value_zero, PyFloat.ofRat_zero]
    rfl
  · rw [if_neg hpos.ne', if_neg hpos.not_gt, String.toList_ofList,
      (scanNumber_positive h hpos hrest).1]

/-! ## The grammar -/

theorem digits_append {ds : List Char} (hds : ∀ c ∈ ds, c.isDigit = true) (hne : ds ≠ [])
    (hrest : EndsDigits rest) : digits (ds ++ rest) = some rest := by
  obtain ⟨d, tail, rfl⟩ := List.exists_cons_of_ne_nil hne
  rw [List.cons_append, digits, if_pos (hds d List.mem_cons_self),
    dropWhile_digits (fun e he => hds e (List.mem_cons_of_mem _ he)) hrest]

theorem exponent_append (e : ℤ) (hrest : EndsDigits rest) :
    exponent (exponentText e ++ rest) = some rest := by
  have hdigits := isDigit_padded e.natAbs
  have hread := digits_append hdigits (by simp) hrest
  have hplus : ('-' : Char) ≠ '+' := by decide
  rw [exponentText, List.cons_append, exponent]
  split
  · rw [onHead_of_ne hplus, onHead_self, hread]
  · rw [onHead_self, hread]

/-- A literal is a number of the strict grammar. -/
theorem unsigned_text {n : Numeral} (hn : n.WellFormed) : unsigned n.text = some [] := by
  have hends : ∀ e, EndsDigits (Numeral.expText e) := by
    intro e
    cases e with
    | none => exact stops_endsDigits stops_nil
    | some e => exact endsDigits_cons rfl _
  have hexp : expPart (Numeral.expText n.exp) = some [] := by
    cases n.exp with
    | none => rfl
    | some e =>
        have hread := exponent_append e (stops_endsDigits stops_nil)
        rw [List.append_nil] at hread
        rw [Numeral.expText, expPart, onHead_self, hread]
  have hfrac : fracPart (Numeral.fracText n.frac ++ Numeral.expText n.exp) =
      some (Numeral.expText n.exp) := by
    rw [Numeral.fracText, fracPart]
    split
    · cases n.exp with
      | none => rfl
      | some e => exact onHead_of_ne (by decide) _ _ _
    · next hne => rw [List.cons_append, onHead_self, digits_append hn.fracDigits hne (hends _)]
  have hmore : EndsDigits (Numeral.fracText n.frac ++ Numeral.expText n.exp) := by
    rw [Numeral.fracText]
    split
    · exact hends _
    · exact endsDigits_cons rfl _
  have hwhole : intPart (n.whole ++ (Numeral.fracText n.frac ++ Numeral.expText n.exp)) =
      some (Numeral.fracText n.frac ++ Numeral.expText n.exp) := by
    obtain ⟨c, tail, heq, hzero⟩ := hn.whole
    by_cases hc : c = '0'
    · rw [heq, hzero hc, hc]
      rfl
    · have hread := digits_append hn.wholeDigits (by rw [heq]; simp) hmore
      rw [heq] at hread ⊢
      rw [List.cons_append] at hread ⊢
      rw [intPart, onHead_of_ne hc, hread]
  rw [Numeral.text, unsigned, hwhole, Option.bind_some, hfrac, Option.bind_some, hexp]

theorem wellFormed_ofPositive (hx : 0 < x) : (Numeral.ofPositive x).WellFormed := by
  rw [Numeral.ofPositive]
  cases hd : binary64.shortest 17 x with
  | none => exact wellFormed_zero
  | some d =>
      obtain ⟨-, n, -, -, -, hlow, -⟩ := BinaryFormat.shortest_spec hx hd
      have hone : (1 : ℤ) ≤ d.1 := (one_le_pow₀ (by norm_num)).trans hlow
      exact wellFormed_ofDigits (significant_stripZeros (by omega)) _

theorem number_repr (x : ℚ) : number (PyFloat.repr (.finite x)).toList = some [] := by
  rw [PyFloat.repr]
  rcases lt_trichotomy x 0 with hneg | rfl | hpos
  · rw [if_neg hneg.ne, if_pos hneg, String.toList_ofList, number, onHead_self,
      unsigned_text (wellFormed_ofPositive (neg_pos.mpr hneg))]
  · rfl
  · have hwell := wellFormed_ofPositive hpos
    have hread := unsigned_text hwell
    obtain ⟨c, tail, htext, hc⟩ := hwell.head
    have hminus : c ≠ '-' := by
      rintro rfl
      cases hc
    rw [if_neg hpos.ne', if_neg hpos.not_gt, String.toList_ofList]
    rw [htext] at hread ⊢
    rw [number, onHead_of_ne hminus, hread]

theorem number_negZero : number "-0.0".toList = some [] := rfl

theorem PyFloat.isFinite_ofRounded (negative : Bool) (y : ℚ) :
    (PyFloat.ofRounded negative y).isFinite = true := by
  unfold ofRounded zero
  split
  · split <;> rfl
  · rfl

/-- **CPython spells floats as JSON does**, but for those that are not finite. -/
theorem cpython_spelling : FloatSpelling cpython where
  finite x hx := by
    cases x with
    | finite x => exact number_repr x
    | negZero => exact number_negZero
    | inf negative => cases hx
    | nan => cases hx
  inf _ := rfl
  nan := rfl
  round_finite x hx := by
    cases x with
    | finite x => exact PyFloat.isFinite_ofRounded _ _
    | negZero => rfl
    | inf negative => cases hx
    | nan => cases hx
  round_inf _ := rfl
  round_nan := rfl
  ofInt_finite n x h := by
    have h : PyFloat.ofInt n = some x := h
    rw [PyFloat.ofInt] at h
    split at h
    · cases h
      rfl
    · cases h

theorem maxStrDigits_eq : maxStrDigits = 4300 := by
  unfold maxStrDigits
  rfl

theorem maxStrDigits_pos : 0 < maxStrDigits := by
  rw [maxStrDigits_eq]
  decide

/-- An integer of the digits the interpreter spells. -/
theorem scanNumber_toString {n : Int} (hn : n.natAbs < 10 ^ maxStrDigits) (hrest : Stops rest) :
    scanNumber ((toString n).toList ++ rest) = some (.int n, rest) := by
  have hwell : ∀ m, (⟨Nat.toDigits 10 m, [], none⟩ : Numeral).WellFormed := by
    intro m
    obtain ⟨c, tail, heq, -, -, hzero⟩ := toDigits_head m
    exact ⟨⟨c, tail, heq, hzero⟩, isDigit_toDigits m, fun d hd => absurd hd List.not_mem_nil⟩
  have htext : ∀ m, (⟨Nat.toDigits 10 m, [], none⟩ : Numeral).text = Nat.toDigits 10 m :=
    fun m => List.append_nil _
  have hload : ∀ m, m < 10 ^ maxStrDigits → ∀ negative,
      (⟨Nat.toDigits 10 m, [], none⟩ : Numeral).load negative =
        some (.int (if negative then -(m : ℤ) else m)) := by
    intro m hm negative
    have hlength := length_toDigits_le maxStrDigits_pos hm
    simp only [Numeral.load, and_self, if_true, if_pos hlength, Nat.ofDigitChars_ten_toDigits]
  cases n with
  | ofNat m =>
      have hread := scanNumeral_text (hwell m) hrest
      have hlist : (toString (Int.ofNat m)).toList = Nat.toDigits 10 m := Nat.toList_repr
      obtain ⟨c, tail, heq, hc, -⟩ := toDigits_head m
      have hminus : c ≠ '-' := by
        rintro rfl
        cases hc
      rw [htext] at hread
      rw [hlist]
      rw [heq, List.cons_append] at hread ⊢
      rw [scanNumber, if_neg hminus, hread, Option.bind_some, decide_eq_false hminus, ← heq,
        hload m hn]
      rfl
  | negSucc m =>
      have hread := scanNumeral_text (hwell (m + 1)) hrest
      have hlist : (toString (Int.negSucc m)).toList = '-' :: Nat.toDigits 10 (m + 1) := by
        show ("-" ++ Nat.repr (m + 1)).toList = _
        rw [String.toList_append, Nat.toList_repr]
        rfl
      rw [htext] at hread
      rw [hlist, List.cons_append, scanNumber, if_pos rfl, hread, Option.bind_some,
        decide_eq_true rfl, hload (m + 1) hn]
      rfl

end

end TaskFleet.Py
