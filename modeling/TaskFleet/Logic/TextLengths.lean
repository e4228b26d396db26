import TaskFleet.Logic.LoadedText

/-!
# How long the texts of `json.dumps` are

Every text is ASCII, so it has as many bytes as characters (`utf8ByteSize_text`). A string
takes at most twelve characters for one of its own, a float at most twenty-four.
-/

namespace TaskFleet.Py

open StrictJson

/-! ## ASCII -/

def Ascii (text : List Char) : Prop := ∀ c ∈ text, c.toNat < 128

instance (text : List Char) : Decidable (Ascii text) :=
  inferInstanceAs (Decidable (∀ c ∈ text, c.toNat < 128))

section

variable {text more : List Char} {c : Char}

theorem ascii_nil : Ascii [] := fun _ hc => absurd hc List.not_mem_nil

/-- A literal, character by character. -/
theorem ascii_of_all (h : (text.all fun c => c.toNat < 128) = true) : Ascii text :=
  fun c hc => of_decide_eq_true (List.all_eq_true.mp h c hc)

theorem Ascii.cons (hc : c.toNat < 128) (h : Ascii text) : Ascii (c :: text) := by
  intro d hd
  rcases List.mem_cons.mp hd with rfl | hd
  · exact hc
  · exact h d hd

theorem Ascii.append (h : Ascii text) (hmore : Ascii more) : Ascii (text ++ more) := by
  intro c hc
  rcases List.mem_append.mp hc with hc | hc
  · exact h c hc
  · exact hmore c hc

/-- An ASCII text has a byte for each character. -/
theorem utf8ByteSize_of_ascii (h : Ascii text) :
    (String.ofList text).utf8ByteSize = text.length := by
  induction text with
  | nil => rfl
  | cons c text ih =>
      have hc : c.val ≤ 127 := by
        have := h c List.mem_cons_self
        rw [UInt32.le_iff_toNat_le]
        exact Nat.le_of_lt_succ this
      rw [String.ofList_cons, String.utf8ByteSize_append, String.utf8ByteSize_singleton,
        Char.utf8Size_eq_one_iff.mpr hc, ih fun d hd => h d (List.mem_cons_of_mem _ hd),
        List.length_cons, Nat.add_comm]

theorem ascii_of_digits (h : ∀ c ∈ text, c.isDigit = true) : Ascii text := by
  intro c hc
  have hdigit := h c hc
  rw [Char.isDigit, Bool.and_eq_true, decide_eq_true_eq, decide_eq_true_eq] at hdigit
  have hle := UInt32.le_iff_toNat_le.mp hdigit.2
  have hnine : '9'.val.toNat = 57 := rfl
  show c.val.toNat < 128
  omega

theorem ascii_toString (n : Int) : Ascii (toString n).toList := by
  cases n with
  | ofNat n =>
      have htext : (toString (Int.ofNat n)).toList = Nat.toDigits 10 n := Nat.toList_repr
      rw [htext]
      exact ascii_of_digits (isDigit_toDigits n)
  | negSucc n =>
      have htext : (toString (Int.negSucc n)).toList = '-' :: Nat.toDigits 10 (n + 1) := by
        show ("-" ++ Nat.repr (n + 1)).toList = _
        rw [String.toList_append, Nat.toList_repr]
        rfl
      rw [htext]
      exact (ascii_of_digits (isDigit_toDigits _)).cons (by decide)

theorem ascii_exponentText (e : ℤ) : Ascii (exponentText e) := by
  refine Ascii.cons ?_ (ascii_of_digits (isDigit_padded e.natAbs))
  split <;> decide

theorem Numeral.WellFormed.ascii {n : Numeral} (hn : n.WellFormed) : Ascii n.text := by
  have hfrac : Ascii (Numeral.fracText n.frac) := by
    rw [Numeral.fracText]
    split
    · exact ascii_nil
    · exact (ascii_of_digits hn.fracDigits).cons (by decide)
  have hexp : Ascii (Numeral.expText n.exp) := by
    cases n.exp with
    | none => exact ascii_nil
    | some e => exact (ascii_exponentText e).cons (by decide)
  exact (ascii_of_digits hn.wholeDigits).append (hfrac.append hexp)

theorem ascii_repr (x : PyFloat) : Ascii x.repr.toList := by
  cases x with
  | finite x =>
      rw [PyFloat.repr]
      rcases lt_trichotomy x 0 with hneg | rfl | hpos
      · rw [if_neg hneg.ne, if_pos hneg, String.toList_ofList]
        exact (wellFormed_ofPositive (neg_pos.mpr hneg)).ascii.cons (by decide)
      · rw [if_pos rfl]
        exact ascii_of_all (by decide)
      · rw [if_neg hpos.ne', if_neg hpos.not_gt, String.toList_ofList]
        exact (wellFormed_ofPositive hpos).ascii
  | inf negative => cases negative <;> exact ascii_of_all (by decide)
  | negZero | nan => exact ascii_of_all (by decide)

theorem ascii_hexDigits (unit : ℕ) : Ascii (hexDigits unit) := by
  have hdigit : ∀ d < 16, (hexDigit d).toNat < 128 := by decide
  have hall : ∀ n, (hexDigit (n % 16)).toNat < 128 := fun n => hdigit _ (Nat.mod_lt n (by omega))
  exact (((ascii_nil.cons (hall _)).cons (hall _)).cons (hall _)).cons (hall _)

theorem ascii_escape (c : PyChar) : Ascii c.escape := by
  have hshort : ∀ e : Char, e.toNat < 128 → Ascii ['\\', e] := fun e he =>
    (ascii_nil.cons he).cons (by decide)
  unfold PyChar.escape
  split_ifs with h1 h2 h3 h4 h5 h6 h7 h8
  · exact hshort _ (by decide)
  · exact hshort _ (by decide)
  · exact hshort _ (by decide)
  · exact hshort _ (by decide)
  · exact hshort _ (by decide)
  · exact hshort _ (by decide)
  · exact hshort _ (by decide)
  · exact ascii_nil.cons (by rw [toNat_ofNat_plain _ (by omega)]; omega)
  · intro d hd
    obtain ⟨unit, -, hd⟩ := List.mem_flatMap.mp hd
    exact (((ascii_hexDigits unit).cons (by decide)).cons (by decide)) d hd

theorem ascii_quote (s : PyStr) : Ascii s.quote := by
  have hescapes : Ascii (s.flatMap PyChar.escape) := by
    intro d hd
    obtain ⟨c, -, hd⟩ := List.mem_flatMap.mp hd
    exact ascii_escape c d hd
  exact (hescapes.append (ascii_nil.cons (by decide))).cons (by decide)

/-- Both separators are ASCII. -/
structure Separators.IsAscii (sep : Separators) : Prop where
  item : Ascii sep.item
  key : Ascii sep.key

theorem compact_ascii : Separators.compact.IsAscii := ⟨ascii_of_all rfl, ascii_of_all rfl⟩

mutual

theorem ascii_text {sep : Separators} (hsep : sep.IsAscii) :
    ∀ v : Wire, Ascii (v.text cpython sep)
  | .null => (ascii_of_all rfl : Ascii "null".toList)
  | .bool true => (ascii_of_all rfl : Ascii "true".toList)
  | .bool false => (ascii_of_all rfl : Ascii "false".toList)
  | .int n => ascii_toString n
  | .float x => ascii_repr x
  | .str s => ascii_quote s
  | .arr items => ((ascii_textItems hsep items).append (ascii_nil.cons (by decide))).cons
      (by decide)
  | .obj fields =>
      ((ascii_textFields hsep fields).append (ascii_nil.cons (by decide))).cons (by decide)

theorem ascii_textItems {sep : Separators} (hsep : sep.IsAscii) :
    ∀ items : List Wire, Ascii (Wire.textItems cpython sep items)
  | [] => ascii_nil
  | [x] => ascii_text hsep x
  | x :: y :: rest => (ascii_text hsep x).append
      (hsep.item.append (ascii_textItems hsep (y :: rest)))

theorem ascii_textFields {sep : Separators} (hsep : sep.IsAscii) :
    ∀ fields : List (PyStr × Wire), Ascii (Wire.textFields cpython sep fields)
  | [] => ascii_nil
  | [(k, x)] => (ascii_quote k).append (hsep.key.append (ascii_text hsep x))
  | (k, x) :: y :: rest => (ascii_quote k).append (hsep.key.append ((ascii_text hsep x).append
      (hsep.item.append (ascii_textFields hsep (y :: rest)))))

end

/-- **Bytes are characters.** -/
theorem utf8ByteSize_text (v : Wire) :
    (String.ofList (v.text cpython .compact)).utf8ByteSize = (v.text cpython .compact).length :=
  utf8ByteSize_of_ascii (ascii_text compact_ascii v)

end

/-! ## Lengths -/

section

variable (sep : Separators)

theorem text_str (s : PyStr) : (Wire.str s).text cpython sep = s.quote := rfl

theorem text_int (n : Int) : (Wire.int n).text cpython sep = (toString n).toList := rfl

theorem text_float (x : PyFloat) : (Wire.float x).text cpython sep = (cpython.repr x).toList := rfl

end

theorem length_escape_le (c : PyChar) : c.escape.length ≤ 12 := by
  unfold PyChar.escape
  split_ifs
  · decide
  · decide
  · decide
  · decide
  · decide
  · decide
  · decide
  · exact Nat.succ_le_succ (Nat.zero_le _)
  · unfold PyChar.units
    split <;> simp [hexDigits]

/-- Twelve characters for one, and the quotes. -/
theorem length_quote_le (s : PyStr) : s.quote.length ≤ 12 * s.length + 2 := by
  have hescapes : (s.flatMap PyChar.escape).length ≤ 12 * s.length := by
    induction s with
    | nil => exact le_rfl
    | cons c s ih =>
        have := length_escape_le c
        rw [List.flatMap_cons, List.length_append, List.length_cons]
        omega
  rw [PyStr.quote, List.length_cons, List.length_append, List.length_singleton]
  omega

/-- A character that stands for itself. -/
def PyChar.Plain (c : PyChar) : Prop := 32 ≤ c.code ∧ c.code ≤ 126 ∧ c.code ≠ 34 ∧ c.code ≠ 92

instance (c : PyChar) : Decidable c.Plain := inferInstanceAs (Decidable (_ ∧ _))

theorem length_escape_of_plain {c : PyChar} (h : c.Plain) : c.escape.length = 1 := by
  obtain ⟨hlow, hhigh, hquote, hslash⟩ := h
  unfold PyChar.escape
  rw [if_neg hquote, if_neg hslash, if_neg (by omega), if_neg (by omega), if_neg (by omega),
    if_neg (by omega), if_neg (by omega), if_pos ⟨hlow, hhigh⟩]
  rfl

/-- One for one, where nothing is escaped. -/
theorem length_quote_of_plain {s : PyStr} (h : ∀ c ∈ s, c.Plain) :
    s.quote.length = s.length + 2 := by
  have hescapes : (s.flatMap PyChar.escape).length = s.length := by
    induction s with
    | nil => rfl
    | cons c s ih =>
        rw [List.flatMap_cons, List.length_append, List.length_cons,
          length_escape_of_plain (h c List.mem_cons_self),
          ih fun d hd => h d (List.mem_cons_of_mem _ hd), Nat.add_comm]
  rw [PyStr.quote, List.length_cons, List.length_append, List.length_singleton, hescapes]

theorem length_toString_natCast (n : ℕ) : (toString (n : Int)).toList = Nat.toDigits 10 n :=
  Nat.toList_repr

theorem length_toString_le {n k : ℕ} (hk : 0 < k) (hn : n < 10 ^ k) :
    (toString (n : Int)).toList.length ≤ k := by
  rw [length_toString_natCast]
  exact length_toDigits_le hk hn

section

variable {ds : List Char} {point : ℤ} {x : ℚ}

theorem length_exponentText_le {e : ℤ} (h : e.natAbs < 1000) : (exponentText e).length ≤ 4 := by
  rw [exponentText, List.length_cons, List.length_append]
  split
  · next hsmall =>
      have := length_toDigits_le (m := e.natAbs) (k := 1) (by decide) (by omega)
      rw [List.length_singleton]
      omega
  · have := length_toDigits_le (m := e.natAbs) (k := 3) (by decide) (by omega)
    rw [List.length_nil]
    omega

theorem length_fracText_le (frac : List Char) :
    (Numeral.fracText frac).length ≤ frac.length + 1 := by
  rw [Numeral.fracText]
  split
  · exact Nat.zero_le _
  · exact le_rfl

/-- Seventeen digits, with all that may stand around them. -/
theorem length_ofDigits_le (hds : Significant ds) (hlength : ds.length ≤ 17) (hlow : -900 < point)
    (hhigh : point < 900) : (Numeral.ofDigits ds point).text.length ≤ 23 := by
  have hpos := hds.length_pos
  unfold Numeral.ofDigits
  split_ifs with hexp hsmall hlarge
  · have hexpText := length_exponentText_le (e := point - 1) (by omega)
    have hfrac := length_fracText_le (ds.drop 1)
    rw [List.length_drop] at hfrac
    simp only [Numeral.text, Numeral.expText, List.length_append, List.length_take,
      List.length_cons]
    omega
  · have hfrac := length_fracText_le (List.replicate (-point).toNat '0' ++ ds)
    rw [List.length_append, List.length_replicate] at hfrac
    simp only [Numeral.text, Numeral.expText, List.length_append, List.length_cons, List.length_nil]
    omega
  · have hfrac := length_fracText_le ['0']
    rw [List.length_singleton] at hfrac
    simp only [Numeral.text, Numeral.expText, List.length_append, List.length_replicate,
      List.length_nil]
    omega
  · have hfrac := length_fracText_le (ds.drop point.toNat)
    rw [List.length_drop] at hfrac
    simp only [Numeral.text, Numeral.expText, List.length_append, List.length_take, List.length_nil]
    omega

/-- **A double** is spelled with at most twenty-four characters. -/
theorem length_repr_le {y : PyFloat} (h : (Wire.float y).Native) : y.repr.toList.length ≤ 24 := by
  have hpositive : ∀ {x}, IsDouble x → 0 < x → (Numeral.ofPositive x).text.length ≤ 23 := by
    intro x hx hpos
    obtain ⟨ds, point, heq, hds, hlength, hlow, hhigh, -⟩ := ofPositive_of_isDouble hx hpos
    rw [heq]
    exact length_ofDigits_le hds hlength hlow hhigh
  cases y with
  | finite x =>
      have hx : IsDouble x := h
      rw [PyFloat.repr]
      rcases lt_trichotomy x 0 with hneg | rfl | hpos
      · have := hpositive hx.neg (neg_pos.mpr hneg)
        rw [if_neg hneg.ne, if_pos hneg, String.toList_ofList, List.length_cons]
        omega
      · rw [if_pos rfl]
        decide
      · have := hpositive hx hpos
        rw [if_neg hpos.ne', if_neg hpos.not_gt, String.toList_ofList]
        omega
  | inf negative => cases negative <;> decide
  | negZero | nan => decide

end

end TaskFleet.Py
