import TaskFleet.Py.Wire
import Mathlib.Data.List.TakeWhile

/-!
# Which texts of `json.dumps` are strict JSON

`json.dumps` writes what it was given, and what it was given is wider than JSON in three
places: numbers that are not finite, the NUL and halves of surrogate pairs. A strict
reader takes the text of a value exactly if none of these is in it
(`accepts_text_iff`).
-/

namespace TaskFleet.Py

open StrictJson

/-- How CPython spells a float, and what `round(x, 3)` makes of the three kinds. -/
structure FloatSpelling (fl : FloatOps) : Prop where
  finite : ∀ x, x.isFinite = true → number (fl.repr x).toList = some []
  inf : ∀ negative, fl.repr (.inf negative) = if negative then "-Infinity" else "Infinity"
  nan : fl.repr .nan = "NaN"
  round_finite : ∀ x, x.isFinite = true → (fl.round3 x).isFinite = true
  round_inf : ∀ negative, fl.round3 (.inf negative) = .inf negative
  round_nan : fl.round3 .nan = .nan
  ofInt_finite : ∀ n x, fl.ofInt n = some x → x.isFinite = true

/-- Each separator is its sign, and blanks. -/
structure Separators.Legal (sep : Separators) : Prop where
  item : ∃ blanks, sep.item = ',' :: blanks ∧ blanks.all isWhitespace = true
  key : ∃ blanks, sep.key = ':' :: blanks ∧ blanks.all isWhitespace = true

theorem default_legal : Separators.default.Legal := ⟨⟨[' '], rfl, rfl⟩, ⟨[' '], rfl, rfl⟩⟩

/-! ## Strings -/

/-- A unit that is neither a NUL nor half of a pair. -/
theorem nextUnit_plain {unit : ℕ} (hzero : unit ≠ 0) (hlow : unit < 0xd800) (high : Bool) :
    nextUnit high unit = if high then none else some false := by
  have hhigh : isHigh unit = false := by simp [isHigh]; omega
  have hnot : isLow unit = false := by simp [isLow]; omega
  rw [nextUnit, if_neg hzero, hhigh, hnot]
  rfl

/-- The units of a pair. -/
theorem nextUnit_high {unit : ℕ} (hlow : 0xd800 ≤ unit) (hhigh : unit < 0xdc00) :
    nextUnit false unit = some true := by
  have h : isHigh unit = true := by simp [isHigh]; omega
  simp only [nextUnit, h, if_neg (show ¬ unit = 0 by omega), if_true, Bool.false_eq_true, if_false]

theorem nextUnit_low {unit : ℕ} (hlow : 0xdc00 ≤ unit) (hhigh : unit < 0xe000) :
    nextUnit true unit = some false := by
  have h : isHigh unit = false := by simp [isHigh]; omega
  have h' : isLow unit = true := by simp [isLow]; omega
  simp only [nextUnit, h, h', if_neg (show ¬ unit = 0 by omega), if_true, Bool.false_eq_true,
    if_false]

theorem nextUnit_pair {high low : ℕ} (hfirst : nextUnit false high = some true)
    (hsecond : nextUnit true low = some false) :
    [high, low].foldlM nextUnit false = some false := by
  simp only [List.foldlM_cons, List.foldlM_nil, hfirst, hsecond, Option.bind_eq_bind,
    Option.bind_some, pure]

theorem nextUnit_beyond {unit : ℕ} (h : 0xe000 ≤ unit) : nextUnit false unit = some false := by
  have hhigh : isHigh unit = false := by simp [isHigh]; omega
  have hlow : isLow unit = false := by simp [isLow]; omega
  simp only [nextUnit, hhigh, hlow, if_neg (show ¬ unit = 0 by omega), Bool.false_eq_true, if_false]

theorem char_toNat_eq_zero {c : Char} : c.toNat = 0 ↔ c = '\x00' :=
  ⟨fun h => Char.ext (UInt32.toNat_inj.mp h), fun h => by rw [h]; rfl⟩

/-- No character is half of a pair. -/
theorem char_toNat_bounds (c : Char) :
    c.toNat < 0xd800 ∨ 0xe000 ≤ c.toNat ∧ c.toNat < 0x110000 := by
  have h := c.valid
  simp only [UInt32.isValidChar, Nat.isValidChar] at h
  show c.val.toNat < _ ∨ _ ≤ c.val.toNat ∧ c.val.toNat < _
  omega

/-- A whole character is refused for being a NUL only. -/
theorem nextUnit_char (c : Char) : (PyChar.ofChar c).units.foldlM nextUnit false =
    if c = '\x00' then none else some false := by
  have hcode : (PyChar.ofChar c).code = c.toNat := rfl
  simp only [PyChar.units, hcode, ← char_toNat_eq_zero]
  have hbounds := char_toNat_bounds c
  generalize c.toNat = code at hbounds
  by_cases hbasic : code < 65536
  · simp only [if_pos hbasic, List.foldlM_cons, List.foldlM_nil, bind_pure]
    rcases hbounds with hlow | ⟨hbeyond, -⟩
    · by_cases hzero : code = 0
      · rw [if_pos hzero, hzero]
        rfl
      · rw [if_neg hzero, nextUnit_plain hzero hlow, if_neg Bool.false_ne_true]
    · rw [nextUnit_beyond hbeyond, if_neg (by omega)]
  · have hfirst : nextUnit false (55296 + (code - 65536) / 1024) = some true :=
      nextUnit_high (by omega) (by omega)
    have hsecond : nextUnit true (56320 + (code - 65536) % 1024) = some false :=
      nextUnit_low (by omega) (by omega)
    rw [if_neg hbasic, if_neg (show ¬ code = 0 by omega)]
    exact nextUnit_pair hfirst hsecond

theorem clean_pyStr (s : String) : (pyStr s).clean = !s.toList.contains '\x00' := by
  have hread : ∀ cs : List Char, ((cs.map PyChar.ofChar).flatMap PyChar.units).foldlM nextUnit
      false = if '\x00' ∈ cs then none else some false := by
    intro cs
    induction cs with
    | nil => rfl
    | cons c cs ih =>
        rw [List.map_cons, List.flatMap_cons, List.foldlM_append, nextUnit_char]
        by_cases hc : c = '\x00'
        · simp [hc]
        · simp [hc, ih, Ne.symm hc]
  rw [PyStr.clean, pyStr, hread]
  by_cases hmem : '\x00' ∈ s.toList <;> simp [hmem]

mutual

/-- The two models of a value agree on what `jsonb` takes. -/
theorem storable_wire : ∀ v : Json, v.wire.storable = v.storable
  | .null | .bool _ | .int _ => rfl
  | .float _ => rfl
  | .str value => clean_pyStr value
  | .arr items => storableItems_wire items
  | .obj fields => storableFields_wire fields

theorem storableItems_wire : ∀ items : List Json,
    Wire.storableItems (Json.wireItems items) = Json.storableItems items
  | [] => rfl
  | x :: rest => by
      simp only [Json.wireItems, Wire.storableItems, Json.storableItems, storable_wire x,
        storableItems_wire rest]

theorem storableFields_wire : ∀ fields : List (String × Json),
    Wire.storableFields (Json.wireFields fields) = Json.storableFields fields
  | [] => rfl
  | (k, x) :: rest => by
      simp only [Json.wireFields, Wire.storableFields, Json.storableFields, storable_wire x,
        storableFields_wire rest, clean_pyStr]

end

theorem PyChar.units_lt (c : PyChar) : ∀ unit ∈ c.units, unit < 65536 := by
  have hc := c.code_lt
  intro unit hunit
  unfold PyChar.units at hunit
  split at hunit
  · rw [List.mem_singleton] at hunit
    omega
  · simp only [List.mem_cons, List.not_mem_nil, or_false] at hunit
    omega

/-- Escaped code units are read one by one. -/
theorem stringTail_units {units : List ℕ} (h : ∀ unit ∈ units, unit < 65536) (high : Bool)
    (rest : List Char) :
    stringTail high ((units.flatMap fun unit => '\\' :: 'u' :: hexDigits unit) ++ rest) =
      (units.foldlM nextUnit high).bind fun high => stringTail high rest := by
  induction units generalizing high with
  | nil => rfl
  | cons unit units ih =>
      have htail := fun high => ih (fun u hu => h u (List.mem_cons_of_mem _ hu)) high
      rw [List.flatMap_cons, List.append_assoc, List.cons_append, List.cons_append,
        stringTail_unit (h unit List.mem_cons_self), List.foldlM_cons]
      cases hnext : nextUnit high unit with
      | none => rfl
      | some high => exact htail high

/-- The characters that stand for themselves. -/
theorem ofNat_plain : ∀ n < 127, 32 ≤ n → n ≠ 34 ∧ n ≠ 92 →
    (Char.ofNat n ≠ '"' ∧ Char.ofNat n ≠ '\\') ∧ ' ' ≤ Char.ofNat n := by
  decide

/-- **One character.** Its escape is read as its code units. -/
theorem stringTail_escape (c : PyChar) (high : Bool) (rest : List Char) :
    stringTail high (c.escape ++ rest) = (c.units.foldlM nextUnit high).bind fun high =>
      stringTail high rest := by
  have hplain : c.code ≠ 0 → c.code < 0xd800 → (c.units.foldlM nextUnit high).bind
      (stringTail · rest) =
      if high then none else stringTail false rest := by
    intro hzero hlow
    rw [PyChar.units, if_pos (by omega), List.foldlM_cons, nextUnit_plain hzero hlow]
    cases high <;> rfl
  have hshort : ∀ {e : Char}, e ∈ ['"', '\\', 'b', 'f', 'n', 'r', 't'] → c.code ≠ 0 →
      c.code < 0xd800 →
      stringTail high (['\\', e] ++ rest) = (c.units.foldlM nextUnit high).bind
        (stringTail · rest) := by
    intro e he hzero hlow
    rw [hplain hzero hlow]
    exact stringTail_short he high rest
  unfold PyChar.escape
  split_ifs with h1 h2 h3 h4 h5 h6 h7 h8
  · exact hshort (by decide) (by omega) (by omega)
  · exact hshort (by decide) (by omega) (by omega)
  · exact hshort (by decide) (by omega) (by omega)
  · exact hshort (by decide) (by omega) (by omega)
  · exact hshort (by decide) (by omega) (by omega)
  · exact hshort (by decide) (by omega) (by omega)
  · exact hshort (by decide) (by omega) (by omega)
  · obtain ⟨⟨hquote, hslash⟩, hblank⟩ := ofNat_plain c.code (by omega) h8.1 ⟨h1, h2⟩
    rw [hplain (by omega) (by omega)]
    exact stringTail_plain hquote hslash hblank high rest
  · exact stringTail_units c.units_lt high rest

/-- **Strings.** A literal is read to its end exactly if the string is clean. -/
theorem stringTail_quote_of (s : PyStr) (rest : List Char) :
    stringTail false (s.flatMap PyChar.escape ++ '"' :: rest) =
      if s.clean then some rest else none := by
  have hall : ∀ high, stringTail high (s.flatMap PyChar.escape ++ '"' :: rest) =
      ((s.flatMap PyChar.units).foldlM nextUnit high).bind fun high =>
        if high then none else some rest := by
    induction s with
    | nil => exact fun high => stringTail_quote high rest
    | cons c s ih =>
        intro high
        rw [List.flatMap_cons, List.append_assoc, stringTail_escape, List.flatMap_cons,
          List.foldlM_append]
        cases hunits : c.units.foldlM nextUnit high with
        | none => rfl
        | some high => exact ih high
  rw [hall, PyStr.clean]
  cases hread : (s.flatMap PyChar.units).foldlM nextUnit false with
  | none => rfl
  | some high => cases high <;> rfl

/-! ## Numbers -/

/-- Decimal digits do not begin with a zero, but for zero itself. -/
theorem toDigits_head (n : ℕ) : ∃ c rest, Nat.toDigits 10 n = c :: rest ∧ c.isDigit = true ∧
    (∀ d ∈ rest, d.isDigit = true) ∧ (c = '0' → rest = []) := by
  have hall : ∀ d ∈ Nat.toDigits 10 n, d.isDigit = true :=
    fun d hd => Nat.isDigit_of_mem_toDigits (by omega) (by omega) hd
  have hzero : ∀ n, 1 ≤ n → ∀ c ∈ (Nat.toDigits 10 n).head?, c ≠ '0' := by
    intro n
    induction n using Nat.strong_induction_on with
    | _ n ih =>
        intro hpos c hc
        rw [Nat.toDigits_eq_if (by omega)] at hc
        split at hc
        · have hdigit : ∀ d < 10, 1 ≤ d → Nat.digitChar d ≠ '0' := by decide
          cases hc
          exact hdigit n (by omega) hpos
        · have hne : Nat.toDigits 10 (n / 10) ≠ [] := Nat.toDigits_ne_nil
          rw [List.head?_append_of_ne_nil _ hne] at hc
          exact ih (n / 10) (by omega) (by omega) c hc
  obtain ⟨c, rest, heq⟩ := List.exists_cons_of_ne_nil (Nat.toDigits_ne_nil (n := n) (b := 10))
  rw [heq] at hall
  refine ⟨c, rest, heq, hall c List.mem_cons_self,
    fun d hd => hall d (List.mem_cons_of_mem _ hd), fun hc => ?_⟩
  cases n with
  | zero =>
      rw [Nat.toDigits_zero] at heq
      cases heq
      rfl
  | succ n => exact absurd hc (hzero (n + 1) (by omega) c (by rw [heq]; rfl))

theorem unsigned_toDigits (n : ℕ) : unsigned (Nat.toDigits 10 n) = some [] := by
  obtain ⟨c, rest, heq, hc, hrest, hzero⟩ := toDigits_head n
  have hint : intPart (c :: rest) = some [] := by
    by_cases h0 : c = '0'
    · rw [hzero h0, h0]
      rfl
    · rw [intPart, onHead_of_ne h0, digits, if_pos hc, List.dropWhile_eq_nil_iff.mpr hrest]
  rw [heq, unsigned, hint]
  rfl

/-- `json.dumps` spells an integer as JSON does. -/
theorem number_toString (n : Int) : number (toString n).toList = some [] := by
  cases n with
  | ofNat n =>
      have htext : (toString (Int.ofNat n)).toList = Nat.toDigits 10 n := Nat.toList_repr
      rw [htext]
      obtain ⟨c, rest, heq, hc, -⟩ := toDigits_head n
      have hminus : c ≠ '-' := by
        rintro rfl
        cases hc
      have hunsigned := unsigned_toDigits n
      rw [heq] at hunsigned ⊢
      rw [number, onHead_of_ne hminus, hunsigned]
  | negSucc n =>
      have htext : (toString (Int.negSucc n)).toList = '-' :: Nat.toDigits 10 (n + 1) := by
        show ("-" ++ Nat.repr (n + 1)).toList = _
        rw [String.toList_append, Nat.toList_repr]
        rfl
      rw [htext, number, onHead_self, unsigned_toDigits]

/-- A number in its place. -/
theorem value_of_number {text rest : List Char} (h : number text = some [])
    (hrest : Stops rest) (fuel : ℕ) :
    value (fuel + 1) (text ++ rest) = some rest := by
  obtain ⟨c, tail, rfl, hc⟩ := number_head h
  rw [List.cons_append, value_number fuel hc]
  exact extends_number (c :: tail) [] rest h hrest

/-! ## Values -/

section

variable {fl : FloatOps} {sep : Separators}

/-- What may begin a value, and is not the end of an array. -/
def Opens (text : List Char) : Prop := ∃ c rest, text = c :: rest ∧ isWhitespace c = false ∧ c ≠ ']'

theorem opens_number {text : List Char} (h : number text = some []) : Opens text := by
  obtain ⟨c, rest, heq, hc⟩ := number_head h
  exact ⟨c, rest, heq, numberHead_not_blank hc, numberHead_ne hc rfl (by decide)⟩

theorem Opens.append {text : List Char} (h : Opens text) (rest : List Char) :
    Opens (text ++ rest) := by
  obtain ⟨c, tail, rfl, hc⟩ := h
  exact ⟨c, tail ++ rest, rfl, hc⟩

/-- The text of a value begins with the sign of its kind. -/
theorem opens_text (hfl : FloatSpelling fl) (v : Wire) : Opens (v.text fl sep) := by
  cases v with
  | null => exact ⟨'n', _, rfl, rfl, by decide⟩
  | bool value =>
      cases value
      · exact ⟨'f', _, rfl, rfl, by decide⟩
      · exact ⟨'t', _, rfl, rfl, by decide⟩
  | int value => exact opens_number (number_toString value)
  | float value =>
      cases value with
      | finite x => exact opens_number (hfl.finite (.finite x) rfl)
      | negZero => exact opens_number (hfl.finite .negZero rfl)
      | inf negative =>
          rw [Wire.text, hfl.inf]
          cases negative
          · exact ⟨'I', _, rfl, rfl, by decide⟩
          · exact ⟨'-', _, rfl, rfl, by decide⟩
      | nan =>
          rw [Wire.text, hfl.nan]
          exact ⟨'N', _, rfl, rfl, by decide⟩
  | str value => exact ⟨'"', _, rfl, rfl, by decide⟩
  | arr items => exact ⟨'[', _, rfl, rfl, by decide⟩
  | obj fields => exact ⟨'\x7b', _, rfl, rfl, by decide⟩

theorem opens_textItems (hfl : FloatSpelling fl) (sep : Separators) (x : Wire) (xs : List Wire) :
    Opens (Wire.textItems fl sep (x :: xs)) := by
  cases xs with
  | nil => exact opens_text hfl x
  | cons y xs => exact (opens_text hfl x).append _

/-- What separates items stops a number. -/
theorem Separators.Legal.stops_item (hsep : sep.Legal) (rest : List Char) :
    Stops (sep.item ++ rest) := by
  obtain ⟨blanks, hitem, -⟩ := hsep.item
  rw [hitem]
  exact stops_cons rfl (by decide) (by decide) (by decide) _

theorem Separators.Legal.item_length (hsep : sep.Legal) : 1 ≤ sep.item.length := by
  obtain ⟨blanks, hitem, -⟩ := hsep.item
  rw [hitem]
  exact Nat.succ_le_succ (Nat.zero_le _)

theorem stops_bracket (rest : List Char) : Stops (']' :: rest) :=
  stops_cons rfl (by decide) (by decide) (by decide) rest

theorem stops_brace (rest : List Char) : Stops ('\x7d' :: rest) :=
  stops_cons rfl (by decide) (by decide) (by decide) rest

theorem readMore_item (hsep : sep.Legal) (close : Char) {more : List Char → Option (List Char)}
    (hmore : ∀ blanks text, blanks.all isWhitespace = true → more (blanks ++ text) = more text)
    (rest : List Char) :
    readMore close more (sep.item ++ rest) = more rest := by
  obtain ⟨blanks, hitem, hblank⟩ := hsep.item
  rw [hitem, List.cons_append, readMore_comma, hmore blanks rest hblank]

/-- A member is read as far as its value, if its key is clean. -/
theorem readMember_of (hsep : sep.Legal) (k : PyStr) (fuel : ℕ) (rest : List Char) :
    readMember (value fuel) (k.quote ++ (sep.key ++ rest)) = if k.clean then value fuel
      rest else none := by
  obtain ⟨blanks, hkey, hblank⟩ := hsep.key
  have hquote : k.quote ++ (sep.key ++ rest) =
      '"' :: (k.flatMap PyChar.escape ++ '"' :: (':' :: (blanks ++ rest))) := by
    simp [PyStr.quote, hkey]
  rw [hquote, readMember_key, stringTail_quote_of]
  split
  · rw [Option.bind_some, skip_cons rfl, onHead_self, value_append hblank]
  · rfl

theorem items_succ (fuel : ℕ) (text : List Char) :
    items (fuel + 1) text = (value fuel text).bind (readMore ']' (items fuel)) := rfl

theorem members_succ (fuel : ℕ) (text : List Char) :
    members (fuel + 1) text = (readMember (value fuel) text).bind
      (readMore '\x7d' (members fuel)) := rfl

mutual

/-- **What is storable is read to its end.** -/
theorem value_text (hfl : FloatSpelling fl) (hsep : sep.Legal) :
    ∀ (v : Wire) (fuel : ℕ) (rest : List Char),
    v.storable = true → (v.text fl sep).length < fuel → Stops rest →
      value fuel (v.text fl sep ++ rest) = some rest
  | .null, fuel + 1, rest, _, _, _ => value_null fuel rest
  | .bool true, fuel + 1, rest, _, _, _ => value_true fuel rest
  | .bool false, fuel + 1, rest, _, _, _ => value_false fuel rest
  | .int n, fuel + 1, rest, _, _, hrest => value_of_number (number_toString n) hrest fuel
  | .float x, fuel + 1, rest, hx, _, hrest => value_of_number (hfl.finite x hx) hrest fuel
  | .str s, fuel + 1, rest, hs, _, _ => by
      have hs : s.clean = true := hs
      have htext : (Wire.str s).text fl sep ++ rest = '"' ::
          (s.flatMap PyChar.escape ++ '"' :: rest) := by
        simp [Wire.text, PyStr.quote]
      rw [htext, value_string, stringTail_quote_of, if_pos hs]
  | .arr [], fuel + 1, rest, _, _, _ => value_array_nil fuel rest
  | .arr (x :: xs), fuel + 1, rest, hs, hlen, _ => by
      obtain ⟨c, tail, htext, hblank, hclose⟩ := opens_textItems hfl sep x xs
      have hlen' : (Wire.textItems fl sep (x :: xs)).length + 1 < fuel := by
        simp only [Wire.text, List.length_cons, List.length_append, List.length_nil] at hlen
        omega
      have hitems := items_text hfl hsep x xs fuel rest hs hlen'
      have hsplit : (Wire.arr (x :: xs)).text fl sep ++ rest =
          '[' :: (Wire.textItems fl sep (x :: xs) ++ ']' :: rest) := by
        simp [Wire.text]
      rw [hsplit]
      rw [htext, List.cons_append] at hitems ⊢
      rw [value_array fuel hblank hclose, hitems]
  | .obj [], fuel + 1, rest, _, _, _ => value_object_nil fuel rest
  | .obj ((k, x) :: xs), fuel + 1, rest, hs, hlen, _ => by
      have hlen' : (Wire.textFields fl sep ((k, x) :: xs)).length + 1 < fuel := by
        simp only [Wire.text, List.length_cons, List.length_append, List.length_nil] at hlen
        omega
      have hfields := members_text hfl hsep k x xs fuel rest hs hlen'
      have hsplit : (Wire.obj ((k, x) :: xs)).text fl sep ++ rest =
          '\x7b' :: (Wire.textFields fl sep ((k, x) :: xs) ++ '\x7d' :: rest) := by
        simp [Wire.text]
      obtain ⟨tail, htail⟩ : ∃ tail, Wire.textFields fl sep ((k, x) :: xs) ++ '\x7d' :: rest =
          '"' :: tail := by
        cases xs <;> exact ⟨_, rfl⟩
      rw [hsplit]
      rw [htail] at hfields ⊢
      rw [value_object, hfields]

theorem items_text (hfl : FloatSpelling fl) (hsep : sep.Legal) :
    ∀ (x : Wire) (xs : List Wire) (fuel : ℕ) (rest : List Char),
      Wire.storableItems (x :: xs) = true →
      (Wire.textItems fl sep (x :: xs)).length + 1 < fuel →
        items fuel (Wire.textItems fl sep (x :: xs) ++ ']' :: rest) = some rest
  | x, [], fuel + 1, rest, hs, hlen => by
      have hx : x.storable = true := by simpa [Wire.storableItems] using hs
      have hlen : (x.text fl sep).length < fuel := by
        simp only [Wire.textItems] at hlen
        omega
      rw [Wire.textItems, items_succ, value_text hfl hsep x fuel (']' :: rest) hx hlen
        (stops_bracket rest),
        Option.bind_some, readMore_close rfl (by decide)]
  | x, y :: xs, fuel + 1, rest, hs, hlen => by
      obtain ⟨hx, hxs⟩ : x.storable = true ∧ Wire.storableItems (y :: xs) = true := by
        simpa only [Wire.storableItems, Bool.and_eq_true] using hs
      have hlens : (x.text fl sep).length < fuel ∧
          (Wire.textItems fl sep (y :: xs)).length + 1 < fuel := by
        have hsep := hsep.item_length
        simp only [Wire.textItems, List.length_append] at hlen ⊢
        omega
      rw [Wire.textItems, List.append_assoc, List.append_assoc, items_succ,
        value_text hfl hsep x fuel _ hx hlens.1 (hsep.stops_item _), Option.bind_some,
        readMore_item hsep ']' (fun blanks text h => items_append h fuel text),
        items_text hfl hsep y xs fuel rest hxs hlens.2]

theorem members_text (hfl : FloatSpelling fl) (hsep : sep.Legal) :
    ∀ (k : PyStr) (x : Wire) (xs : List (PyStr × Wire)) (fuel : ℕ) (rest : List Char),
      Wire.storableFields ((k, x) :: xs) = true →
        (Wire.textFields fl sep ((k, x) :: xs)).length + 1 < fuel →
        members fuel (Wire.textFields fl sep ((k, x) :: xs) ++ '\x7d' :: rest) = some rest
  | k, x, [], fuel + 1, rest, hs, hlen => by
      obtain ⟨hk, hx⟩ : k.clean = true ∧ x.storable = true := by
        simpa [Wire.storableFields] using hs
      have hlen : (x.text fl sep).length < fuel := by
        simp only [Wire.textFields, List.length_append] at hlen
        omega
      rw [Wire.textFields, List.append_assoc, List.append_assoc, members_succ,
        readMember_of hsep, if_pos hk,
        value_text hfl hsep x fuel ('\x7d' :: rest) hx hlen (stops_brace rest), Option.bind_some,
        readMore_close rfl (by decide)]
  | k, x, (k', y) :: xs, fuel + 1, rest, hs, hlen => by
      obtain ⟨⟨hk, hx⟩, hxs⟩ : (k.clean = true ∧ x.storable = true) ∧
          Wire.storableFields ((k', y) :: xs) = true := by
        simpa only [Wire.storableFields, Bool.and_eq_true] using hs
      have hlens : (x.text fl sep).length < fuel ∧
          (Wire.textFields fl sep ((k', y) :: xs)).length + 1 < fuel := by
        have hsep := hsep.item_length
        simp only [Wire.textFields, List.length_append] at hlen ⊢
        omega
      rw [Wire.textFields, List.append_assoc, List.append_assoc, List.append_assoc,
        List.append_assoc, members_succ,
        readMember_of hsep, if_pos hk, value_text hfl hsep x fuel _ hx hlens.1 (hsep.stops_item _),
          Option.bind_some,
        readMore_item hsep '\x7d' (fun blanks text h => members_append h fuel text),
        members_text hfl hsep k' y xs fuel rest hxs hlens.2]

end

/-- Where it is not read, only the fuel was short. -/
theorem value_text_left (hfl : FloatSpelling fl) (hsep : sep.Legal) {v : Wire}
    (hv : v.storable = true) {fuel : ℕ}
    {rest left : List Char} (hrest : Stops rest)
    (h : value fuel (v.text fl sep ++ rest) = some left) :
    left = rest := by
  let enough := max fuel ((v.text fl sep).length + 1)
  have hread : value enough (v.text fl sep ++ rest) = some rest :=
    value_text hfl hsep v enough rest hv (Nat.lt_of_succ_le (le_max_right _ _)) hrest
  have hmore : value enough (v.text fl sep ++ rest) = some left :=
    within_of_le (le_max_left _ _) _ _ h
  exact Option.some.inj (hmore.symm.trans hread)

mutual

/-- **What is not storable is not read at all.** -/
theorem value_text_none (hfl : FloatSpelling fl) (hsep : sep.Legal) :
    ∀ (v : Wire) (fuel : ℕ) (rest : List Char),
    v.storable = false → value fuel (v.text fl sep ++ rest) = none
  | .float (.inf negative), fuel, rest, _ => by
      rw [Wire.text, hfl.inf]
      cases negative
      · exact value_infinity fuel _
      · exact value_neg_infinity fuel _
  | .float .nan, fuel, rest, _ => by
      rw [Wire.text, hfl.nan]
      exact value_nan fuel rest
  | .str s, 0, rest, _ => rfl
  | .str s, fuel + 1, rest, hs => by
      have hs : s.clean = false := hs
      have htext : (Wire.str s).text fl sep ++ rest = '"' ::
          (s.flatMap PyChar.escape ++ '"' :: rest) := by
        simp [Wire.text, PyStr.quote]
      rw [htext, value_string, stringTail_quote_of, if_neg (by simp [hs])]
  | .arr (x :: xs), 0, rest, _ => rfl
  | .arr (x :: xs), fuel + 1, rest, hs => by
      obtain ⟨c, tail, htext, hblank, hclose⟩ := opens_textItems hfl sep x xs
      have hitems := items_text_none hfl hsep x xs fuel rest hs
      have hsplit : (Wire.arr (x :: xs)).text fl sep ++ rest =
          '[' :: (Wire.textItems fl sep (x :: xs) ++ ']' :: rest) := by
        simp [Wire.text]
      rw [hsplit]
      rw [htext, List.cons_append] at hitems ⊢
      rw [value_array fuel hblank hclose, hitems]
  | .obj ((k, x) :: xs), 0, rest, _ => rfl
  | .obj ((k, x) :: xs), fuel + 1, rest, hs => by
      have hfields := members_text_none hfl hsep k x xs fuel rest hs
      have hsplit : (Wire.obj ((k, x) :: xs)).text fl sep ++ rest =
          '\x7b' :: (Wire.textFields fl sep ((k, x) :: xs) ++ '\x7d' :: rest) := by
        simp [Wire.text]
      obtain ⟨tail, htail⟩ : ∃ tail, Wire.textFields fl sep ((k, x) :: xs) ++ '\x7d' :: rest =
          '"' :: tail := by
        cases xs <;> exact ⟨_, rfl⟩
      rw [hsplit]
      rw [htail] at hfields ⊢
      rw [value_object, hfields]

theorem items_text_none (hfl : FloatSpelling fl) (hsep : sep.Legal) :
    ∀ (x : Wire) (xs : List Wire) (fuel : ℕ) (rest : List Char),
      Wire.storableItems (x :: xs) = false →
      items fuel (Wire.textItems fl sep (x :: xs) ++ ']' :: rest) = none
  | x, xs, 0, rest, _ => rfl
  | x, [], fuel + 1, rest, hs => by
      have hx : x.storable = false := by simpa [Wire.storableItems] using hs
      rw [Wire.textItems, items_succ, value_text_none hfl hsep x fuel _ hx, Option.bind_none]
  | x, y :: xs, fuel + 1, rest, hs => by
      rw [Wire.textItems, List.append_assoc, List.append_assoc, items_succ]
      cases hx : x.storable with
      | false => rw [value_text_none hfl hsep x fuel _ hx, Option.bind_none]
      | true =>
          have hxs : Wire.storableItems (y :: xs) = false := by
            simpa only [Wire.storableItems, hx, Bool.true_and] using hs
          cases hread : value fuel
            (x.text fl sep ++ (sep.item ++ (Wire.textItems fl sep (y :: xs) ++ ']' :: rest))) with
          | none => rfl
          | some left =>
              rw [value_text_left hfl hsep hx (hsep.stops_item _) hread, Option.bind_some,
                readMore_item hsep ']' (fun blanks text h => items_append h fuel text),
                items_text_none hfl hsep y xs fuel rest hxs]

theorem members_text_none (hfl : FloatSpelling fl) (hsep : sep.Legal) :
    ∀ (k : PyStr) (x : Wire) (xs : List (PyStr × Wire)) (fuel : ℕ) (rest : List Char),
      Wire.storableFields ((k, x) :: xs) = false →
        members fuel (Wire.textFields fl sep ((k, x) :: xs) ++ '\x7d' :: rest) = none
  | k, x, xs, 0, rest, _ => rfl
  | k, x, [], fuel + 1, rest, hs => by
      have hx : k.clean = true → x.storable = false := by
        intro hk
        simpa [Wire.storableFields, hk] using hs
      rw [Wire.textFields, List.append_assoc, List.append_assoc, members_succ, readMember_of hsep]
      split
      · next hk => rw [value_text_none hfl hsep x fuel _ (hx hk), Option.bind_none]
      · rfl
  | k, x, (k', y) :: xs, fuel + 1, rest, hs => by
      rw [Wire.textFields, List.append_assoc, List.append_assoc, List.append_assoc,
        List.append_assoc, members_succ,
        readMember_of hsep]
      split
      · next hk =>
          cases hx : x.storable with
          | false => rw [value_text_none hfl hsep x fuel _ hx, Option.bind_none]
          | true =>
              have hxs : Wire.storableFields ((k', y) :: xs) = false := by
                simpa only [Wire.storableFields, hk, hx, Bool.true_and] using hs
              cases hread : value fuel
                  (x.text fl sep ++ (sep.item ++
                    (Wire.textFields fl sep ((k', y) :: xs) ++ '\x7d' :: rest))) with
              | none => rfl
              | some left =>
                  rw [value_text_left hfl hsep hx (hsep.stops_item _) hread, Option.bind_some,
                    readMore_item hsep '\x7d' (fun blanks text h => members_append h fuel text),
                    members_text_none hfl hsep k' y xs fuel rest hxs]
      · rfl

end

/-- **What a strict reader makes of `json.dumps`.** -/
theorem accepts_text_iff (hfl : FloatSpelling fl) (hsep : sep.Legal) (v : Wire) :
    accepts (v.text fl sep) = v.storable := by
  cases hv : v.storable with
  | true =>
      have hread := value_text hfl hsep v ((v.text fl sep).length + 1) [] hv
          (Nat.lt_succ_self _) stops_nil
      rw [List.append_nil] at hread
      rw [accepts, hread]
      rfl
  | false =>
      have hread := value_text_none hfl hsep v ((v.text fl sep).length + 1) [] hv
      rw [List.append_nil] at hread
      rw [accepts, hread]

end

end TaskFleet.Py
