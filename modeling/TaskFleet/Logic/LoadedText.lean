import TaskFleet.Logic.Numerals

/-!
# What `json.dumps` writes is read back

`json.loads` returns the value that `json.dumps` has spelled (`loads_text`). Left out are
the integers that the interpreter refuses to spell, strings in which two surrogates stand
like a pair, and what is nested too deep.
-/

namespace TaskFleet.Py

open StrictJson

/-! ## Strings -/

section

variable {a b c : PyChar} {rest : List Char}

theorem PyChar.ext_code (h : a.code = b.code) : a = b := by
  cases a
  cases b
  cases h
  rfl

theorem PyChar.ofUnit_code (c : PyChar) : PyChar.ofUnit c.code = c :=
  PyChar.ext_code (Nat.mod_eq_of_lt c.code_lt)

/-- The characters of the code units, surrogates among them. -/
def PyChar.halves (c : PyChar) : PyStr := c.units.map PyChar.ofUnit

theorem halves_basic (h : c.code < 65536) : c.halves = [c] := by
  rw [PyChar.halves, PyChar.units, if_pos h, List.map_singleton, PyChar.ofUnit_code]

/-- The code of a code unit. -/
theorem ofUnit_code_of_lt {n : ℕ} (h : n < 65536) : (PyChar.ofUnit n).code = n :=
  Nat.mod_eq_of_lt (h.trans (by decide))

/-- Two halves are joined to the character they came from. -/
theorem halves_pair (h : ¬ c.code < 65536) : ∃ high low, c.halves = [high, low] ∧
    isHigh high.code = true ∧ isLow low.code = true ∧ isLow high.code = false ∧
      PyChar.ofPair high low = c := by
  have hc := c.code_lt
  have hhigh := ofUnit_code_of_lt (n := 55296 + (c.code - 65536) / 1024) (by omega)
  have hlow := ofUnit_code_of_lt (n := 56320 + (c.code - 65536) % 1024) (by omega)
  refine ⟨.ofUnit (55296 + (c.code - 65536) / 1024), .ofUnit (56320 + (c.code - 65536) % 1024),
    by rw [PyChar.halves, PyChar.units, if_neg h]; rfl, ?_, ?_, ?_, PyChar.ext_code ?_⟩
  · rw [hhigh, isHigh, decide_eq_true_eq]
    omega
  · rw [hlow, isLow, decide_eq_true_eq]
    omega
  · rw [hhigh, isLow, decide_eq_false_iff_not]
    omega
  · rw [PyChar.ofPair, hhigh, hlow]
    show (0x10000 + (55296 + (c.code - 65536) / 1024 - 0xd800) * 1024 +
      (56320 + (c.code - 65536) % 1024 - 0xdc00)) % 0x110000 = c.code
    omega

theorem joinPairs_pair (ha : isHigh a.code = true) (hb : isLow b.code = true) (s : PyStr) :
    joinPairs (a :: b :: s) = .ofPair a b :: joinPairs s := by
  rw [joinPairs, ha, hb]
  rfl

theorem joinPairs_cons {s : PyStr} (h : ∀ b ∈ s.head?, (isHigh a.code && isLow b.code) = false) :
    joinPairs (a :: s) = a :: joinPairs s := by
  cases s with
  | nil => rfl
  | cons b s =>
      rw [joinPairs, h b rfl]
      rfl

/-- Joining undoes the splitting into code units, and nothing else. -/
theorem joinPairs_halves (s : PyStr) : joinPairs (s.flatMap PyChar.halves) = joinPairs s := by
  fun_induction joinPairs s with
  | case1 a b rest hpair ih =>
      obtain ⟨ha, hb⟩ := Bool.and_eq_true_iff.mp hpair
      have hbasic : a.code < 65536 ∧ b.code < 65536 := by
        simp only [isHigh, isLow, decide_eq_true_eq] at ha hb
        omega
      rw [List.flatMap_cons, List.flatMap_cons, halves_basic hbasic.1, halves_basic hbasic.2]
      show joinPairs (a :: b :: rest.flatMap PyChar.halves) = _
      rw [joinPairs_pair ha hb, ih]
  | case2 a b rest hpair ih =>
      rw [List.flatMap_cons]
      by_cases ha : a.code < 65536
      · rw [halves_basic ha]
        show joinPairs (a :: (b :: rest).flatMap PyChar.halves) = _
        rw [joinPairs_cons, ih]
        -- what comes first of `b` makes no pair with `a`
        intro d hd
        rw [List.flatMap_cons] at hd
        by_cases hb : b.code < 65536
        · rw [halves_basic hb] at hd
          cases hd
          exact Bool.eq_false_iff.mpr hpair
        · obtain ⟨high, low, heq, -, -, hnot, -⟩ := halves_pair hb
          rw [heq] at hd
          cases hd
          rw [hnot, Bool.and_false]
      · obtain ⟨high, low, heq, hhigh, hlow, -, hjoin⟩ := halves_pair ha
        rw [heq]
        show joinPairs (high :: low :: (b :: rest).flatMap PyChar.halves) = _
        rw [joinPairs_pair hhigh hlow, hjoin, ih]
  | case3 a =>
      rw [List.flatMap_cons, List.flatMap_nil, List.append_nil]
      by_cases ha : a.code < 65536
      · rw [halves_basic ha]
        rfl
      · obtain ⟨high, low, heq, hhigh, hlow, -, hjoin⟩ := halves_pair ha
        rw [heq, joinPairs_pair hhigh hlow, hjoin]
        rfl
  | case4 => rfl

theorem scanString_quote (rest : List Char) : scanString ('"' :: rest) = some ([], rest) := by
  rw [scanString]

theorem scanString_unit {unit : ℕ} (h : unit < 65536) (rest : List Char) :
    scanString ('\\' :: 'u' :: (hexDigits unit ++ rest)) =
      (scanString rest).map fun s => (.ofUnit unit :: s.1, s.2) := by
  simp only [hexDigits, List.cons_append, List.nil_append]
  rw [scanString, hexUnit_hexDigits h]

theorem scanString_short {e d : Char} (h : shortEscape e = some d) (rest : List Char) :
    scanString ('\\' :: e :: rest) = (scanString rest).map fun s => (.ofChar d :: s.1, s.2) := by
  have hu : e ≠ 'u' := by
    rintro rfl
    cases h
  rw [scanString]
  · rw [h]
  · intro a b c d rest' heq _
    exact hu heq

theorem scanString_plain {d : Char} (hquote : d ≠ '"') (hslash : d ≠ '\\') (hblank : ' ' ≤ d)
    (rest : List Char) :
    scanString (d :: rest) = (scanString rest).map fun s => (.ofChar d :: s.1, s.2) := by
  rw [scanString]
  · rw [if_pos hblank]
  · exact hquote
  · intro a b c' d rest' heq _
    exact hslash heq
  · intro c' rest' heq _
    exact hslash heq

theorem scanString_units {units : List ℕ} (h : ∀ unit ∈ units, unit < 65536) (rest : List Char) :
    scanString ((units.flatMap fun unit => '\\' :: 'u' :: hexDigits unit) ++ rest) =
      (scanString rest).map fun s => (units.map PyChar.ofUnit ++ s.1, s.2) := by
  induction units with
  | nil =>
      cases hs : scanString rest <;> simp [hs]
  | cons unit units ih =>
      rw [List.flatMap_cons, List.append_assoc, List.cons_append, List.cons_append,
        scanString_unit (h unit List.mem_cons_self),
        ih fun u hu => h u (List.mem_cons_of_mem _ hu), Option.map_map]
      rfl

/-- The code point of a character that stands for itself. -/
theorem toNat_ofNat_plain : ∀ n < 127, (Char.ofNat n).toNat = n := by decide

/-- **One character.** Its escape is read as the characters of its code units. -/
theorem scanString_escape (c : PyChar) (rest : List Char) :
    scanString (c.escape ++ rest) =
      (scanString rest).map fun s => (c.halves ++ s.1, s.2) := by
  have hself : ∀ {d : Char}, d.toNat = c.code → c.code < 65536 →
      ((scanString rest).map fun s => (PyChar.ofChar d :: s.1, s.2)) =
        (scanString rest).map fun s => (c.halves ++ s.1, s.2) := by
    intro d hd hbasic
    have hc : PyChar.ofChar d = c := PyChar.ext_code hd
    rw [halves_basic hbasic, hc]
    rfl
  have hshort : ∀ {e d : Char}, shortEscape e = some d → d.toNat = c.code → c.code < 65536 →
      scanString (['\\', e] ++ rest) =
        (scanString rest).map fun s => (c.halves ++ s.1, s.2) := by
    intro e d he hd hbasic
    exact (scanString_short he rest).trans (hself hd hbasic)
  unfold PyChar.escape
  split_ifs with h1 h2 h3 h4 h5 h6 h7 h8
  · exact hshort (d := '"') rfl h1.symm (by omega)
  · exact hshort (d := '\\') rfl h2.symm (by omega)
  · exact hshort (d := '\n') rfl h3.symm (by omega)
  · exact hshort (d := '\r') rfl h4.symm (by omega)
  · exact hshort (d := '\t') rfl h5.symm (by omega)
  · exact hshort (d := '\x08') rfl h6.symm (by omega)
  · exact hshort (d := '\x0c') rfl h7.symm (by omega)
  · obtain ⟨⟨hquote, hslash⟩, hblank⟩ := ofNat_plain c.code (by omega) h8.1 ⟨h1, h2⟩
    exact (scanString_plain hquote hslash hblank rest).trans
      (hself (toNat_ofNat_plain c.code (by omega)) (by omega))
  · exact scanString_units c.units_lt rest

/-- **Strings.** A literal is read to its quote. -/
theorem scanString_escapes (s : PyStr) (rest : List Char) :
    scanString (s.flatMap PyChar.escape ++ '"' :: rest) = some (s.flatMap PyChar.halves, rest) := by
  induction s with
  | nil => exact scanString_quote rest
  | cons c s ih =>
      rw [List.flatMap_cons, List.append_assoc, scanString_escape, ih, List.flatMap_cons]
      rfl

end

/-! ## Values -/

/-- What a text can carry. -/
def Carried (v : Wire) : Prop := v.Native ∧ v.Spellable ∧ v.Joined

section

variable {c : Char} {text rest : List Char}

theorem scanScalar_of_digit (h : c.isDigit = true) (rest : List Char) :
    scanScalar (c :: rest) = scanNumber (c :: rest) := by
  have hne : ∀ d : Char, d.isDigit = false → (d == c) = false := by
    intro d hd
    rw [beq_eq_false_iff_ne]
    rintro rfl
    rw [hd] at h
    cases h
  have hfind : namedValues.find? (fun named => named.1.isPrefixOf (c :: rest)) = none := by
    simp [namedValues, List.find?, List.isPrefixOf, hne 'n' rfl, hne 't' rfl, hne 'f' rfl,
      hne 'N' rfl, hne 'I' rfl, hne '-' rfl]
  rw [scanScalar, hfind]

theorem scanScalar_of_minus (h : c.isDigit = true) (rest : List Char) :
    scanScalar ('-' :: c :: rest) = scanNumber ('-' :: c :: rest) := by
  have hne : ('I' == c) = false := by
    rw [beq_eq_false_iff_ne]
    rintro rfl
    cases h
  have hfind : namedValues.find? (fun named => named.1.isPrefixOf ('-' :: c :: rest)) = none := by
    simp [namedValues, List.find?, List.isPrefixOf, hne]
  rw [scanScalar, hfind]

/-- What the strict grammar takes for a number has no name. -/
theorem scanScalar_of_number (h : number text = some []) (rest : List Char) :
    scanScalar (text ++ rest) = scanNumber (text ++ rest) := by
  obtain ⟨c, tail, rfl, hc⟩ := number_head h
  rcases hc with hdigit | rfl
  · exact scanScalar_of_digit hdigit _
  · rw [number, onHead_self] at h
    obtain ⟨d, tail', rfl, hd⟩ := unsigned_head h
    exact scanScalar_of_minus hd _

theorem readWire_scalar {items : ℕ → List Char → Option (List Wire × List Char)}
    {members : ℕ → List Char → Option (List (PyStr × Wire) × List Char)} {depth : ℕ}
    (h : number text = some []) (rest : List Char) :
    readWire items members depth (text ++ rest) = scanNumber (text ++ rest) := by
  rw [← scanScalar_of_number h]
  obtain ⟨c, tail, rfl, hc⟩ := number_head h
  have hne : ∀ d : Char, d.isDigit = false → d ≠ '-' → c ≠ d := fun d hd hminus =>
    numberHead_ne hc hd hminus
  rw [List.cons_append, readWire, skip_cons (numberHead_not_blank hc)]
  show (if _ then _ else _) = _
  rw [if_neg (hne _ rfl (by decide)), if_neg (hne _ rfl (by decide)),
    if_neg (hne _ rfl (by decide))]

theorem scanValue_append {blanks : List Char} (h : blanks.all isWhitespace = true)
    (fuel depth : ℕ) (text : List Char) :
    scanValue fuel depth (blanks ++ text) = scanValue fuel depth text := by
  cases fuel with
  | zero => rfl
  | succ fuel =>
      show readWire _ _ depth (blanks ++ text) = readWire _ _ depth text
      rw [readWire, readWire, skip_append h]

theorem scanItems_append {blanks : List Char} (h : blanks.all isWhitespace = true)
    (fuel depth : ℕ) (text : List Char) :
    scanItems fuel depth (blanks ++ text) = scanItems fuel depth text := by
  cases fuel with
  | zero => rfl
  | succ fuel =>
      show (scanValue fuel depth (blanks ++ text)).bind _ = (scanValue fuel depth text).bind _
      rw [scanValue_append h]

theorem scanMembers_append {blanks : List Char} (h : blanks.all isWhitespace = true)
    (fuel depth : ℕ) (text : List Char) :
    scanMembers fuel depth (blanks ++ text) = scanMembers fuel depth text := by
  cases fuel with
  | zero => rfl
  | succ fuel =>
      show (scanMember _ (blanks ++ text)).bind _ = (scanMember _ text).bind _
      rw [scanMember, scanMember, skip_append h]

/-! ## Entries -/

variable {α : Type} {entries : List Char → Option (List α × List Char)} {sep : Separators}

theorem scanMore_close {close : Char} (hblank : isWhitespace close = false) (hcomma : close ≠ ',')
    (x : α) (rest : List Char) : scanMore close entries x (close :: rest) = some ([x], rest) := by
  rw [scanMore, skip_cons hblank]
  show (if _ then _ else _) = _
  rw [if_neg hcomma, if_pos rfl]

theorem scanMore_item (hsep : sep.Legal) (close : Char)
    (hentries : ∀ blanks text, blanks.all isWhitespace = true →
      entries (blanks ++ text) = entries text) (x : α) (rest : List Char) :
    scanMore close entries x (sep.item ++ rest) =
      (entries rest).map fun xs => (x :: xs.1, xs.2) := by
  obtain ⟨blanks, hitem, hblank⟩ := hsep.item
  rw [hitem, List.cons_append, scanMore, skip_cons rfl]
  show (if _ then _ else _) = _
  rw [if_pos rfl, hentries blanks rest hblank]

theorem scanMember_of (hsep : sep.Legal) {k : PyStr} (hk : joinPairs k = k) (fuel depth : ℕ)
    (rest : List Char) :
    scanMember (scanValue fuel depth) (k.quote ++ (sep.key ++ rest)) =
      (scanValue fuel depth rest).map fun v => ((k, v.1), v.2) := by
  obtain ⟨blanks, hkey, hblank⟩ := hsep.key
  have hquote : k.quote ++ (sep.key ++ rest) =
      '"' :: (k.flatMap PyChar.escape ++ '"' :: (':' :: (blanks ++ rest))) := by
    simp [PyStr.quote, hkey]
  rw [hquote, scanMember, skip_cons rfl]
  show (if _ then _ else _) = _
  rw [if_pos rfl, scanString_escapes, Option.bind_some]
  simp only [skip_cons (show isWhitespace ':' = false from rfl), if_true, joinPairs_halves, hk,
    scanValue_append hblank]

/-- A dictionary whose keys are different is built from its pairs. -/
theorem dictOf_of_nodup {fields : List (PyStr × Wire)} (h : (fields.map Prod.fst).Nodup) :
    dictOf fields = fields := by
  have hall : ∀ (pairs : List (PyStr × Wire)) (d : Dict PyStr Wire),
      (d.rows ++ pairs).map Prod.fst |>.Nodup →
      (pairs.foldl (fun d pair => d.set pair.1 pair.2) d).rows = d.rows ++ pairs := by
    intro pairs
    induction pairs with
    | nil =>
        intro d _
        rw [List.foldl_nil, List.append_nil]
    | cons pair pairs ih =>
        intro d hd
        have hnot : pair.1 ∉ d.rows.map Prod.fst := by
          intro hmem
          rw [List.map_append] at hd
          exact (List.disjoint_of_nodup_append hd) hmem (List.mem_map_of_mem List.mem_cons_self)
        have hset : (d.set pair.1 pair.2).rows = d.rows ++ [pair] := by
          rw [Dict.set, if_neg (by simpa [Dict.keys] using hnot), Table.insert, dif_neg hnot]
        rw [List.foldl_cons, ih _ (by rw [hset, List.append_assoc]; exact hd), hset,
          List.append_assoc]
        rfl
  exact hall fields Dict.empty h

end

/-! ## The round trip -/

section

variable {sep : Separators}

theorem Wire.Everywhere.self {p : Wire → Prop} : ∀ {v : Wire}, v.Everywhere p → p v
  | .null, h | .bool _, h | .int _, h | .float _, h | .str _, h => h
  | .arr _, h | .obj _, h => h.1

/-- A value that is spelled like a number is read as one. -/
theorem scanValue_number {text rest : List Char} (h : number text = some []) {v : Wire}
    (hread : scanNumber (text ++ rest) = some (v, rest)) (fuel depth : ℕ) :
    scanValue (fuel + 1) depth (text ++ rest) = some (v, rest) := by
  show readWire _ _ depth (text ++ rest) = _
  rw [readWire_scalar h, hread]

/-- Inside an array that is not empty stand its items. -/
theorem scanInside_of_opens {α : Type} {text : List Char} {close : Char}
    {entries : ℕ → List Char → Option (List α × List Char)}
    (h : ∃ c tail, text = c :: tail ∧ isWhitespace c = false ∧ c ≠ close) (depth : ℕ) :
    scanInside close entries (depth + 1) text = entries depth text := by
  obtain ⟨c, tail, rfl, hblank, hclose⟩ := h
  rw [scanInside, skip_cons hblank]
  show (if _ then _ else _) = _
  rw [if_neg hclose]

theorem scanValue_arr (fuel depth : ℕ) (text : List Char) :
    scanValue (fuel + 1) depth ('[' :: text) =
      (scanInside ']' (scanItems fuel) depth text).map fun xs => (.arr xs.1, xs.2) := rfl

theorem scanValue_obj (fuel depth : ℕ) (text : List Char) :
    scanValue (fuel + 1) depth ('\x7b' :: text) =
      (scanInside '\x7d' (scanMembers fuel) depth text).map fun xs => (.obj (dictOf xs.1), xs.2) :=
  rfl

theorem scanValue_str (fuel depth : ℕ) (text : List Char) :
    scanValue (fuel + 1) depth ('"' :: text) =
      (scanString text).map fun s => (.str (joinPairs s.1), s.2) := rfl

mutual

/-- **Values.** What is spelled is read back, whatever stops it. -/
theorem scanValue_text (hsep : sep.Legal) :
    ∀ (v : Wire) (fuel depth : ℕ) (rest : List Char), v.Everywhere Carried → v.depth ≤ depth →
      (v.text cpython sep).length < fuel → Stops rest →
        scanValue fuel depth (v.text cpython sep ++ rest) = some (v, rest)
  | .null, fuel + 1, depth, rest, _, _, _, _ => rfl
  | .bool true, fuel + 1, depth, rest, _, _, _, _ => rfl
  | .bool false, fuel + 1, depth, rest, _, _, _, _ => rfl
  | .int n, fuel + 1, depth, rest, hv, _, _, hrest =>
      scanValue_number (number_toString n) (scanNumber_toString hv.2.1 hrest) fuel depth
  | .float (.finite x), fuel + 1, depth, rest, hv, _, _, hrest =>
      scanValue_number (number_repr x) (scanNumber_repr hv.1 hrest) fuel depth
  | .float .negZero, fuel + 1, depth, rest, _, _, _, hrest =>
      scanValue_number number_negZero (scanNumber_negZero hrest) fuel depth
  | .float (.inf true), fuel + 1, depth, rest, _, _, _, _ => rfl
  | .float (.inf false), fuel + 1, depth, rest, _, _, _, _ => rfl
  | .float .nan, fuel + 1, depth, rest, _, _, _, _ => rfl
  | .str s, fuel + 1, depth, rest, hv, _, _, _ => by
      have hjoined : joinPairs s = s := hv.2.2
      have htext : (Wire.str s).text cpython sep ++ rest =
          '"' :: (s.flatMap PyChar.escape ++ '"' :: rest) := by
        simp [Wire.text, PyStr.quote]
      rw [htext, scanValue_str, scanString_escapes, Option.map_some, joinPairs_halves, hjoined]
  | .arr [], fuel + 1, 0, rest, _, hdepth, _, _ => absurd hdepth (by simp [Wire.depth])
  | .arr [], fuel + 1, depth + 1, rest, _, _, _, _ => rfl
  | .arr (x :: xs), fuel + 1, 0, rest, _, hdepth, _, _ => absurd hdepth (by simp [Wire.depth])
  | .arr (x :: xs), fuel + 1, depth + 1, rest, hv, hdepth, hlen, _ => by
      obtain ⟨c, tail, htext, hblank, hclose⟩ := opens_textItems cpython_spelling sep x xs
      have hlen' : (Wire.textItems cpython sep (x :: xs)).length + 1 < fuel := by
        simp only [Wire.text, List.length_cons, List.length_append, List.length_nil] at hlen
        omega
      have hdepth' : Wire.depthItems (x :: xs) ≤ depth := by
        rw [Wire.depth] at hdepth
        omega
      have hsplit : (Wire.arr (x :: xs)).text cpython sep ++ rest =
          '[' :: (Wire.textItems cpython sep (x :: xs) ++ ']' :: rest) := by
        simp [Wire.text]
      rw [hsplit, scanValue_arr, scanInside_of_opens ⟨c, tail ++ ']' :: rest, by rw [htext]; rfl,
        hblank, hclose⟩, scanItems_text hsep x xs fuel depth rest hv.2 hdepth' hlen']
      rfl
  | .obj [], fuel + 1, 0, rest, _, hdepth, _, _ => absurd hdepth (by simp [Wire.depth])
  | .obj [], fuel + 1, depth + 1, rest, _, _, _, _ => rfl
  | .obj ((k, x) :: xs), fuel + 1, 0, rest, _, hdepth, _, _ =>
      absurd hdepth (by simp [Wire.depth])
  | .obj ((k, x) :: xs), fuel + 1, depth + 1, rest, hv, hdepth, hlen, _ => by
      have hlen' : (Wire.textFields cpython sep ((k, x) :: xs)).length + 1 < fuel := by
        simp only [Wire.text, List.length_cons, List.length_append, List.length_nil] at hlen
        omega
      have hdepth' : Wire.depthFields ((k, x) :: xs) ≤ depth := by
        rw [Wire.depth] at hdepth
        omega
      have hsplit : (Wire.obj ((k, x) :: xs)).text cpython sep ++ rest =
          '\x7b' :: (Wire.textFields cpython sep ((k, x) :: xs) ++ '\x7d' :: rest) := by
        simp [Wire.text]
      obtain ⟨tail, htail⟩ : ∃ tail, Wire.textFields cpython sep ((k, x) :: xs) ++ '\x7d' :: rest =
          '"' :: tail := by
        cases xs <;> exact ⟨_, rfl⟩
      have hnodup : (((k, x) :: xs).map Prod.fst).Nodup := hv.1.1
      rw [hsplit, scanValue_obj, scanInside_of_opens ⟨'"', tail, htail, rfl, by decide⟩,
        scanMembers_text hsep k x xs fuel depth rest hv.2 hv.1.2.2 hdepth' hlen', Option.map_some,
        dictOf_of_nodup hnodup]

theorem scanItems_text (hsep : sep.Legal) :
    ∀ (x : Wire) (xs : List Wire) (fuel depth : ℕ) (rest : List Char),
      Wire.EverywhereItems Carried (x :: xs) → Wire.depthItems (x :: xs) ≤ depth →
      (Wire.textItems cpython sep (x :: xs)).length + 1 < fuel →
        scanItems fuel depth (Wire.textItems cpython sep (x :: xs) ++ ']' :: rest) =
          some (x :: xs, rest)
  | x, [], fuel + 1, depth, rest, hv, hdepth, hlen => by
      have hx : x.depth ≤ depth := (le_max_left _ _).trans hdepth
      have hread := scanValue_text hsep x fuel depth (']' :: rest) hv.1 hx
        (by simp only [Wire.textItems] at hlen; omega) (stops_bracket rest)
      show (scanValue fuel depth (x.text cpython sep ++ ']' :: rest)).bind _ = _
      rw [hread, Option.bind_some, scanMore_close rfl (by decide)]
  | x, y :: xs, fuel + 1, depth, rest, hv, hdepth, hlen => by
      have hx : x.depth ≤ depth := (le_max_left _ _).trans hdepth
      have hxs : Wire.depthItems (y :: xs) ≤ depth := (le_max_right _ _).trans hdepth
      have hitem := hsep.item_length
      simp only [Wire.textItems, List.length_append] at hlen
      have hread := scanValue_text hsep x fuel depth
        (sep.item ++ (Wire.textItems cpython sep (y :: xs) ++ ']' :: rest)) hv.1 hx (by omega)
        (hsep.stops_item _)
      have hmore := scanItems_text hsep y xs fuel depth rest hv.2 hxs
        (by have := (x.text cpython sep).length; omega)
      rw [Wire.textItems, List.append_assoc, List.append_assoc]
      show (scanValue fuel depth _).bind _ = _
      rw [hread, Option.bind_some, scanMore_item hsep ']' fun blanks text h =>
        scanItems_append h fuel depth text, hmore]
      rfl

theorem scanMembers_text (hsep : sep.Legal) :
    ∀ (k : PyStr) (x : Wire) (xs : List (PyStr × Wire)) (fuel depth : ℕ) (rest : List Char),
      Wire.EverywhereFields Carried ((k, x) :: xs) →
      (∀ k' ∈ ((k, x) :: xs).map Prod.fst, joinPairs k' = k') →
      Wire.depthFields ((k, x) :: xs) ≤ depth →
      (Wire.textFields cpython sep ((k, x) :: xs)).length + 1 < fuel →
        scanMembers fuel depth (Wire.textFields cpython sep ((k, x) :: xs) ++ '\x7d' :: rest) =
          some ((k, x) :: xs, rest)
  | k, x, [], fuel + 1, depth, rest, hv, hkeys, hdepth, hlen => by
      have hx : x.depth ≤ depth := (le_max_left _ _).trans hdepth
      have hk := hkeys k List.mem_cons_self
      simp only [Wire.textFields, List.length_append] at hlen
      have hread := scanValue_text hsep x fuel depth ('\x7d' :: rest) hv.1 hx (by omega)
        (stops_brace rest)
      rw [Wire.textFields, List.append_assoc, List.append_assoc]
      show (scanMember (scanValue fuel depth) _).bind _ = _
      rw [scanMember_of hsep hk, hread, Option.map_some, Option.bind_some,
        scanMore_close rfl (by decide)]
  | k, x, (k', y) :: xs, fuel + 1, depth, rest, hv, hkeys, hdepth, hlen => by
      have hx : x.depth ≤ depth := (le_max_left _ _).trans hdepth
      have hxs : Wire.depthFields ((k', y) :: xs) ≤ depth := (le_max_right _ _).trans hdepth
      have hk := hkeys k List.mem_cons_self
      have hitem := hsep.item_length
      simp only [Wire.textFields, List.length_append] at hlen
      have hread := scanValue_text hsep x fuel depth
        (sep.item ++ (Wire.textFields cpython sep ((k', y) :: xs) ++ '\x7d' :: rest)) hv.1 hx
        (by omega) (hsep.stops_item _)
      have hmore := scanMembers_text hsep k' y xs fuel depth rest hv.2
        (fun k'' hk'' => hkeys k'' (List.mem_cons_of_mem _ hk'')) hxs (by omega)
      rw [Wire.textFields, List.append_assoc, List.append_assoc, List.append_assoc,
        List.append_assoc]
      show (scanMember (scanValue fuel depth) _).bind _ = _
      rw [scanMember_of hsep hk, hread, Option.map_some, Option.bind_some,
        scanMore_item hsep '\x7d' fun blanks text h => scanMembers_append h fuel depth text, hmore]
      rfl

end

/-! ## What is carried -/

section

variable {p q : Wire → Prop}

mutual

theorem Wire.Everywhere.and : ∀ {v : Wire}, v.Everywhere p → v.Everywhere q →
    v.Everywhere fun v => p v ∧ q v
  | .null, hp, hq | .bool _, hp, hq | .int _, hp, hq | .float _, hp, hq | .str _, hp, hq => ⟨hp, hq⟩
  | .arr _, hp, hq => ⟨⟨hp.1, hq.1⟩, everywhereItems_and hp.2 hq.2⟩
  | .obj _, hp, hq => ⟨⟨hp.1, hq.1⟩, everywhereFields_and hp.2 hq.2⟩

theorem everywhereItems_and : ∀ {items : List Wire}, Wire.EverywhereItems p items →
    Wire.EverywhereItems q items → Wire.EverywhereItems (fun v => p v ∧ q v) items
  | [], _, _ => trivial
  | _ :: _, hp, hq => ⟨hp.1.and hq.1, everywhereItems_and hp.2 hq.2⟩

theorem everywhereFields_and : ∀ {fields : List (PyStr × Wire)}, Wire.EverywhereFields p fields →
    Wire.EverywhereFields q fields → Wire.EverywhereFields (fun v => p v ∧ q v) fields
  | [], _, _ => trivial
  | (_, _) :: _, hp, hq => ⟨hp.1.and hq.1, everywhereFields_and hp.2 hq.2⟩

end

end

/-- Where there is no high surrogate, there is nothing to join. -/
theorem joinPairs_of_forall {s : PyStr} (h : ∀ c ∈ s, isHigh c.code = false) : joinPairs s = s := by
  induction s with
  | nil => rfl
  | cons c s ih =>
      rw [joinPairs_cons, ih fun d hd => h d (List.mem_cons_of_mem _ hd)]
      intro b _
      rw [h c List.mem_cons_self, Bool.false_and]

/-- A literal of the source has no surrogates. -/
theorem joinPairs_pyStr (s : String) : joinPairs (pyStr s) = pyStr s := by
  refine joinPairs_of_forall fun d hd => ?_
  obtain ⟨c, -, rfl⟩ := List.mem_map.mp hd
  have hvalid := c.valid
  simp only [UInt32.isValidChar, Nat.isValidChar] at hvalid
  refine decide_eq_false fun h => ?_
  have hlow : 0xd800 ≤ c.val.toNat := h.1
  have hhigh : c.val.toNat < 0xdc00 := h.2
  omega

/-- **The round trip.** `json.loads(json.dumps(v))` is `v`. -/
theorem loads_text (hsep : sep.Legal) {v : Wire} (hv : v.Everywhere Carried) {depth : ℕ}
    (hdepth : v.depth ≤ depth) : loads depth (v.text cpython sep) = some v := by
  have hread := scanValue_text hsep v _ depth [] hv hdepth (Nat.lt_succ_self _) stops_nil
  rw [List.append_nil] at hread
  rw [loads, hread]
  rfl

end

end TaskFleet.Py
