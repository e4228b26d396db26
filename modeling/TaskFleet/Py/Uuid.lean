import Mathlib.Data.List.Basic
import Mathlib.Tactic.Ring

/-!
# `uuid.UUID`

Every id on the wire is a string and every id in the database is a UUID; the
coordinator crosses between the two with `uuid.UUID(str(x))` and `str(u)`.
`Uuid.parse` follows the constructor: it removes `urn:` and `uuid:`, strips
braces, drops hyphens, requires 32 characters and reads them with
`int(hex, 16)`, whose leniency (surrounding blanks, a sign, `0x`, single
underscores) it therefore inherits. Non-ASCII digits and blanks are not read.

The main fact is the round trip: the canonical spelling of a UUID parses back
to it (`Uuid.parse_str`), so the spelling determines the UUID
(`Uuid.str_inj`).
-/

namespace TaskFleet.Py

/-- A UUID is its 128-bit integer. -/
structure Uuid where
  int : Nat
  int_lt : int < 2 ^ 128
  deriving DecidableEq, Repr

/-! ## The pieces of `str` and `int` the constructor uses -/

/-- `s.replace(pat, "")`: `skip` counts the characters of a match still to be
dropped. -/
def removeAll (pat : List Char) : Nat → List Char → List Char
  | _, [] => []
  | skip + 1, _ :: cs => removeAll pat skip cs
  | 0, c :: cs =>
      if pat.isPrefixOf (c :: cs) then removeAll pat (pat.length - 1) cs
      else c :: removeAll pat 0 cs

/-- `s.strip(chars)` for the characters satisfying `p`. -/
def strip (p : Char → Bool) (cs : List Char) : List Char :=
  ((cs.dropWhile p).reverse.dropWhile p).reverse

/-- The blanks `int` ignores around a number. -/
def isBlank (c : Char) : Bool :=
  c ∈ [' ', '\t', '\n', '\r', Char.ofNat 11, Char.ofNat 12]

/-- The value of a hexadecimal digit in either case. -/
def hexValue (c : Char) : Option Nat :=
  if '0' ≤ c ∧ c ≤ '9' then some (c.toNat - 48)
  else if 'a' ≤ c ∧ c ≤ 'f' then some (c.toNat - 87)
  else if 'A' ≤ c ∧ c ≤ 'F' then some (c.toNat - 55)
  else none

/-- Hexadecimal digits with single underscores between them; `afterDigit`
says whether an underscore or the end may come next. -/
def readHex (acc : Nat) (afterDigit : Bool) : List Char → Option Nat
  | [] => if afterDigit then some acc else none
  | c :: cs =>
      if c = '_' then (if afterDigit then readHex acc false cs else none)
      else (hexValue c).bind fun d => readHex (acc * 16 + d) true cs

/-- The optional `0x`, after which one underscore may stand. -/
def dropHexPrefix : List Char → List Char
  | '0' :: x :: cs =>
      if x = 'x' ∨ x = 'X' then (if cs.head? = some '_' then cs.tail else cs)
      else '0' :: x :: cs
  | cs => cs

/-- `int(s, 16)`. -/
def intBase16 (cs : List Char) : Option Int :=
  match strip isBlank cs with
  | '-' :: cs => (readHex 0 false (dropHexPrefix cs)).map fun n => -(n : Int)
  | '+' :: cs => (readHex 0 false (dropHexPrefix cs)).map Int.ofNat
  | cs => (readHex 0 false (dropHexPrefix cs)).map Int.ofNat

namespace Uuid

/-- The range check of `uuid.UUID`. -/
def ofInt (n : Int) : Option Uuid :=
  if h : 0 ≤ n ∧ n < 2 ^ 128 then some ⟨n.toNat, by omega⟩ else none

/-- The characters `uuid.UUID` reads as hexadecimal. -/
def cleaned (cs : List Char) : List Char :=
  (strip (fun c => c ∈ ['{', '}'])
    (removeAll "uuid:".toList 0 (removeAll "urn:".toList 0 cs))).filter (· ≠ '-')

/-- `uuid.UUID(s)`; `none` is `ValueError`. -/
def parse (s : String) : Option Uuid :=
  if (cleaned s.toList).length = 32 then (intBase16 (cleaned s.toList)).bind ofInt else none

/-- The last `k` hexadecimal digits of `n`, most significant first. -/
def hexDigits : Nat → Nat → List Nat
  | 0, _ => []
  | k + 1, n => hexDigits k (n / 16) ++ [n % 16]

/-- The lower-case character of a hexadecimal digit. -/
def hexChar (d : Nat) : Char :=
  if d < 10 then Char.ofNat (48 + d) else Char.ofNat (87 + d)

/-- `'%032x' % u.int`. -/
def hex (u : Uuid) : List Char := (hexDigits 32 u.int).map hexChar

/-- The characters of `str(u)`. -/
def chars (u : Uuid) : List Char :=
  u.hex.take 8 ++ '-' :: ((u.hex.drop 8).take 4 ++ '-' :: ((u.hex.drop 12).take 4 ++
    '-' :: ((u.hex.drop 16).take 4 ++ '-' :: u.hex.drop 20)))

/-- `str(u)`. -/
def str (u : Uuid) : String := String.ofList u.chars

end Uuid

/-! ## The round trip -/

/-- Removing a pattern whose first character does not occur is the identity. -/
theorem removeAll_eq_self (p : Char) (pat : List Char) :
    ∀ cs : List Char, p ∉ cs → removeAll (p :: pat) 0 cs = cs := by
  intro cs
  induction cs with
  | nil => intro _; rfl
  | cons c cs ih =>
      intro h
      have hne : p ≠ c := fun he => h (he ▸ List.mem_cons_self)
      have htail : p ∉ cs := fun hm => h (List.mem_cons_of_mem _ hm)
      simp [removeAll, List.isPrefixOf, hne, ih htail]

/-- Stripping characters that do not occur is the identity. -/
theorem strip_eq_self {p : Char → Bool} {cs : List Char} (h : ∀ c ∈ cs, p c = false) :
    strip p cs = cs := by
  have hdrop : ∀ l : List Char, (∀ c ∈ l, p c = false) → l.dropWhile p = l := by
    intro l hl
    cases l with
    | nil => rfl
    | cons c l => simp [hl c List.mem_cons_self]
  rw [strip, hdrop cs h, hdrop cs.reverse (by simpa using h), List.reverse_reverse]

namespace Uuid

theorem length_hexDigits : ∀ k n, (hexDigits k n).length = k := by
  intro k
  induction k with
  | zero => intro n; rfl
  | succ k ih => intro n; simp [hexDigits, ih]

theorem hexDigits_lt : ∀ k n, ∀ d ∈ hexDigits k n, d < 16 := by
  intro k
  induction k with
  | zero => intro n d hd; simp [hexDigits] at hd
  | succ k ih =>
      intro n d hd
      rcases List.mem_append.mp hd with h | h
      · exact ih _ d h
      · rw [List.mem_singleton.mp h]
        exact Nat.mod_lt _ (by omega)

/-- Reading the digits back from the left rebuilds the number they came from. -/
theorem foldl_hexDigits : ∀ k n acc,
    (hexDigits k n).foldl (fun a d => a * 16 + d) acc = acc * 16 ^ k + n % 16 ^ k := by
  intro k
  induction k with
  | zero => intro n acc; simp [hexDigits, Nat.mod_one]
  | succ k ih =>
      intro n acc
      rw [hexDigits, List.foldl_append, ih]
      simp only [List.foldl_cons, List.foldl_nil]
      have hsplit : n % 16 ^ (k + 1) = n / 16 % 16 ^ k * 16 + n % 16 := by
        rw [pow_succ, Nat.mul_comm (16 ^ k) 16, Nat.mod_mul]
        ring
      rw [hsplit, pow_succ]
      ring

/-- What matters about the sixteen digit characters, decided case by case. -/
theorem hexChar_facts : ∀ d < 16, hexValue (hexChar d) = some d ∧
    hexChar d ∉ ['-', '_', 'u', 'x', 'X', '+', '{', '}'] ∧ isBlank (hexChar d) = false := by
  decide

theorem mem_hex {u : Uuid} {c : Char} (h : c ∈ u.hex) : ∃ d < 16, c = hexChar d := by
  obtain ⟨d, hd, rfl⟩ := List.mem_map.mp h
  exact ⟨d, hexDigits_lt _ _ d hd, rfl⟩

theorem length_hex (u : Uuid) : u.hex.length = 32 := by
  rw [hex, List.length_map, length_hexDigits]

/-- A character that is no digit character does not occur in `u.hex`. -/
theorem not_mem_hex {u : Uuid} {c : Char}
    (hc : c ∈ ['-', '_', 'u', 'x', 'X', '+', '{', '}']) : c ∉ u.hex := by
  intro h
  obtain ⟨d, hd, rfl⟩ := mem_hex h
  exact (hexChar_facts d hd).2.1 hc

theorem mem_chars {u : Uuid} {c : Char} (h : c ∈ u.chars) : c = '-' ∨ c ∈ u.hex := by
  simp only [chars, List.mem_append, List.mem_cons] at h
  rcases h with h | rfl | h | rfl | h | rfl | h | rfl | h
  · exact .inr (List.mem_of_mem_take h)
  · exact .inl rfl
  · exact .inr (List.mem_of_mem_drop (List.mem_of_mem_take h))
  · exact .inl rfl
  · exact .inr (List.mem_of_mem_drop (List.mem_of_mem_take h))
  · exact .inl rfl
  · exact .inr (List.mem_of_mem_drop (List.mem_of_mem_take h))
  · exact .inl rfl
  · exact .inr (List.mem_of_mem_drop h)

/-- Dropping the hyphens of the canonical spelling leaves the digits. -/
theorem filter_chars (u : Uuid) : u.chars.filter (· ≠ '-') = u.hex := by
  have hkeep : ∀ l : List Char, (∀ c ∈ l, c ∈ u.hex) → l.filter (· ≠ '-') = l := by
    intro l hl
    refine List.filter_eq_self.mpr fun c hc => ?_
    have hne : c ≠ '-' := fun he => not_mem_hex (u := u) (by simp) (he ▸ hl c hc)
    simpa using hne
  have htake : ∀ n m, ((u.hex.drop n).take m).filter (· ≠ '-') = (u.hex.drop n).take m :=
    fun n m => hkeep _ fun c hc => List.mem_of_mem_drop (List.mem_of_mem_take hc)
  have h0 := htake 0 8
  rw [List.drop_zero] at h0
  have hlast : (u.hex.drop 20).filter (· ≠ '-') = u.hex.drop 20 :=
    hkeep _ fun c hc => List.mem_of_mem_drop hc
  have hdash : ∀ l : List Char, ('-' :: l).filter (· ≠ '-') = l.filter (· ≠ '-') := by
    intro l
    simp
  have hjoin : ∀ a b : Nat, (u.hex.drop a).take b ++ u.hex.drop (a + b) = u.hex.drop a := by
    intro a b
    rw [← List.drop_drop, List.take_append_drop]
  rw [chars]
  simp only [List.filter_append, hdash, h0, htake, hlast]
  rw [hjoin 16 4, hjoin 12 4, hjoin 8 4, List.take_append_drop]

theorem cleaned_chars (u : Uuid) : cleaned u.chars = u.hex := by
  have hmem : ∀ c ∈ u.chars, c ∉ ['u', '{', '}'] := by
    intro c hc hbad
    rcases mem_chars hc with rfl | h
    · simp at hbad
    · refine not_mem_hex (u := u) ?_ h
      simp only [List.mem_cons, List.not_mem_nil, or_false] at hbad ⊢
      rcases hbad with rfl | rfl | rfl <;> simp
  have hu : 'u' ∉ u.chars := fun h => hmem _ h (by simp)
  rw [cleaned, show "urn:".toList = 'u' :: "rn:".toList by rfl,
    show "uuid:".toList = 'u' :: "uid:".toList by rfl, removeAll_eq_self _ _ _ hu,
    removeAll_eq_self _ _ _ hu, strip_eq_self, filter_chars]
  intro c hc
  have := hmem c hc
  simp only [List.mem_cons, List.not_mem_nil, or_false, not_or] at this
  simp [this.2.1, this.2.2]

/-- Plain digits are read by the positional fold. -/
theorem readHex_map_hexChar : ∀ (ds : List Nat) (acc : Nat) (b : Bool),
    (∀ d ∈ ds, d < 16) → (b = true ∨ ds ≠ []) →
    readHex acc b (ds.map hexChar) = some (ds.foldl (fun a d => a * 16 + d) acc) := by
  intro ds
  induction ds with
  | nil =>
      intro acc b _ hb
      rcases hb with rfl | h
      · rfl
      · exact absurd rfl h
  | cons d ds ih =>
      intro acc b hds _
      have hd := hexChar_facts d (hds d List.mem_cons_self)
      have hunder : hexChar d ≠ '_' := fun he => hd.2.1 (by simp [he])
      rw [List.map_cons, readHex, if_neg hunder, hd.1, Option.bind_some,
        ih (acc * 16 + d) true (fun x hx => hds x (List.mem_cons_of_mem _ hx)) (.inl rfl),
        List.foldl_cons]

theorem dropHexPrefix_hex (u : Uuid) : dropHexPrefix u.hex = u.hex := by
  unfold dropHexPrefix
  split
  · next x cs hcs =>
      have hx : x ∈ u.hex := by rw [hcs]; simp
      have hplain : ¬ (x = 'x' ∨ x = 'X') := by
        rintro (rfl | rfl)
        · exact not_mem_hex (by simp) hx
        · exact not_mem_hex (by simp) hx
      rw [if_neg hplain, hcs]
  · rfl

theorem intBase16_hex (u : Uuid) : intBase16 u.hex = some (u.int : Int) := by
  have hstrip : strip isBlank u.hex = u.hex := by
    refine strip_eq_self fun c hc => ?_
    obtain ⟨d, hd, rfl⟩ := mem_hex hc
    exact (hexChar_facts d hd).2.2
  have hread : readHex 0 false u.hex = some u.int := by
    have hne : hexDigits 32 u.int ≠ [] := by
      intro h
      have := length_hexDigits 32 u.int
      rw [h] at this
      simp at this
    rw [hex, readHex_map_hexChar _ 0 false (hexDigits_lt _ _) (.inr hne), foldl_hexDigits]
    have hlt : u.int < 16 ^ 32 := by
      have := u.int_lt
      norm_num at this ⊢
      exact this
    rw [Nat.zero_mul, Nat.zero_add, Nat.mod_eq_of_lt hlt]
  unfold intBase16
  rw [hstrip]
  split
  · next cs hcs => exact absurd (by rw [hcs]; simp) (not_mem_hex (u := u) (c := '-') (by simp))
  · next cs hcs => exact absurd (by rw [hcs]; simp) (not_mem_hex (u := u) (c := '+') (by simp))
  · rw [dropHexPrefix_hex, hread]
    rfl

/-- **Round trip.** `uuid.UUID(str(u))` is `u`. -/
@[simp] theorem parse_str (u : Uuid) : parse u.str = some u := by
  have hto : u.str.toList = u.chars := by simp [str]
  rw [parse, hto, cleaned_chars, if_pos (length_hex u), intBase16_hex, Option.bind_some, ofInt]
  have hlt := u.int_lt
  rw [dif_pos ⟨by omega, by exact_mod_cast hlt⟩]
  simp

/-- Distinct UUIDs are spelled differently. -/
theorem str_inj {u v : Uuid} : u.str = v.str ↔ u = v := by
  constructor
  · intro h
    have := congrArg parse h
    rwa [parse_str, parse_str, Option.some.injEq] at this
  · rintro rfl
    rfl

/-- No canonical spelling is the empty string, which the handlers read as "no
task id". -/
theorem str_ne_empty (u : Uuid) : u.str ≠ "" := by
  intro h
  have hempty : parse "" = none := by decide
  rw [← h, parse_str] at hempty
  exact absurd hempty (by simp)

end Uuid

end TaskFleet.Py
