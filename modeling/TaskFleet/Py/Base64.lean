import TaskFleet.Py.Wire
import Mathlib.Tactic.Common

/-!
# `base64`

`b64decode` with `validate=True` is `binascii.a2b_base64` in strict mode, which is one
pass over the characters. It knows where in a group of four it is, the bits left over of
the last character, and what padding it has seen. `b64encode` goes by groups of three, and
the pass takes each of them apart again.
-/

namespace TaskFleet.Py

namespace Base64

/-- The characters of the values below 64. -/
def alphabet : List Char :=
  "ABCDEFGHIJKLMNOPQRSTUVWXYZabcdefghijklmnopqrstuvwxyz0123456789+/".toList

/-- The state of `binascii.a2b_base64`. -/
structure Scan where
  quadPos : ℕ
  leftchar : ℕ
  pads : ℕ
  paddingStarted : Bool

/-- The loop of `binascii.a2b_base64` in strict mode; `none` is `binascii.Error`. -/
def scan (s : Scan) : List Char → Option (List UInt8)
  | [] => if s.quadPos = 0 then some [] else none
  | c :: rest =>
      if c = '=' then
        if 2 ≤ s.quadPos then
          -- the group is full: no data may come behind it
          if 4 ≤ s.quadPos + (s.pads + 1) then if rest = [] then some [] else none
          else scan { s with pads := s.pads + 1, paddingStarted := true } rest
        else scan { s with paddingStarted := true } rest
      else
        match alphabet.idxOf? c with
        | none => none
        | some value =>
            if s.paddingStarted then none
            else if s.quadPos = 0 then scan ⟨1, value, 0, false⟩ rest
            else if s.quadPos = 1 then
              (scan ⟨2, value % 16, 0, false⟩ rest).map
                (UInt8.ofNat (s.leftchar * 4 + value / 16) :: ·)
            else if s.quadPos = 2 then
              (scan ⟨3, value % 4, 0, false⟩ rest).map
                (UInt8.ofNat (s.leftchar * 16 + value / 4) :: ·)
            else
              (scan ⟨0, 0, 0, false⟩ rest).map (UInt8.ofNat (s.leftchar * 64 + value) :: ·)

/-- The character of six bits. -/
def char (value : ℕ) : Char := alphabet.getD (value % 64) '='

end Base64

open Base64

/-- `s.encode("ascii")`, with the bytes as characters. -/
def PyStr.ascii (s : PyStr) : Option (List Char) :=
  if ∀ c ∈ s, c.code < 128 then some (s.map fun c => Char.ofNat c.code) else none

/-- `base64.b64decode(s, validate=True)`; `none` is `binascii.Error` or `ValueError`. -/
def b64decode (s : PyStr) : Option (List UInt8) :=
  s.ascii.bind fun text => if text.head? = some '=' then none else scan ⟨0, 0, 0, false⟩ text

/-- `base64.b64encode(raw).decode("ascii")`. -/
def b64encode : List UInt8 → PyStr
  | a :: b :: c :: rest =>
      [char (a.toNat / 4), char (a.toNat % 4 * 16 + b.toNat / 16),
        char (b.toNat % 16 * 4 + c.toNat / 64), char c.toNat].map PyChar.ofChar ++ b64encode rest
  | [a, b] =>
      [char (a.toNat / 4), char (a.toNat % 4 * 16 + b.toNat / 16), char (b.toNat % 16 * 4),
        '='].map PyChar.ofChar
  | [a] => [char (a.toNat / 4), char (a.toNat % 4 * 16), '=', '='].map PyChar.ofChar
  | [] => []

/-- Four characters for every three bytes that are begun. -/
theorem length_b64encode (raw : List UInt8) :
    (b64encode raw).length = 4 * ((raw.length + 2) / 3) := by
  fun_induction b64encode raw with
  | case1 a b c rest ih =>
      rw [List.length_append, ih]
      simp only [List.map_cons, List.map_nil, List.length_cons, List.length_nil]
      omega
  | case2 a b => simp
  | case3 a => simp
  | case4 => rfl

example : b64encode [77, 97, 110, 33] = pyStr "TWFuIQ==" := by decide

namespace Base64

theorem idxOf_char : ∀ value < 64, alphabet.idxOf? (char value) = some value := by decide +kernel

theorem char_ne_pad : ∀ value < 64, char value ≠ '=' := by decide +kernel

theorem char_ascii : ∀ value < 64, (char value).toNat < 128 := by decide +kernel

/-- The first character of a group only waits for the second. -/
theorem scan_first {value : ℕ} (hvalue : value < 64) (rest : List Char) :
    scan ⟨0, 0, 0, false⟩ (char value :: rest) = scan ⟨1, value, 0, false⟩ rest := by
  rw [scan, if_neg (char_ne_pad value hvalue), idxOf_char value hvalue]
  rfl

theorem scan_second {left value : ℕ} (hvalue : value < 64) (rest : List Char) :
    scan ⟨1, left, 0, false⟩ (char value :: rest) =
      (scan ⟨2, value % 16, 0, false⟩ rest).map (UInt8.ofNat (left * 4 + value / 16) :: ·) := by
  rw [scan, if_neg (char_ne_pad value hvalue), idxOf_char value hvalue]
  rfl

theorem scan_third {left value : ℕ} (hvalue : value < 64) (rest : List Char) :
    scan ⟨2, left, 0, false⟩ (char value :: rest) =
      (scan ⟨3, value % 4, 0, false⟩ rest).map (UInt8.ofNat (left * 16 + value / 4) :: ·) := by
  rw [scan, if_neg (char_ne_pad value hvalue), idxOf_char value hvalue]
  rfl

theorem scan_fourth {left value : ℕ} (hvalue : value < 64) (rest : List Char) :
    scan ⟨3, left, 0, false⟩ (char value :: rest) =
      (scan ⟨0, 0, 0, false⟩ rest).map (UInt8.ofNat (left * 64 + value) :: ·) := by
  rw [scan, if_neg (char_ne_pad value hvalue), idxOf_char value hvalue]
  rfl

theorem char_mod (n : ℕ) : char (n % 64) = char n := by
  rw [char, char, Nat.mod_mod]

theorem ofNat_ofChar (c : Char) : Char.ofNat (PyChar.ofChar c).code = c := Char.ofNat_toNat c

theorem byte_eq {n : ℕ} {b : UInt8} (h : n = b.toNat) : UInt8.ofNat n = b := by
  rw [h, UInt8.ofNat_toNat]

/-- The scan takes the groups of `b64encode` apart again. -/
theorem scan_b64encode (raw : List UInt8) :
    scan ⟨0, 0, 0, false⟩ ((b64encode raw).map fun c => Char.ofNat c.code) = some raw := by
  fun_induction b64encode raw with
  | case1 a b c rest ih =>
      have ha := a.toNat_lt
      have hb := b.toNat_lt
      have hc := c.toNat_lt
      simp only [List.map_cons, List.map_nil, ofNat_ofChar, List.cons_append, List.nil_append]
      rw [← char_mod c.toNat, scan_first (by omega), scan_second (by omega), scan_third (by omega),
        scan_fourth (Nat.mod_lt _ (by decide)), ih]
      have hfst : UInt8.ofNat (a.toNat / 4 * 4 + (a.toNat % 4 * 16 + b.toNat / 16) / 16) = a :=
        byte_eq (by omega)
      have hsnd : UInt8.ofNat ((a.toNat % 4 * 16 + b.toNat / 16) % 16 * 16 +
          (b.toNat % 16 * 4 + c.toNat / 64) / 4) = b := byte_eq (by omega)
      have htrd : UInt8.ofNat ((b.toNat % 16 * 4 + c.toNat / 64) % 4 * 64 + c.toNat % 64) = c :=
        byte_eq (by omega)
      rw [hfst, hsnd, htrd]
      rfl
  | case2 a b =>
      have ha := a.toNat_lt
      have hb := b.toNat_lt
      simp only [List.map_cons, List.map_nil, ofNat_ofChar]
      rw [scan_first (by omega), scan_second (by omega), scan_third (by omega)]
      have hfst : UInt8.ofNat (a.toNat / 4 * 4 + (a.toNat % 4 * 16 + b.toNat / 16) / 16) = a :=
        byte_eq (by omega)
      have hsnd : UInt8.ofNat ((a.toNat % 4 * 16 + b.toNat / 16) % 16 * 16 +
          (b.toNat % 16 * 4) / 4) = b := byte_eq (by omega)
      rw [hfst, hsnd]
      rfl
  | case3 a =>
      have ha := a.toNat_lt
      simp only [List.map_cons, List.map_nil, ofNat_ofChar]
      rw [scan_first (by omega), scan_second (by omega)]
      have hfst : UInt8.ofNat (a.toNat / 4 * 4 + (a.toNat % 4 * 16) / 16) = a :=
        byte_eq (by omega)
      rw [hfst]
      rfl
  | case4 => rfl

theorem code_char (n : ℕ) : (PyChar.ofChar (char n)).code < 128 := by
  rw [← char_mod n]
  exact char_ascii _ (Nat.mod_lt n (by decide))

theorem b64encode_ascii (raw : List UInt8) : ∀ c ∈ b64encode raw, c.code < 128 := by
  fun_induction b64encode raw with
  | case1 a b c rest ih =>
      simp only [List.forall_mem_append, List.map_cons, List.map_nil, List.forall_mem_cons]
      exact ⟨⟨code_char _, code_char _, code_char _, code_char _, List.forall_mem_nil _⟩, ih⟩
  | case2 a b =>
      simp only [List.map_cons, List.map_nil, List.forall_mem_cons]
      exact ⟨code_char _, code_char _, code_char _, by decide, List.forall_mem_nil _⟩
  | case3 a =>
      simp only [List.map_cons, List.map_nil, List.forall_mem_cons]
      exact ⟨code_char _, code_char _, by decide, by decide, List.forall_mem_nil _⟩
  | case4 => exact List.forall_mem_nil _

theorem head_b64encode (raw : List UInt8) :
    ((b64encode raw).map fun c => Char.ofNat c.code).head? ≠ some '=' := by
  have hchar (n : ℕ) : Char.ofNat (PyChar.ofChar (char n)).code ≠ '=' := by
    rw [ofNat_ofChar, ← char_mod n]
    exact char_ne_pad _ (Nat.mod_lt n (by decide))
  fun_cases b64encode raw with
  | case1 a b c rest => exact fun h => hchar _ (Option.some.inj h)
  | case2 a b => exact fun h => hchar _ (Option.some.inj h)
  | case3 a => exact fun h => hchar _ (Option.some.inj h)
  | case4 => exact nofun

end Base64

/-- What `b64encode` writes, `b64decode` reads back. -/
theorem b64decode_b64encode (raw : List UInt8) : b64decode (b64encode raw) = some raw := by
  rw [b64decode, PyStr.ascii, if_pos (b64encode_ascii raw), Option.bind_some,
    if_neg (head_b64encode raw), scan_b64encode]

example : b64decode (pyStr "TWFuIQ==") = some [77, 97, 110, 33] := by decide

end TaskFleet.Py
