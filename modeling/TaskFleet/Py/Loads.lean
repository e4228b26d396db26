import TaskFleet.Py.Wire
import TaskFleet.Py.FloatText
import TaskFleet.Py.Dict

/-!
# `json.loads`

The scanner of CPython's `json`, on the text of a WebSocket frame: it has no halves of
surrogate pairs but those it escapes. `none` is any exception: the text is not JSON, an
integer has more than 4300 digits, or the containers are nested deeper than the stack of
the interpreter. As in `StrictJson`, each part takes a token off the front of the text;
the length of the text is fuel enough.
-/

namespace TaskFleet.Py

open StrictJson (skip hexUnit isHigh isLow)

/-! ## Strings -/

/-- The character of a code unit. -/
def PyChar.ofUnit (unit : ℕ) : PyChar where
  code := unit % 0x110000
  code_lt := Nat.mod_lt unit (Nat.succ_pos _)

/-- The character that two surrogates encode. -/
def PyChar.ofPair (high low : PyChar) : PyChar :=
  .ofUnit (0x10000 + (high.code - 0xd800) * 1024 + (low.code - 0xdc00))

/-- What stands behind a backslash, but for `u`. -/
def shortEscape (c : Char) : Option Char :=
  if c = '"' then some '"' else if c = '\\' then some '\\' else if c = '/' then some '/'
  else if c = 'b' then some '\x08' else if c = 'f' then some '\x0c'
  else if c = 'n' then some '\n' else if c = 'r' then some '\r' else if c = 't' then some '\t'
  else none

/-- A string up to its closing quote, surrogates one by one. -/
def scanString : List Char → Option (PyStr × List Char)
  | '"' :: rest => some ([], rest)
  | '\\' :: 'u' :: a :: b :: c :: d :: rest =>
      match hexUnit a b c d with
      | some unit => (scanString rest).map fun s => (.ofUnit unit :: s.1, s.2)
      | none => none
  | '\\' :: c :: rest =>
      match shortEscape c with
      | some c => (scanString rest).map fun s => (.ofChar c :: s.1, s.2)
      | none => none
  | c :: rest => if ' ' ≤ c then (scanString rest).map fun s => (.ofChar c :: s.1, s.2) else none
  | [] => none

/-- A high surrogate and a low one behind it become one character. -/
def joinPairs : PyStr → PyStr
  | a :: b :: rest =>
      if isHigh a.code && isLow b.code then .ofPair a b :: joinPairs rest
      else a :: joinPairs (b :: rest)
  | [a] => [a]
  | [] => []

/-! ## Numbers -/

/-- `sys.int_info.default_max_str_digits`: what `str(n)` and `int(text)` stop at. -/
@[irreducible] def maxStrDigits : ℕ := 4300

/-- A zero, or digits that do not begin with one. -/
def scanWhole : List Char → Option (List Char × List Char)
  | c :: rest =>
      if c = '0' then some (['0'], rest)
      else if c.isDigit then
        some (c :: rest.takeWhile Char.isDigit, rest.dropWhile Char.isDigit)
      else none
  | [] => none

/-- The digits behind a point, where there are any. -/
def scanFrac : List Char → List Char × List Char
  | c :: d :: rest =>
      if c = '.' && d.isDigit then
        (d :: rest.takeWhile Char.isDigit, rest.dropWhile Char.isDigit)
      else ([], c :: d :: rest)
  | text => ([], text)

/-- The digits of an exponent behind its sign. -/
def scanExpDigits (negative : Bool) (text : List Char) : Option (ℤ × List Char) :=
  if text.takeWhile Char.isDigit = [] then none
  else
    let n : ℤ := Nat.ofDigitChars 10 (text.takeWhile Char.isDigit) 0
    some (if negative then -n else n, text.dropWhile Char.isDigit)

/-- An exponent, where there is one. -/
def scanExp : List Char → Option ℤ × List Char
  | c :: d :: rest =>
      if c = 'e' || c = 'E' then
        match (if d = '-' then scanExpDigits true rest
          else if d = '+' then scanExpDigits false rest else scanExpDigits false (d :: rest)) with
        | some (e, rest) => (some e, rest)
        | none => (none, c :: d :: rest)
      else (none, c :: d :: rest)
  | text => (none, text)

/-- A number without its sign. -/
def scanNumeral (text : List Char) : Option (Numeral × List Char) :=
  (scanWhole text).map fun whole =>
    let frac := scanFrac whole.2
    let exp := scanExp frac.2
    (⟨whole.1, frac.1, exp.1⟩, exp.2)

/-- `int(text)` without a point or an exponent, `float(text)` with one. -/
def Numeral.load (negative : Bool) (n : Numeral) : Option Wire :=
  if n.frac = [] ∧ n.exp = none then
    let k : ℤ := Nat.ofDigitChars 10 n.whole 0
    if n.whole.length ≤ maxStrDigits then some (.int (if negative then -k else k)) else none
  else some (.float (if negative then (PyFloat.ofRat n.value).neg else .ofRat n.value))

def scanNumber : List Char → Option (Wire × List Char)
  | c :: rest =>
      (if c = '-' then scanNumeral rest else scanNumeral (c :: rest)).bind fun n =>
        (n.1.load (c = '-')).map fun v => (v, n.2)
  | [] => none

/-! ## Values -/

/-- The values that have names. -/
def namedValues : List (List Char × Wire) :=
  [("null".toList, .null), ("true".toList, .bool true), ("false".toList, .bool false),
    ("NaN".toList, .float .nan), ("Infinity".toList, .float (.inf false)),
    ("-Infinity".toList, .float (.inf true))]

def scanScalar (text : List Char) : Option (Wire × List Char) :=
  match namedValues.find? fun named => named.1.isPrefixOf text with
  | some named => some (named.2, text.drop named.1.length)
  | none => scanNumber text

/-- A `dict` of pairs: a key that comes again keeps its place and takes the new value. -/
def dictOf (pairs : List (PyStr × Wire)) : List (PyStr × Wire) :=
  (pairs.foldl (fun d pair => d.set pair.1 pair.2) (Dict.empty : Dict PyStr Wire)).rows

/-- An array or an object, unless it is empty: one level down the stack. -/
def scanInside {α : Type} (close : Char) (entries : ℕ → List Char → Option (List α × List Char)) :
    ℕ → List Char → Option (List α × List Char)
  | 0, _ => none
  | depth + 1, text =>
      match skip text with
      | c :: rest => if c = close then some ([], rest) else entries depth (c :: rest)
      | [] => none

/-- What comes after an entry: more of them, or the end. -/
def scanMore {α : Type} (close : Char) (entries : List Char → Option (List α × List Char)) (x : α)
    (text : List Char) : Option (List α × List Char) :=
  match skip text with
  | c :: rest =>
      if c = ',' then (entries rest).map fun xs => (x :: xs.1, xs.2)
      else if c = close then some ([x], rest) else none
  | [] => none

/-- One value, given readers of the items and of the members inside it. -/
def readWire (items : ℕ → List Char → Option (List Wire × List Char))
    (members : ℕ → List Char → Option (List (PyStr × Wire) × List Char)) (depth : ℕ)
    (text : List Char) : Option (Wire × List Char) :=
  match skip text with
  | c :: rest =>
      if c = '"' then (scanString rest).map fun s => (.str (joinPairs s.1), s.2)
      else if c = '[' then (scanInside ']' items depth rest).map fun xs => (.arr xs.1, xs.2)
      else if c = '\x7b' then
        (scanInside '\x7d' members depth rest).map fun xs => (.obj (dictOf xs.1), xs.2)
      else scanScalar (c :: rest)
  | [] => none

/-- A member: its key, the colon and its value. -/
def scanMember (value : List Char → Option (Wire × List Char)) (text : List Char) :
    Option ((PyStr × Wire) × List Char) :=
  match skip text with
  | c :: rest =>
      if c = '"' then
        (scanString rest).bind fun key =>
          match skip key.2 with
          | d :: rest =>
              if d = ':' then (value rest).map fun v => ((joinPairs key.1, v.1), v.2) else none
          | [] => none
      else none
  | [] => none

mutual

def scanValue : ℕ → ℕ → List Char → Option (Wire × List Char)
  | 0 => fun _ _ => none
  | fuel + 1 => readWire (scanItems fuel) (scanMembers fuel)

def scanItems : ℕ → ℕ → List Char → Option (List Wire × List Char)
  | 0 => fun _ _ => none
  | fuel + 1 => fun depth text =>
      (scanValue fuel depth text).bind fun v => scanMore ']' (scanItems fuel depth) v.1 v.2

def scanMembers : ℕ → ℕ → List Char → Option (List (PyStr × Wire) × List Char)
  | 0 => fun _ _ => none
  | fuel + 1 => fun depth text =>
      (scanMember (scanValue fuel depth) text).bind fun m =>
        scanMore '\x7d' (scanMembers fuel depth) m.1 m.2

end

/-- `json.loads(text)`, where containers may be nested `depth` levels. -/
def loads (depth : ℕ) (text : List Char) : Option Wire :=
  match scanValue (text.length + 1) depth text with
  | some (v, rest) => if skip rest = [] then some v else none
  | none => none

/-! ## What is kept -/

namespace Wire

mutual

/-- A property of a value and of all values inside it. -/
def Everywhere (p : Wire → Prop) : Wire → Prop
  | .arr items => p (.arr items) ∧ EverywhereItems p items
  | .obj fields => p (.obj fields) ∧ EverywhereFields p fields
  | v => p v

def EverywhereItems (p : Wire → Prop) : List Wire → Prop
  | [] => True
  | x :: rest => Everywhere p x ∧ EverywhereItems p rest

def EverywhereFields (p : Wire → Prop) : List (PyStr × Wire) → Prop
  | [] => True
  | (_, x) :: rest => Everywhere p x ∧ EverywhereFields p rest

end

mutual

def decideEverywhere (p : Wire → Prop) [DecidablePred p] : ∀ v : Wire, Decidable (Everywhere p v)
  | .arr items =>
      have := decideEverywhereItems p items
      inferInstanceAs (Decidable (_ ∧ _))
  | .obj fields =>
      have := decideEverywhereFields p fields
      inferInstanceAs (Decidable (_ ∧ _))
  | .null => inferInstanceAs (Decidable (p .null))
  | .bool value => inferInstanceAs (Decidable (p (.bool value)))
  | .int value => inferInstanceAs (Decidable (p (.int value)))
  | .float value => inferInstanceAs (Decidable (p (.float value)))
  | .str value => inferInstanceAs (Decidable (p (.str value)))

def decideEverywhereItems (p : Wire → Prop) [DecidablePred p] :
    ∀ items : List Wire, Decidable (EverywhereItems p items)
  | [] => .isTrue trivial
  | x :: rest =>
      have := decideEverywhere p x
      have := decideEverywhereItems p rest
      inferInstanceAs (Decidable (_ ∧ _))

def decideEverywhereFields (p : Wire → Prop) [DecidablePred p] :
    ∀ fields : List (PyStr × Wire), Decidable (EverywhereFields p fields)
  | [] => .isTrue trivial
  | (_, x) :: rest =>
      have := decideEverywhere p x
      have := decideEverywhereFields p rest
      inferInstanceAs (Decidable (_ ∧ _))

end

instance (p : Wire → Prop) [DecidablePred p] (v : Wire) : Decidable (v.Everywhere p) :=
  decideEverywhere p v

/-- What is so of every value of Python: a finite float is a double, and the keys of a
dictionary are different. -/
def Native : Wire → Prop
  | .float (.finite x) => IsDouble x
  | .obj fields => (fields.map Prod.fst).Nodup
  | _ => True

/-- An integer that `str(n)` and `int(text)` do not stop at. -/
def Spellable : Wire → Prop
  | .int n => n.natAbs < 10 ^ maxStrDigits
  | _ => True

instance : DecidablePred Spellable
  | .int n => inferInstanceAs (Decidable (n.natAbs < 10 ^ maxStrDigits))
  | .null | .bool _ | .float _ | .str _ | .arr _ | .obj _ => .isTrue trivial

/-- No two surrogates stand in a string like a pair. -/
def Joined : Wire → Prop
  | .str s => joinPairs s = s
  | .obj fields => ∀ k ∈ fields.map Prod.fst, joinPairs k = k
  | _ => True

end Wire

end TaskFleet.Py
