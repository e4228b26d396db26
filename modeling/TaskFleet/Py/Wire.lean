import TaskFleet.Lib.StrictJson
import TaskFleet.Py.Json

/-!
# What `json.loads` can hand over

`Json` has Lean's strings. Python's are sequences of code points, and those of half a
surrogate pair are among them: `json.loads` makes one of every `\ud83d` that stands
alone. `Wire` is a JSON value with such strings, as lenient as Python reads it, and
`Wire.text` is what `json.dumps` writes for it. `json.loads` has refused every integer
with more digits than `str` and `json.dumps` spell, so neither fails on one.
-/

namespace TaskFleet.Py

open StrictJson (nextUnit hexDigits)

/-- A code point, surrogates included. -/
structure PyChar where
  code : ℕ
  code_lt : code < 0x110000
  deriving DecidableEq

/-- A Python string. -/
abbrev PyStr := List PyChar

def PyChar.ofChar (c : Char) : PyChar where
  code := c.toNat
  code_lt := by
    have h := c.valid
    simp only [UInt32.isValidChar, Nat.isValidChar] at h
    show c.val.toNat < 0x110000
    omega

/-- A literal of the source. -/
def pyStr (s : String) : PyStr := s.toList.map PyChar.ofChar

/-- The UTF-16 code units of a character. -/
def PyChar.units (c : PyChar) : List ℕ :=
  if c.code < 65536 then [c.code]
  else [55296 + (c.code - 65536) / 1024, 56320 + (c.code - 65536) % 1024]

/-- One character of a string literal under `ensure_ascii`. -/
def PyChar.escape (c : PyChar) : List Char :=
  if c.code = 34 then ['\\', '"'] else if c.code = 92 then ['\\', '\\']
  else if c.code = 10 then ['\\', 'n'] else if c.code = 13 then ['\\', 'r'] else if c.code =
    9 then ['\\', 't']
  else if c.code = 8 then ['\\', 'b'] else if c.code = 12 then ['\\', 'f']
  else if 32 ≤ c.code ∧ c.code ≤ 126 then [Char.ofNat c.code]
  else c.units.flatMap fun unit => '\\' :: 'u' :: hexDigits unit

/-- A string literal. -/
def PyStr.quote (s : PyStr) : List Char := '"' :: (s.flatMap PyChar.escape ++ ['"'])

/-- No NUL, and no surrogate that is not in a pair. -/
def PyStr.clean (s : PyStr) : Bool := (s.flatMap PyChar.units).foldlM nextUnit false = some false

/-- A JSON value with Python's strings. -/
inductive Wire where
  | null
  | bool (value : Bool)
  | int (value : Int)
  | float (value : PyFloat)
  | str (value : PyStr)
  | arr (items : List Wire)
  | obj (fields : List (PyStr × Wire))

/-- The two separators of `json.dumps`. -/
structure Separators where
  item : List Char
  key : List Char

/-- `separators=(",", ":")` -/
def Separators.compact : Separators := ⟨[','], [':']⟩

/-- The default. -/
def Separators.default : Separators := ⟨[',', ' '], [':', ' ']⟩

namespace Wire

mutual

/-- `json.dumps(value, …)`. -/
def text (fl : FloatOps) (sep : Separators) : Wire → List Char
  | .null => "null".toList
  | .bool true => "true".toList
  | .bool false => "false".toList
  | .int value => (toString value).toList
  | .float value => (fl.repr value).toList
  | .str value => value.quote
  | .arr items => '[' :: (textItems fl sep items ++ [']'])
  | .obj fields => '\x7b' :: (textFields fl sep fields ++ ['\x7d'])

/-- The items of a list, with the separator between them. -/
def textItems (fl : FloatOps) (sep : Separators) : List Wire → List Char
  | [] => []
  | [x] => text fl sep x
  | x :: y :: rest => text fl sep x ++ (sep.item ++ textItems fl sep (y :: rest))

/-- The members of an object. -/
def textFields (fl : FloatOps) (sep : Separators) : List (PyStr × Wire) → List Char
  | [] => []
  | [(k, x)] => k.quote ++ (sep.key ++ text fl sep x)
  | (k, x) :: y :: rest =>
      k.quote ++ (sep.key ++ (text fl sep x ++ (sep.item ++ textFields fl sep (y :: rest))))

end

mutual

/-- How deep the containers are nested. -/
def depth : Wire → ℕ
  | .arr items => depthItems items + 1
  | .obj fields => depthFields fields + 1
  | _ => 0

def depthItems : List Wire → ℕ
  | [] => 0
  | x :: rest => max (depth x) (depthItems rest)

def depthFields : List (PyStr × Wire) → ℕ
  | [] => 0
  | (_, x) :: rest => max (depth x) (depthFields rest)

end

mutual

/-- Nothing in the value is beyond strict JSON: numbers are finite and strings clean. -/
def storable : Wire → Bool
  | .float value => value.isFinite
  | .str value => value.clean
  | .arr items => storableItems items
  | .obj fields => storableFields fields
  | _ => true

def storableItems : List Wire → Bool
  | [] => true
  | x :: rest => storable x && storableItems rest

def storableFields : List (PyStr × Wire) → Bool
  | [] => true
  | (k, x) :: rest => k.clean && storable x && storableFields rest

end

@[simp] theorem storable_null : Wire.null.storable = true := rfl

@[simp] theorem storable_bool (value : Bool) : (Wire.bool value).storable = true := rfl

@[simp] theorem storable_int (value : Int) : (Wire.int value).storable = true := rfl

@[simp] theorem storable_str (value : PyStr) : (Wire.str value).storable = value.clean := rfl

/-- Python truthiness. -/
def truthy : Wire → Bool
  | .null => false
  | .bool value => value
  | .int value => value != 0
  | .float value => value != .finite 0 && value != .negZero
  | .str value => !value.isEmpty
  | .arr items => !items.isEmpty
  | .obj fields => !fields.isEmpty

/-- `payload.get(key)`, with `null` for a missing key as `None`. -/
def get (fields : List (PyStr × Wire)) (key : String) : Wire :=
  (fields.lookup (pyStr key)).getD .null

end Wire

mutual

/-- A value whose strings are all of whole characters. -/
def Json.wire : Json → Wire
  | .null => .null
  | .bool value => .bool value
  | .int value => .int value
  | .float value => .float value
  | .str value => .str (Py.pyStr value)
  | .arr items => .arr (Json.wireItems items)
  | .obj fields => .obj (Json.wireFields fields)

def Json.wireItems : List Json → List Wire
  | [] => []
  | x :: rest => x.wire :: Json.wireItems rest

def Json.wireFields : List (String × Json) → List (PyStr × Wire)
  | [] => []
  | (k, x) :: rest => (Py.pyStr k, x.wire) :: Json.wireFields rest

end

end TaskFleet.Py
