import Mathlib.Data.Rat.Defs
import Mathlib.Algebra.Order.Ring.Rat

/-!
# JSON values as Python holds them

What `json.loads` produces and `json.dumps(…, separators=(",", ":"))` writes.
Integers are unbounded; a float is one of the extended rationals a double can
be, and the three things only IEEE arithmetic can say about it (the nearest
double of an integer, rounding to three decimals, the shortest spelling) are
the parameter `FloatOps`.
-/

namespace TaskFleet.Py

/-- A Python float by value: a finite double, an infinity or not-a-number. The zero
of `finite` is the positive one. -/
inductive PyFloat where
  | finite (value : ℚ)
  /-- `-0.0` -/
  | negZero
  | inf (negative : Bool)
  | nan
  deriving DecidableEq, Repr

/-- The zero of a sign. -/
def PyFloat.zero (negative : Bool) : PyFloat := if negative then .negZero else .finite 0

/-- `math.isfinite(x)` -/
def PyFloat.isFinite : PyFloat → Bool
  | .finite _ | .negZero => true
  | .inf _ | .nan => false

/-- `x < 0`, which is false of not-a-number and of both zeros. -/
def PyFloat.isNegative : PyFloat → Bool
  | .finite value => value < 0
  | .negZero => false
  | .inf negative => negative
  | .nan => false

/-- The double arithmetic the coordinator relies on. -/
structure FloatOps where
  /-- `float(n)`; `none` is `OverflowError`. -/
  ofInt : Int → Option PyFloat
  /-- `round(x, 3)`. -/
  round3 : PyFloat → PyFloat
  /-- The text `json.dumps` writes for `x`. -/
  repr : PyFloat → String

/-- A JSON value. An object keeps its keys in insertion order. -/
inductive Json where
  | null
  | bool (value : Bool)
  | int (value : Int)
  | float (value : PyFloat)
  | str (value : String)
  | arr (items : List Json)
  | obj (fields : List (String × Json))

namespace Json

/-- Python truthiness. -/
def truthy : Json → Bool
  | .null => false
  | .bool value => value
  | .int value => value != 0
  | .float value => value != .finite 0 && value != .negZero
  | .str value => value != ""
  | .arr items => !items.isEmpty
  | .obj fields => !fields.isEmpty

/-- `payload.get(key)`, with `null` for a missing key as `None`. -/
def get (fields : List (String × Json)) (key : String) : Json :=
  (fields.lookup key).getD .null

/-! ## Encoding -/

/-- Four lower-case hexadecimal digits. -/
def hex4 (n : Nat) : String :=
  let digit (d : Nat) : Char := if d < 10 then Char.ofNat (48 + d) else Char.ofNat (87 + d)
  String.ofList [digit (n / 4096 % 16), digit (n / 256 % 16), digit (n / 16 % 16), digit (n % 16)]

/-- One character of a string literal under `ensure_ascii`. -/
def escapeChar (c : Char) : String :=
  if c = '"' then "\\\"" else if c = '\\' then "\\\\"
  else if c = '\n' then "\\n" else if c = '\r' then "\\r" else if c = '\t' then "\\t"
  else if c.toNat = 8 then "\\b" else if c.toNat = 12 then "\\f"
  else if 32 ≤ c.toNat ∧ c.toNat ≤ 126 then String.singleton c
  else if c.toNat < 65536 then "\\u" ++ hex4 c.toNat
  else
    -- outside the basic plane: a surrogate pair
    let v := c.toNat - 65536
    "\\u" ++ hex4 (55296 + v / 1024) ++ "\\u" ++ hex4 (56320 + v % 1024)

/-- A string literal. -/
def quote (s : String) : String :=
  "\"" ++ String.join (s.toList.map escapeChar) ++ "\""

mutual

/-- `json.dumps(value, separators=(",", ":"))`. -/
def dumps (fl : FloatOps) : Json → String
  | .null => "null"
  | .bool true => "true"
  | .bool false => "false"
  | .int value => toString value
  | .float value => fl.repr value
  | .str value => quote value
  | .arr items => "[" ++ dumpsItems fl items ++ "]"
  | .obj fields => "\x7b" ++ dumpsFields fl fields ++ "\x7d"

/-- The items of a list, separated by commas. -/
def dumpsItems (fl : FloatOps) : List Json → String
  | [] => ""
  | [x] => dumps fl x
  | x :: y :: rest => dumps fl x ++ "," ++ dumpsItems fl (y :: rest)

/-- The members of an object, separated by commas. -/
def dumpsFields (fl : FloatOps) : List (String × Json) → String
  | [] => ""
  | [(k, x)] => quote k ++ ":" ++ dumps fl x
  | (k, x) :: y :: rest => quote k ++ ":" ++ dumps fl x ++ "," ++ dumpsFields fl (y :: rest)

end

mutual

/-- Whether `json.dumps` can spell every integer in the value: the
interpreter refuses to convert one of more than 4300 digits. -/
def encodable : Json → Bool
  | .int value => value.natAbs < 10 ^ 4300
  | .arr items => encodableItems items
  | .obj fields => encodableFields fields
  | _ => true

/-- Every item of a list. -/
def encodableItems : List Json → Bool
  | [] => true
  | x :: rest => encodable x && encodableItems rest

/-- Every member of an object. -/
def encodableFields : List (String × Json) → Bool
  | [] => true
  | (_, x) :: rest => encodable x && encodableFields rest

end

mutual

/-- Whether `jsonb` takes the text of the value: every number is finite, and no string
has a NUL. Of a number it keeps the value, not the spelling, nor the sign of a zero. -/
def storable : Json → Bool
  | .float value => value.isFinite
  | .str value => !value.toList.contains '\x00'
  | .arr items => storableItems items
  | .obj fields => storableFields fields
  | _ => true

/-- Every item of a list. -/
def storableItems : List Json → Bool
  | [] => true
  | x :: rest => storable x && storableItems rest

/-- Every member of an object, with its key. -/
def storableFields : List (String × Json) → Bool
  | [] => true
  | (k, x) :: rest => !k.toList.contains '\x00' && storable x && storableFields rest

end

/-- `str(value)`. A container's text is taken from its encoding: all any
caller asks of it is that it opens with a bracket, so it is never an id. -/
def pyStr (fl : FloatOps) : Json → String
  | .null => "None"
  | .bool true => "True"
  | .bool false => "False"
  | .int value => toString value
  | .float value => fl.repr value
  | .str value => value
  | .arr items => dumps fl (.arr items)
  | .obj fields => dumps fl (.obj fields)

/-- `str(payload.get(key) or "")`. -/
def getStr (fl : FloatOps) (fields : List (String × Json)) (key : String) : String :=
  if (get fields key).truthy then pyStr fl (get fields key) else ""

end Json

end TaskFleet.Py
