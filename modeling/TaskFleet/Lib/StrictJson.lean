import Mathlib.Data.List.Basic
import Mathlib.Data.Char

/-!
# A strict reader of JSON

`accepts` says whether a text is one JSON value, with blanks around its tokens. The
reader is strict in what the grammar leaves open: numbers are those of the grammar, so
`NaN` is none, and a string escapes no NUL and no half of a surrogate pair. Each of its
parts takes a token off the front of the text and leaves the rest, or fails. The fuel of
the three parts that call each other bounds the depth of the calls; every call is on a
shorter text, so the length of the text is enough.
-/

namespace TaskFleet.StrictJson

/-! ## Tokens -/

def isWhitespace (c : Char) : Bool := c = ' ' ∨ c = '\t' ∨ c = '\n' ∨ c = '\r'

/-- The blanks before a token. -/
def skip (text : List Char) : List Char := text.dropWhile isWhitespace

/-- One digit, and all that follow. -/
def digits : List Char → Option (List Char)
  | c :: rest => if c.isDigit then some (rest.dropWhile Char.isDigit) else none
  | [] => none

/-- One way on after the character `c`, another in front of anything else. -/
def onHead (c : Char) (hit miss : List Char → Option (List Char)) : List Char → Option (List Char)
  | d :: rest => if d = c then hit rest else miss (d :: rest)
  | [] => miss []

/-- A zero, or digits that do not begin with one. -/
def intPart : List Char → Option (List Char) := onHead '0' some digits

def fracPart : List Char → Option (List Char) := onHead '.' digits some

/-- The digits of an exponent, with a sign or without. -/
def exponent : List Char → Option (List Char) := onHead '+' digits (onHead '-' digits digits)

def expPart : List Char → Option (List Char) := onHead 'e' exponent (onHead 'E' exponent some)

/-- A number without its sign. -/
def unsigned (text : List Char) : Option (List Char) :=
  ((intPart text).bind fracPart).bind expPart

/-- A number. -/
def number : List Char → Option (List Char) := onHead '-' unsigned unsigned

/-- The value of a hexadecimal digit. -/
def hexValue (c : Char) : Option ℕ :=
  if '0' ≤ c ∧ c ≤ '9' then some (c.toNat - 48)
  else if 'a' ≤ c ∧ c ≤ 'f' then some (c.toNat - 87)
  else if 'A' ≤ c ∧ c ≤ 'F' then some (c.toNat - 55)
  else none

/-- The code unit that four hexadecimal digits spell. -/
def hexUnit (a b c d : Char) : Option ℕ := do
  let a ← hexValue a
  let b ← hexValue b
  let c ← hexValue c
  let d ← hexValue d
  return ((a * 16 + b) * 16 + c) * 16 + d

/-- The first unit of a surrogate pair. -/
def isHigh (unit : ℕ) : Bool := 0xd800 ≤ unit ∧ unit < 0xdc00

/-- The second. -/
def isLow (unit : ℕ) : Bool := 0xdc00 ≤ unit ∧ unit < 0xe000

/-- Whether a code unit may stand after a high one, or after anything else, and whether
it is a high one itself. -/
def nextUnit (high : Bool) (unit : ℕ) : Option Bool :=
  if unit = 0 then none
  else if isHigh unit then (if high then none else some true)
  else if isLow unit then (if high then some false else none)
  else if high then none else some false

/-- The rest of a string, up to its closing quote. With `high`, a high surrogate was
escaped last. -/
def stringTail (high : Bool) : List Char → Option (List Char)
  | '"' :: rest => if high then none else some rest
  | '\\' :: 'u' :: a :: b :: c :: d :: rest =>
      match (hexUnit a b c d).bind (nextUnit high) with
      | some high => stringTail high rest
      | none => none
  | '\\' :: c :: rest =>
      if high = false ∧ c ∈ ['"', '\\', '/', 'b', 'f', 'n', 'r', 't']
        then stringTail false rest else none
  | c :: rest => if high = false ∧ ' ' ≤ c then stringTail false rest else none
  | [] => none

/-! ## Values -/

/-- The rest of a name whose first letter is read. -/
def literal (name : List Char) (text : List Char) : Option (List Char) :=
  if name.isPrefixOf text then some (text.drop name.length) else none

/-- One value, given readers of the items and of the members inside it. -/
def readValue (items members : List Char → Option (List Char)) (text : List Char) :
    Option (List Char) :=
  onHead '"' (stringTail false)
    (onHead '[' (fun rest => onHead ']' some items (skip rest))
      (onHead '\x7b' (fun rest => onHead '\x7d' some members (skip rest))
        (onHead 't' (literal "rue".toList) (onHead 'f' (literal "alse".toList)
          (onHead 'n' (literal "ull".toList) number))))) (skip text)

/-- What comes after an item or a member: more of them, or the end. -/
def readMore (close : Char) (more : List Char → Option (List Char)) (rest : List Char) :
    Option (List Char) :=
  onHead ',' more (onHead close some fun _ => none) (skip rest)

/-- The items of an array that is not empty, and its bracket. -/
def readItems (value items : List Char → Option (List Char)) (text : List Char) :
    Option (List Char) :=
  (value text).bind (readMore ']' items)

/-- A member: its key, the colon and its value. -/
def readMember (value : List Char → Option (List Char)) (text : List Char) : Option (List Char) :=
  (onHead '"' (stringTail false) (fun _ => none) (skip text)).bind fun rest =>
    onHead ':' value (fun _ => none) (skip rest)

/-- The members of an object that is not empty, and its brace. -/
def readMembers (value members : List Char → Option (List Char)) (text : List Char) :
    Option (List Char) :=
  (readMember value text).bind (readMore '\x7d' members)

mutual

def value : ℕ → List Char → Option (List Char)
  | 0 => fun _ => none
  | fuel + 1 => readValue (items fuel) (members fuel)

def items : ℕ → List Char → Option (List Char)
  | 0 => fun _ => none
  | fuel + 1 => readItems (value fuel) (items fuel)

def members : ℕ → List Char → Option (List Char)
  | 0 => fun _ => none
  | fuel + 1 => readMembers (value fuel) (members fuel)

end

/-- The text is one value. -/
def accepts (text : List Char) : Bool :=
  match value (text.length + 1) text with
  | some rest => skip rest = []
  | none => false

example : accepts "\x7b\"a\": [1, -2.5e+3, \"\\ud83d\\ude00\"]\x7d".toList =
    true := by decide +kernel

example : accepts "[NaN]".toList = false := by decide +kernel

example : accepts "\"\\ud83d\"".toList = false := by decide +kernel

/-! ## Numbers in front of something else -/

/-- What may follow a number without becoming part of it. -/
def Stops (rest : List Char) : Prop :=
  ∀ c ∈ rest.head?, c.isDigit = false ∧ c ≠ '.' ∧ c ≠ 'e' ∧ c ≠ 'E'

theorem stops_nil : Stops [] := by
  intro c hc
  cases hc

theorem stops_cons {c : Char} (h : c.isDigit = false) (hdot : c ≠ '.') (he : c ≠ 'e') (hE : c ≠ 'E')
    (rest : List Char) : Stops (c :: rest) := by
  intro d hd
  cases hd
  exact ⟨h, hdot, he, hE⟩

/-- A part that leaves what stops a number where it is. -/
def Extends (part : List Char → Option (List Char)) : Prop :=
  ∀ text left rest, part text = some left → Stops rest → part (text ++ rest) = some (left ++ rest)

section

variable {text rest left : List Char} {fuel : ℕ} {f g : List Char → Option (List Char)} {c : Char}

theorem extends_some : Extends some := by
  intro text left rest h _
  cases h
  rfl

theorem Extends.bind (hf : Extends f) (hg : Extends g) : Extends fun text => (f text).bind g := by
  intro text left rest h hrest
  obtain ⟨u, hu, hlast⟩ := Option.bind_eq_some_iff.mp h
  show (f (text ++ rest)).bind g = _
  rw [hf text u rest hu hrest, Option.bind_some, hg u left rest hlast hrest]

theorem dropWhile_digits_append (hrest : Stops rest) (text : List Char) :
    (text ++ rest).dropWhile Char.isDigit = text.dropWhile Char.isDigit ++ rest := by
  induction text with
  | nil =>
      cases rest with
      | nil => rfl
      | cons c rest =>
          have hc := (hrest c rfl).1
          simp [hc]
  | cons c text ih =>
      cases hc : c.isDigit with
      | true => simp [hc, ih]
      | false => simp [hc]

theorem extends_digits : Extends digits := by
  intro text left rest h hrest
  cases text with
  | nil => cases h
  | cons c text =>
      simp only [digits, List.cons_append] at h ⊢
      split at h
      · next hc =>
          cases h
          rw [if_pos hc, dropWhile_digits_append hrest]
      · cases h

/-- A choice on the head, where what follows is not taken for the head of nothing. -/
theorem Extends.onHead (hf : Extends f) (hg : Extends g)
    (hnil : g [] = none ∨ ∀ rest, Stops rest → rest.head? ≠ some c) : Extends (onHead c f g) := by
  intro text left rest h hrest
  cases text with
  | nil =>
      rcases hnil with hnone | hhead
      · exact absurd (hnone.symm.trans h) (by simp)
      · have hlast := hg [] left rest h hrest
        cases rest with
        | nil => exact hlast
        | cons d rest =>
            have hne : d ≠ c := fun hd => hhead _ hrest (congrArg some hd)
            rw [List.nil_append] at hlast ⊢
            rw [StrictJson.onHead, if_neg hne, hlast]
  | cons d text =>
      simp only [StrictJson.onHead, List.cons_append] at h ⊢
      split at h
      · next hd => rw [if_pos hd]; exact hf text left rest h hrest
      · next hd => rw [if_neg hd]; exact hg (d :: text) left rest h hrest

/-- **Numbers.** A number is still read as one in front of what stops it. -/
theorem extends_number : Extends number := by
  have hint : Extends intPart := extends_some.onHead extends_digits (.inl rfl)
  have hfrac : Extends fracPart :=
    extends_digits.onHead extends_some (.inr fun _ hrest hd => (hrest _ hd).2.1 rfl)
  have hexponent : Extends exponent :=
    extends_digits.onHead (extends_digits.onHead extends_digits (.inl rfl)) (.inl rfl)
  have hexp : Extends expPart :=
    hexponent.onHead (hexponent.onHead extends_some (.inr fun _ hrest hd => (hrest _ hd).2.2.2 rfl))
      (.inr fun _ hrest hd => (hrest _ hd).2.2.1 rfl)
  have hunsigned : Extends unsigned := (hint.bind hfrac).bind hexp
  exact hunsigned.onHead hunsigned (.inl rfl)

theorem digits_head (h : digits text = some left) : ∃ c rest, text = c :: rest ∧
    c.isDigit = true := by
  cases text with
  | nil => cases h
  | cons c rest =>
      simp only [digits] at h
      split at h
      · next hc => exact ⟨c, rest, rfl, hc⟩
      · cases h

theorem unsigned_head (h : unsigned text = some left) : ∃ c rest, text = c :: rest ∧
    c.isDigit = true := by
  obtain ⟨u, hu, -⟩ := Option.bind_eq_some_iff.mp h
  obtain ⟨v, hv, -⟩ := Option.bind_eq_some_iff.mp hu
  cases text with
  | nil => exact digits_head hv
  | cons c text =>
      simp only [intPart, onHead] at hv
      split at hv
      · next hc => exact ⟨c, text, rfl, by rw [hc]; rfl⟩
      · exact digits_head hv

/-- It begins with a digit or its sign. -/
theorem number_head (h : number text = some left) :
    ∃ c rest, text = c :: rest ∧ (c.isDigit = true ∨ c = '-') := by
  cases text with
  | nil => cases h
  | cons c text =>
      simp only [number, onHead] at h
      split at h
      · next hc => exact ⟨c, text, rfl, .inr hc⟩
      · obtain ⟨d, rest, heq, hd⟩ := unsigned_head h
        exact ⟨d, rest, heq, .inl hd⟩

/-! ## Fuel -/

/-- What one reader takes, the other takes as well. -/
def Within (f g : List Char → Option (List Char)) : Prop :=
  ∀ text left, f text = some left → g text = some left

theorem Within.refl (f : List Char → Option (List Char)) : Within f f := fun _ _ h => h

theorem Within.onHead {f' g' : List Char → Option (List Char)} (hf : Within f f')
    (hg : Within g g') (c : Char) :
    Within (onHead c f g) (onHead c f' g') := by
  intro text left h
  cases text with
  | nil => exact hg [] left h
  | cons d text =>
      simp only [StrictJson.onHead] at h ⊢
      split at h
      · next hd => rw [if_pos hd]; exact hf text left h
      · next hd => rw [if_neg hd]; exact hg (d :: text) left h

theorem Within.skip {f' : List Char → Option (List Char)} (hf : Within f f') :
    Within (fun text => f (skip text)) fun text => f' (skip text) :=
  fun text left h => hf (StrictJson.skip text) left h

theorem Within.bind {f' g' : List Char → Option (List Char)} (hf : Within f f') (hg : Within g g') :
    Within (fun text => (f text).bind g) fun text => (f' text).bind g' := by
  intro text left h
  obtain ⟨u, hu, hlast⟩ := Option.bind_eq_some_iff.mp h
  show (f' text).bind g' = _
  rw [hf text u hu, Option.bind_some, hg u left hlast]

/-- One unit of fuel more reads the same. -/
theorem within_succ (fuel : ℕ) : Within (value fuel) (value (fuel + 1)) ∧
    Within (items fuel) (items (fuel + 1)) ∧ Within (members fuel) (members (fuel + 1)) := by
  induction fuel with
  | zero =>
      have hnone : ∀ g : List Char → Option (List Char), Within (fun _ => none) g := by
        intro g text left h
        cases h
      exact ⟨hnone _, hnone _, hnone _⟩
  | succ fuel ih =>
      obtain ⟨hvalue, hitems, hmembers⟩ := ih
      have hmore : ∀ {f f' : List Char → Option (List Char)} (close : Char), Within f f' →
          Within (readMore close f) (readMore close f') :=
        fun close hf => (hf.onHead (.refl _) ',').skip
      refine ⟨?_, hvalue.bind (hmore ']' hitems), ?_⟩
      · exact (Within.onHead (.refl _) (Within.onHead ((Within.refl some).onHead hitems ']').skip
          (Within.onHead ((Within.refl some).onHead hmembers '\x7d').skip (.refl _) '\x7b') '[')
            '"').skip
      · have hmember : Within (readMember (value fuel)) (readMember (value (fuel + 1))) :=
          (Within.refl _).bind (hvalue.onHead (.refl _) ':').skip
        exact hmember.bind (hmore '\x7d' hmembers)

/-- **More fuel reads the same.** -/
theorem within_of_le {fuel fuel' : ℕ} (h : fuel ≤ fuel') : Within (value fuel) (value fuel') := by
  induction fuel', h using Nat.le_induction with
  | base => exact .refl _
  | succ fuel' _ ih => exact fun text left h => (within_succ fuel').1 text left (ih text left h)

/-! ## Strings -/

/-- A digit as writers spell it. -/
def hexDigit (d : ℕ) : Char := if d < 10 then Char.ofNat (48 + d) else Char.ofNat (87 + d)

/-- The four digits of a code unit. -/
def hexDigits (unit : ℕ) : List Char :=
  [hexDigit (unit / 4096 % 16), hexDigit (unit / 256 % 16), hexDigit (unit / 16 % 16),
    hexDigit (unit % 16)]

theorem hexValue_hexDigit : ∀ d < 16, hexValue (hexDigit d) = some d := by decide

theorem hexUnit_hexDigits {unit : ℕ} (h : unit < 65536) :
    hexUnit (hexDigit (unit / 4096 % 16)) (hexDigit (unit / 256 % 16)) (hexDigit (unit / 16 % 16))
      (hexDigit (unit % 16)) = some unit := by
  have hdigit : ∀ n, hexValue (hexDigit (n % 16)) = some (n % 16) :=
    fun n => hexValue_hexDigit (n % 16) (Nat.mod_lt n (by omega))
  simp only [hexUnit, hdigit, Option.bind_eq_bind, Option.bind_some, Option.pure_def,
    Option.some.injEq]
  omega

/-- The closing quote. -/
theorem stringTail_quote (high : Bool) (rest : List Char) :
    stringTail high ('"' :: rest) = if high then none else some rest := by
  rw [stringTail]

/-- An escaped code unit. -/
theorem stringTail_unit {unit : ℕ} (h : unit < 65536) (high : Bool) (rest : List Char) :
    stringTail high ('\\' :: 'u' :: (hexDigits unit ++ rest)) =
      (nextUnit high unit).bind fun high => stringTail high rest := by
  simp only [hexDigits, List.cons_append, List.nil_append]
  rw [stringTail, hexUnit_hexDigits h, Option.bind_some]
  cases nextUnit high unit <;> rfl

/-- The short escapes that writers use. -/
theorem stringTail_short {c : Char} (h : c ∈ ['"', '\\', 'b', 'f', 'n', 'r', 't']) (high : Bool)
    (rest : List Char) :
    stringTail high ('\\' :: c :: rest) = if high then none else stringTail false rest := by
  have hu : c ≠ 'u' := by
    rintro rfl
    exact absurd h (by decide)
  have hc : c ∈ ['"', '\\', '/', 'b', 'f', 'n', 'r', 't'] := by
    simp only [List.mem_cons, List.not_mem_nil, or_false] at h ⊢
    tauto
  rw [stringTail]
  · cases high <;> simp [hc]
  · intro a b c' d rest' heq _
    exact hu heq

/-- A character that stands for itself. -/
theorem stringTail_plain {c : Char} (hquote : c ≠ '"') (hslash : c ≠ '\\')
    (hblank : ' ' ≤ c) (high : Bool)
    (rest : List Char) :
    stringTail high (c :: rest) = if high then none else stringTail false rest := by
  rw [stringTail]
  · cases high <;> simp [hblank]
  · exact hquote
  · intro a b c' d rest' heq _
    exact hslash heq
  · intro c' rest' heq _
    exact hslash heq

/-! ## Values by their first character -/

theorem onHead_self (c : Char) (f g : List Char → Option (List Char)) (rest : List Char) :
    onHead c f g (c :: rest) = f rest :=
  if_pos rfl

theorem onHead_of_ne {d : Char} (h : d ≠ c) (f g : List Char → Option (List Char))
    (rest : List Char) :
    onHead c f g (d :: rest) = g (d :: rest) :=
  if_neg h

theorem skip_cons (h : isWhitespace c = false) (rest : List Char) :
    skip (c :: rest) = c :: rest := by
  rw [skip, List.dropWhile_cons, if_neg (by simp [h])]

/-- Blanks before a token are nothing. -/
theorem skip_append {blanks : List Char} (h : blanks.all isWhitespace = true) (text : List Char) :
    skip (blanks ++ text) = skip text := by
  induction blanks with
  | nil => rfl
  | cons c blanks ih =>
      rw [List.all_cons, Bool.and_eq_true] at h
      rw [List.cons_append, skip, List.dropWhile_cons, if_pos h.1]
      exact ih h.2

theorem value_append {blanks : List Char} (h : blanks.all isWhitespace = true) (fuel : ℕ)
    (text : List Char) :
    value fuel (blanks ++ text) = value fuel text := by
  cases fuel with
  | zero => rfl
  | succ fuel =>
      show readValue _ _ (blanks ++ text) = readValue _ _ text
      rw [readValue, readValue, skip_append h]

theorem value_string (fuel : ℕ) (rest : List Char) :
    value (fuel + 1) ('"' :: rest) = stringTail false rest := rfl

theorem value_array_nil (fuel : ℕ) (rest : List Char) :
    value (fuel + 1) ('[' :: ']' :: rest) = some rest := rfl

theorem value_array (fuel : ℕ) (hblank : isWhitespace c = false) (hclose : c ≠ ']')
    (rest : List Char) :
    value (fuel + 1) ('[' :: c :: rest) = items fuel (c :: rest) := by
  show onHead ']' some (items fuel) (skip (c :: rest)) = _
  rw [skip_cons hblank, onHead_of_ne hclose]

theorem value_object_nil (fuel : ℕ) (rest : List Char) :
    value (fuel + 1) ('\x7b' :: '\x7d' :: rest) = some rest := rfl

theorem value_object (fuel : ℕ) (rest : List Char) :
    value (fuel + 1) ('\x7b' :: '"' :: rest) = members fuel ('"' :: rest) := rfl

theorem value_null (fuel : ℕ) (rest : List Char) :
    value (fuel + 1) ('n' :: 'u' :: 'l' :: 'l' :: rest) = some rest :=
  rfl

theorem value_true (fuel : ℕ) (rest : List Char) :
    value (fuel + 1) ('t' :: 'r' :: 'u' :: 'e' :: rest) = some rest :=
  rfl

theorem value_false (fuel : ℕ) (rest : List Char) :
    value (fuel + 1) ('f' :: 'a' :: 'l' :: 's' :: 'e' :: rest) = some rest :=
  rfl

/-- What begins a number begins nothing else. -/
theorem numberHead_ne (h : c.isDigit = true ∨ c = '-') {d : Char} (hd : d.isDigit = false)
    (hminus : d ≠ '-') :
    c ≠ d := by
  rintro rfl
  rcases h with hdigit | hsign
  · rw [hd] at hdigit
    cases hdigit
  · exact hminus hsign

theorem numberHead_not_blank (h : c.isDigit = true ∨ c = '-') : isWhitespace c = false := by
  have hne : ∀ d : Char, d.isDigit = false → d ≠ '-' → c ≠ d := fun d hd hminus =>
      numberHead_ne h hd hminus
  simp [isWhitespace, hne ' ' rfl (by decide), hne '\t' rfl (by decide), hne '\n' rfl (by decide),
    hne '\r' rfl (by decide)]

/-- A digit or a sign begins a number. -/
theorem value_number (fuel : ℕ) (h : c.isDigit = true ∨ c = '-') (rest : List Char) :
    value (fuel + 1) (c :: rest) = number (c :: rest) := by
  have hne : ∀ d : Char, d.isDigit = false → d ≠ '-' → c ≠ d := fun d hd hminus =>
      numberHead_ne h hd hminus
  show readValue _ _ (c :: rest) = _
  rw [readValue, skip_cons (numberHead_not_blank h), onHead_of_ne (hne _ rfl (by decide)),
    onHead_of_ne (hne _ rfl (by decide)), onHead_of_ne (hne _ rfl (by decide)),
    onHead_of_ne (hne _ rfl (by decide)), onHead_of_ne (hne _ rfl (by decide)),
    onHead_of_ne (hne _ rfl (by decide))]

/-- The three names that Python writes and the grammar does not have. -/
theorem value_nan (fuel : ℕ) (rest : List Char) :
    value fuel ('N' :: 'a' :: 'N' :: rest) = none := by
  cases fuel <;> rfl

theorem value_infinity (fuel : ℕ) (rest : List Char) : value fuel ('I' :: rest) = none := by
  cases fuel <;> rfl

theorem value_neg_infinity (fuel : ℕ) (rest : List Char) :
    value fuel ('-' :: 'I' :: rest) = none := by
  cases fuel <;> rfl

/-! ## What follows an item -/

theorem readMore_close {close : Char} (hblank : isWhitespace close = false) (hcomma : close ≠ ',')
    (more : List Char → Option (List Char)) (rest : List Char) :
    readMore close more (close :: rest) = some rest := by
  rw [readMore, skip_cons hblank, onHead_of_ne hcomma, onHead_self]

theorem readMore_comma (close : Char) (more : List Char → Option (List Char)) (rest : List Char) :
    readMore close more (',' :: rest) = more rest := rfl

theorem items_append {blanks : List Char} (h : blanks.all isWhitespace = true) (fuel : ℕ)
    (text : List Char) :
    items fuel (blanks ++ text) = items fuel text := by
  cases fuel with
  | zero => rfl
  | succ fuel =>
      show (value fuel (blanks ++ text)).bind _ = (value fuel text).bind _
      rw [value_append h]

theorem members_append {blanks : List Char} (h : blanks.all isWhitespace = true) (fuel : ℕ)
    (text : List Char) :
    members fuel (blanks ++ text) = members fuel text := by
  cases fuel with
  | zero => rfl
  | succ fuel =>
      show (readMember (value fuel) (blanks ++ text)).bind _ = (readMember (value fuel) text).bind _
      rw [readMember, readMember, skip_append h]

/-- A key in front of its value. -/
theorem readMember_key (value : List Char → Option (List Char)) (rest : List Char) :
    readMember value ('"' :: rest) = (stringTail false rest).bind fun rest =>
      onHead ':' value (fun _ => none) (skip rest) := rfl

end

end TaskFleet.StrictJson
