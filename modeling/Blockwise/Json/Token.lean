import Blockwise.Json.Basic
import Blockwise.Numeral.Basic

/-!
# JSON tokens

A JSON text is first split into tokens: brackets, braces, commas, colons,
strings and plain values. Between tokens stands any number of blanks.

A number without point and exponent that fits a 64-bit word, signed or unsigned,
is an integer; every other number is a double. A double is computed in two
steps. Its digits are taken into a 64-bit word as long as they fit; digits
behind that only count for the power of ten. Then the word is multiplied or
divided by that power of ten as a double.
-/

namespace Blockwise.Json

/-- A token of a JSON text. A string without a value is `text none`. -/
inductive Token where
  | openArray
  | closeArray
  | openObject
  | closeObject
  | comma
  | colon
  | text (s : Option String)
  | value (j : Json)

/-! ## Numbers -/

namespace Number

/-- Takes digits into a 64-bit word as long as they fit. The result is
the word and the number of digits that were left out. -/
def absorb (word : Nat) : List Nat → Nat × Nat
  | [] => (word, 0)
  | digit :: rest =>
    if 10 * word + digit < UInt64.size then absorb (10 * word + digit) rest
    else (word, rest.length + 1)

def powerOfTen (n : Nat) : Float := .ofScientific 1 false n

/-- Divides by a power of ten, in steps of at most `10 ^ 308`. -/
def divideByPower (x : Float) (n : Nat) : Float :=
  if n ≤ 308 then x / powerOfTen n
  else if x == 0 then x
  else divideByPower (x / powerOfTen 308) (n - 308)
termination_by n

/-- The double of a word and a power of ten, unless it is too large. -/
def scale? (word : Nat) (e : Int) : Option Float :=
  let x : Float := .ofNat word
  match e with
  | .negSucc n => some (divideByPower x (n + 1))
  | .ofNat n =>
    if n ≤ 308 then
      let y := x * powerOfTen n
      if y.isInf then none else some y
    else if word = 0 then some x
    else none

/-- The magnitude of a numeral as a double, unless it is too large. A written
exponent of more than 31 bits decides by itself. -/
def magnitude? (n : Numeral) : Option Float :=
  let (word, dropped) := absorb 0 n.whole
  let (word, ignored) := absorb word n.fractionDigits
  let shift : Int := dropped - (n.fractionDigits.length - ignored : Nat)
  let written := n.writtenExponent
  if written.natAbs ≤ Int32.maxValue.toInt then scale? word (shift + written)
  else if word = 0 ∨ written < 0 then some 0
  else none

/-- The value of a numeral, unless it is too large. -/
def ofNumeral? (n : Numeral) : Option Number :=
  let whole : Int := Numeral.ofDigits n.whole
  let value := if n.isNegative then -whole else whole
  let isWhole := n.fraction.isNone && n.exponent.isNone && !(n.isNegative && whole == 0)
  if isWhole && Int64.minValue.toInt ≤ value && value < UInt64.size then some (.int value)
  else (magnitude? n).map fun x => .float (if n.isNegative then -x else x)

/-- Whether a numeral is written as a JSON number: no plus sign, at least one
digit before the point and no needless zero in front, and at least one digit
behind the point. -/
def isJson (n : Numeral) : Bool :=
  n.sign != some '+' && !n.whole.isEmpty && (n.whole.head? != some 0 || n.whole.length == 1) &&
    n.fraction != some []

end Number

def isNumberChar (c : Char) : Bool :=
  c.isDigit || c == '-' || c == '+' || c == '.' || c == 'e' || c == 'E'

/-- The token of a number. A number that is too large is void. -/
def numberToken? (cs : List Char) : Option Token :=
  match Numeral.ofChars? cs with
  | some n =>
    if Number.isJson n then
      some (.value (match Number.ofNumeral? n with
        | some number => .num number
        | none => .void))
    else none
  | none => none

/-! ## Strings -/

def hexDigit? (c : Char) : Option Nat :=
  if c.isDigit then some (c.toNat - '0'.toNat)
  else if 'a' ≤ c ∧ c ≤ 'f' then some (c.toNat - 'a'.toNat + 10)
  else if 'A' ≤ c ∧ c ≤ 'F' then some (c.toNat - 'A'.toNat + 10)
  else none

def hexWord? (a b c d : Char) : Option Nat := do
  let a ← hexDigit? a
  let b ← hexDigit? b
  let c ← hexDigit? c
  let d ← hexDigit? d
  some (((a * 16 + b) * 16 + c) * 16 + d)

def shortEscape? : Char → Option Char
  | '"' => some '"'
  | '\\' => some '\\'
  | '/' => some '/'
  | 'b' => some '\x08'
  | 'f' => some '\x0c'
  | 'n' => some '\n'
  | 'r' => some '\r'
  | 't' => some '\t'
  | _ => none

def isHighSurrogate (w : Nat) : Bool := 0xD800 ≤ w && w < 0xDC00

def isLowSurrogate (w : Nat) : Bool := 0xDC00 ≤ w && w < 0xE000

/-- A string that is being read: its characters so far, the latest first, as
long as it has a value, and a first half of a surrogate pair that waits for the
second. -/
structure StringState where
  chars : Option (List Char) := some []
  pending : Option Nat := none

namespace StringState

/-- A waiting half of a pair that is not completed leaves no value. -/
def settle (s : StringState) : StringState :=
  if s.pending.isSome then ⟨none, none⟩ else s

def push (s : StringState) (c : Char) : StringState :=
  { s.settle with chars := s.settle.chars.map (c :: ·) }

def pushWord (s : StringState) (w : Nat) : StringState :=
  match s.pending with
  | some high =>
    if isLowSurrogate w then
      let code := 0x10000 + (high - 0xD800) * 0x400 + (w - 0xDC00)
      ⟨s.chars.map (Char.ofNat code :: ·), none⟩
    else if isHighSurrogate w then ⟨none, some w⟩
    else ⟨none, none⟩
  | none =>
    if isHighSurrogate w then { s with pending := some w }
    else if isLowSurrogate w then ⟨none, none⟩
    else s.push (Char.ofNat w)

def result (s : StringState) : Option String :=
  s.settle.chars.map fun chars => .ofList chars.reverse

end StringState

/-- Reads a string up to its closing quote, and gives back what follows. A raw
control character, an unknown escape and a missing quote are refused. -/
def readString? (s : StringState) : List Char → Option (Option String × List Char)
  | [] => none
  | '"' :: rest => some (s.result, rest)
  | '\\' :: 'u' :: a :: b :: c :: d :: rest =>
    match hexWord? a b c d with
    | some w => readString? (s.pushWord w) rest
    | none => none
  | '\\' :: e :: rest =>
    match shortEscape? e with
    | some c => readString? (s.push c) rest
    | none => none
  | c :: rest => if c.toNat < 0x20 ∨ c = '\\' then none else readString? (s.push c) rest

theorem length_of_readString? {s : StringState} {cs rest : List Char} {text : Option String}
    (h : readString? s cs = some (text, rest)) : rest.length < cs.length := by
  fun_induction readString? s cs <;> simp_all <;> omega

theorem length_dropWhile_le (p : Char → Bool) (cs : List Char) :
    (cs.dropWhile p).length ≤ cs.length :=
  (List.dropWhile_sublist p).length_le

/-! ## Tokens -/

def isBlank (c : Char) : Bool := c == ' ' || c == '\t' || c == '\n' || c == '\r'

/-- Reads a token, and gives back what follows. -/
def readToken? : List Char → Option (Token × List Char)
  | '[' :: rest => some (.openArray, rest)
  | ']' :: rest => some (.closeArray, rest)
  | '\x7b' :: rest => some (.openObject, rest)
  | '\x7d' :: rest => some (.closeObject, rest)
  | ',' :: rest => some (.comma, rest)
  | ':' :: rest => some (.colon, rest)
  | '"' :: rest => (readString? {} rest).map fun read => (.text read.1, read.2)
  | 't' :: 'r' :: 'u' :: 'e' :: rest => some (.value (.bool true), rest)
  | 'f' :: 'a' :: 'l' :: 's' :: 'e' :: rest => some (.value (.bool false), rest)
  | 'n' :: 'u' :: 'l' :: 'l' :: rest => some (.value .null, rest)
  | c :: rest =>
    (numberToken? (c :: rest.takeWhile isNumberChar)).map
      fun token => (token, rest.dropWhile isNumberChar)
  | [] => none

theorem length_of_readToken? {cs rest : List Char} {token : Token}
    (h : readToken? cs = some (token, rest)) : rest.length < cs.length := by
  unfold readToken? at h
  split at h
  case h_7 after =>
    obtain ⟨⟨s, rest'⟩, hread, heq⟩ := Option.map_eq_some_iff.1 h
    cases heq
    exact Nat.lt_succ_of_lt (length_of_readString? hread)
  case h_11 c after _ _ _ _ _ _ _ _ _ _ =>
    obtain ⟨token', _, heq⟩ := Option.map_eq_some_iff.1 h
    cases heq
    exact Nat.lt_succ_of_le (length_dropWhile_le isNumberChar after)
  case h_12 => cases h
  all_goals
    cases h
    simp +arith

def tokens? (cs : List Char) : Option (List Token) :=
  if (cs.dropWhile isBlank).isEmpty then some []
  else
    match _h : readToken? (cs.dropWhile isBlank) with
    | some (token, rest) => (tokens? rest).map (token :: ·)
    | none => none
termination_by cs.length
decreasing_by
  exact Nat.lt_of_lt_of_le (length_of_readToken? _h) (length_dropWhile_le isBlank cs)

end Blockwise.Json
