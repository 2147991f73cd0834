/-!
# Decimal numerals

A numeral is a text such as `-12.50e3`. `Numeral.ofChars?` splits it into its
sign, the digits before and after the point, and its exponent; each of them may
be missing. Which numerals are accepted, and how exactly their value is taken,
is up to the format that uses them.
-/

namespace Blockwise

/-- The pieces of a numeral. A digit is given by its value; `fraction` is `none`
when there is no point. -/
structure Numeral where
  sign : Option Char
  whole : List Nat
  fraction : Option (List Nat)
  exponent : Option (Option Char × List Nat)
deriving DecidableEq

namespace Numeral

def splitSign : List Char → Option Char × List Char
  | '+' :: rest => (some '+', rest)
  | '-' :: rest => (some '-', rest)
  | cs => (none, cs)

/-- Splits off the leading digits `0 … 9`. -/
def splitDigits (cs : List Char) : List Nat × List Char :=
  ((cs.takeWhile Char.isDigit).map fun c => c.toNat - '0'.toNat, cs.dropWhile Char.isDigit)

/-- Splits off a leading point with the digits behind it. -/
def splitFraction : List Char → Option (List Nat) × List Char
  | '.' :: rest => (some (splitDigits rest).1, (splitDigits rest).2)
  | cs => (none, cs)

/-- Reads an exponent, which takes all that is left and has at least one digit. -/
def exponent? (cs : List Char) : Option (Option Char × List Nat) :=
  let (sign, cs) := splitSign cs
  let (digits, cs) := splitDigits cs
  if digits.isEmpty || !cs.isEmpty then none else some (sign, digits)

/-- The pieces of a text, if it is a sign, digits, a point with digits and an
exponent, where each of the four may be missing. -/
def ofChars? (cs : List Char) : Option Numeral :=
  let (sign, cs) := splitSign cs
  let (whole, cs) := splitDigits cs
  let (fraction, cs) := splitFraction cs
  match cs with
  | [] => some ⟨sign, whole, fraction, none⟩
  | c :: cs =>
    if c == 'e' || c == 'E' then
      (exponent? cs).map fun exponent => ⟨sign, whole, fraction, some exponent⟩
    else none

/-- Whether the numeral is below zero, or a negative zero. -/
def isNegative (n : Numeral) : Bool := n.sign == some '-'

def ofDigits (digits : List Nat) : Nat := digits.foldl (fun value digit => 10 * value + digit) 0

def writtenExponent (n : Numeral) : Int :=
  match n.exponent with
  | none => 0
  | some (sign, digits) => if sign == some '-' then -(ofDigits digits : Int) else ofDigits digits

def fractionDigits (n : Numeral) : List Nat := n.fraction.getD []

/-- `x * 10 ^ e`, rounded once to the nearest double. -/
def scaled (x : Nat) (e : Int) : Float := .ofScientific x (e < 0) e.natAbs

/-- The double nearest to a numeral; beyond the largest one, an infinity. -/
def toFloat (n : Numeral) : Float :=
  let magnitude :=
    scaled (ofDigits (n.whole ++ n.fractionDigits)) (n.writtenExponent - n.fractionDigits.length)
  if n.isNegative then -magnitude else magnitude

end Numeral

end Blockwise
