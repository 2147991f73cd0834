import Blockwise.Numeral.Binary64

/-!
# The shortest decimal of a double

A finite double is written with as few digits as read back as the same double.
The numbers that read back form an interval around the double, whose ends
belong to it when the mantissa is even. `shortest` tries one digit, two digits,
and so on: on the grid of decimals with that many digits it looks at the two
neighbours of the double, and takes the nearer one of those in the interval.
All of this is exact arithmetic on natural numbers.
-/

namespace Blockwise

/-- A positive decimal: `d.ddd * 10 ^ exponent` for the digits `dddd`. -/
structure Decimal where
  digits : List Char
  exponent : Int
deriving DecidableEq

namespace Decimal

/-- `n * 10 ^ k`, without the zeros at the end. -/
def ofScaled (n : Nat) (k : Int) : Decimal :=
  let digits := Nat.toDigits 10 n
  let significant := (digits.reverse.dropWhile (· == '0')).reverse
  ⟨if significant.isEmpty then ['0'] else significant, k + (digits.length - 1 : Nat)⟩

def zero : Decimal := ⟨['0'], 0⟩

/-- `10 ^ k` for a `k` that is not negative, and otherwise one. -/
def powerOfTen (k : Int) : Nat := Nat.pow 10 k.toNat

/-- The number of digits of the whole part of a number that is not below one. -/
def wholeDigits (num den : Nat) : Nat := (Nat.toDigits 10 (num / den)).length

/-- The exponent of the first digit of `num / den`, both not zero. -/
def firstExponent (num den : Nat) : Int :=
  if den ≤ num then wholeDigits num den - 1
  else
    let places := wholeDigits den num
    if den ≤ num * powerOfTen (places - 1) then 1 - places else -places

/-- The numbers `low / den`, `value / den` and `high / den`: a double, and the
ends of the interval of numbers that are nearest to it. -/
structure Span where
  low : Nat
  value : Nat
  high : Nat
  den : Nat
  /-- Whether the ends belong to the interval. -/
  closed : Bool

/-- The interval of a double with a mantissa that is not zero. Below a power of
two the doubles lie closer together than above it. -/
def Span.ofParts (p : Binary64.Parts) : Span :=
  let below := if p.mantissa = Binary64.impliedBit ∧ p.exponent ≠ -1074 then 1 else 2
  { low := (4 * p.mantissa - below) <<< p.exponent.toNat
    value := (4 * p.mantissa) <<< p.exponent.toNat
    high := (4 * p.mantissa + 2) <<< p.exponent.toNat
    den := 4 <<< (-p.exponent).toNat
    closed := p.mantissa % 2 = 0 }

/-- The neighbours of the value on the grid of the multiples of `10 ^ k`, as far
as they lie in the interval; of two of them the nearer. `halfUp` decides when
both are equally near: for the upper one, or for the even one. -/
def Span.onGrid? (s : Span) (halfUp : Bool) (k : Int) : Option Decimal :=
  let up := powerOfTen (-k)
  let unit := s.den * powerOfTen k
  let value := s.value * up
  let inside (n : Nat) : Bool :=
    if s.closed then s.low * up ≤ n * unit ∧ n * unit ≤ s.high * up
    else s.low * up < n * unit ∧ n * unit < s.high * up
  let n := value / unit
  let toLower := value - n * unit
  let toUpper := (n + 1) * unit - value
  let lowerWins :=
    toLower < toUpper || (toLower == toUpper && !halfUp && n % 2 == 0)
  match inside n, inside (n + 1) with
  | true, true => some (ofScaled (if lowerWins then n else n + 1) k)
  | true, false => some (ofScaled n k)
  | false, true => some (ofScaled (n + 1) k)
  | false, false => none

/-- The decimal with the fewest digits that reads back as the double with the
given parts, its sign aside. Seventeen digits are always enough. -/
def shortest (halfUp : Bool) (p : Binary64.Parts) : Decimal :=
  if p.mantissa = 0 then zero
  else
    let s := Span.ofParts p
    let first := firstExponent s.value s.den
    ((List.range 17).findSome? fun (more : Nat) =>
      s.onGrid? halfUp (first - (more : Int))).getD zero

end Decimal

/-- How the decimal of a double is written. -/
structure DecimalStyle where
  /-- The exponents of the first digit at which no exponent is written. -/
  positional : Int → Bool
  /-- Whether a number without a fraction is marked by `.0`. -/
  marksWhole : Bool
  /-- Whether the upper of two equally near shortest decimals is taken. -/
  halfUp : Bool

namespace DecimalStyle

/-- `n` zeros. -/
def zeros (n : Nat) : List Char := List.replicate n '0'

/-- A decimal without exponent. -/
def positionalText (style : DecimalStyle) (d : Decimal) : List Char :=
  match d.exponent with
  | .negSucc before => '0' :: '.' :: (zeros before ++ d.digits)
  | .ofNat e =>
    let whole := d.digits.take (e + 1)
    let fraction := d.digits.drop (e + 1)
    let point := if fraction.isEmpty then (if style.marksWhole then ['.', '0'] else [])
      else '.' :: fraction
    whole ++ zeros (e + 1 - whole.length) ++ point

/-- A decimal with exponent: one digit before the point, and always a sign in
the exponent. -/
def exponentText (d : Decimal) : List Char :=
  let fraction := d.digits.drop 1
  let point := if fraction.isEmpty then [] else '.' :: fraction
  let sign := if d.exponent < 0 then '-' else '+'
  d.digits.take 1 ++ point ++ 'e' :: sign :: Nat.toDigits 10 d.exponent.natAbs

/-- The text of a finite double. -/
def text? (style : DecimalStyle) (x : Float) : Option String :=
  (Binary64.parts? x).map fun p =>
    let d := Decimal.shortest style.halfUp p
    let body := if style.positional d.exponent then style.positionalText d else exponentText d
    .ofList (if p.negative then '-' :: body else body)

end DecimalStyle

end Blockwise
