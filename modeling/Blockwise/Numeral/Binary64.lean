/-!
# Doubles as exact numbers

A finite double is a sign, a mantissa and a power of two. `Binary64.parts?`
takes a double apart, and from the parts follow, in exact integer arithmetic,
its nearest integer and the interval of numbers that are nearest to it.
-/

namespace Blockwise.Binary64

/-- A finite double: `mantissa * 2 ^ exponent`, negated if `negative`. -/
structure Parts where
  negative : Bool
  mantissa : Nat
  exponent : Int
deriving DecidableEq

/-- The leading bit of a mantissa, which is not stored: all mantissas but the
least ones have it. -/
def impliedBit : Nat := 1 <<< 52

/-- The parts of a finite double; `none` for an infinity and for a NaN. The
exponent field is biased, its least value stands for the same power of two as
the next one, and above that the leading bit of the mantissa is implied. -/
def parts? (x : Float) : Option Parts :=
  let bits : Nat := x.toBits.toNat
  let negative := bits >>> 63 == 1
  let field : Nat := (bits >>> 52) % 2048
  let fraction : Nat := bits % impliedBit
  if field = 2047 then none
  else if field = 0 then some ⟨negative, fraction, -1074⟩
  else some ⟨negative, impliedBit + fraction, (field : Int) - 1075⟩

/-- The integer nearest to a finite double; a half goes away from zero. -/
def round? (x : Float) : Option Int :=
  (parts? x).map fun p =>
    let magnitude :=
      match p.exponent with
      | .ofNat e => p.mantissa <<< e
      | .negSucc e => (p.mantissa + 1 <<< e) >>> (e + 1)
    if p.negative then -(magnitude : Int) else magnitude

end Blockwise.Binary64
