/-!
# Binary floating-point numbers

A number with a fraction or an exponent is kept as the nearest number of the 64-bit binary format:
a sign, and `mantissa * 2 ^ exponent` with a mantissa below `2 ^ 53` and an exponent of at least
`-1074`.  Everything is exact arithmetic on naturals, so the rounding can be reasoned about and run
by the kernel.

The mantissa of a number that is not zero has 53 bits, unless the exponent is the least one.
-/

namespace ProjectAudit

/-- A number of the 64-bit binary format. -/
inductive Binary64
  | nan
  | infinite (negative : Bool)
  | finite (negative : Bool) (mantissa : Nat) (exponent : Int)
  deriving DecidableEq, Repr

namespace Binary64

/-- The least exponent. -/
def minExponent : Int := -1074

/-- The greatest exponent of a finite number. -/
def maxExponent : Int := 971

/-- A quotient rounded to the nearest natural, a half to the even neighbour. -/
def roundQuotient (num den : Nat) : Nat :=
  let q := num / den
  let r := num % den
  if 2 * r < den then q
  else if 2 * r > den then q + 1
  else if q % 2 = 0 then q else q + 1

/-- The quotient of `num` by `den * 2 ^ e`, as numerator and denominator. -/
def scaleDown (num den : Nat) (e : Int) : Nat × Nat :=
  if 0 ≤ e then (num, den * .pow 2 e.toNat) else (num * .pow 2 (-e).toNat, den)

/-- The nearest number to a positive fraction, the even mantissa on a tie. -/
def ofFraction (negative : Bool) (num den : Nat) : Binary64 :=
  let guess : Int := (Nat.log2 num : Int) - (Nat.log2 den : Int) - 53
  let (n, d) := scaleDown num den guess
  let fitted := if n / d < .pow 2 53 then guess else guess + 1
  let exponent := max fitted minExponent
  let (n, d) := scaleDown num den exponent
  let m := roundQuotient n d
  let (m, e) := if m = .pow 2 53 then (.pow 2 52, exponent + 1) else (m, exponent)
  if e > maxExponent then .infinite negative else .finite negative m e

/-- The number of decimal digits of a natural. -/
def digitCount (n : Nat) : Nat :=
  (Nat.toDigits 10 n).length

/-- The nearest number to `n * 10 ^ e`.  Beyond 310 digits before the point every number is
infinite, and with 330 zeros after it every number is zero; powers of ten are formed only between
these. -/
def ofDecimal (negative : Bool) (n : Nat) (e : Int) : Binary64 :=
  let places : Int := (digitCount n : Int) + e
  if n = 0 || places < -330 then .finite negative 0 minExponent
  else if places > 310 then .infinite negative
  else if 0 ≤ e then ofFraction negative (n * .pow 10 e.toNat) 1
  else ofFraction negative n (.pow 10 (-e).toNat)

/-- Zero of either sign. -/
def isZero : Binary64 → Bool
  | .finite _ m _ => m == 0
  | _ => false

/-- The integer that a number is, if it is one. -/
def toInt? : Binary64 → Option Int
  | .finite negative m e =>
    let magnitude : Option Nat :=
      if 0 ≤ e then some (m * .pow 2 e.toNat)
      else
        let d := Nat.pow 2 (-e).toNat
        if m % d = 0 then some (m / d) else none
    magnitude.map fun n => if negative then -(n : Int) else n
  | _ => none

end Binary64

end ProjectAudit
