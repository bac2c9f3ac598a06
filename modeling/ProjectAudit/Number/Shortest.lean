import ProjectAudit.Number.Binary64

/-!
# The shortest decimal of a number

The text of a floating-point number has the fewest digits that read back as the number.  The reals
that round to it form an interval, whose ends belong to it when the mantissa is even.  On the grid
of decimals with a given number of digits the two neighbours of the number are tried; the first
grid with a hit gives the digits, and of two hits the nearer one.

`Format` holds the remaining choices of the text.  They are those of `plain`: positional notation
for decimal exponents from `-4` up to `15`, a point in every positional text, and an exponent of at
least two digits elsewhere.
-/

namespace ProjectAudit.Binary64

/-- A positive fraction. -/
structure Fraction where
  num : Nat
  den : Nat

/-- `m * 2 ^ e` as a fraction. -/
def Fraction.ofScaled (m : Nat) (e : Int) : Fraction :=
  if 0 ≤ e then ⟨m * .pow 2 e.toNat, 1⟩ else ⟨m, .pow 2 (-e).toNat⟩

/-- `n * 10 ^ k` as a fraction. -/
def Fraction.ofDecimal (n : Nat) (k : Int) : Fraction :=
  if 0 ≤ k then ⟨n * .pow 10 k.toNat, 1⟩ else ⟨n, .pow 10 (-k).toNat⟩

/-- Order of fractions. -/
def Fraction.le (a b : Fraction) : Bool :=
  a.num * b.den ≤ b.num * a.den

/-- Strict order of fractions. -/
def Fraction.lt (a b : Fraction) : Bool :=
  a.num * b.den < b.num * a.den

/-- The whole part of `a * 10 ^ k`. -/
def Fraction.floorScaled (a : Fraction) (k : Int) : Nat :=
  if 0 ≤ k then a.num * .pow 10 k.toNat / a.den else a.num / (a.den * .pow 10 (-k).toNat)

/-- The distance of two fractions. -/
def Fraction.dist (a b : Fraction) : Fraction :=
  let x := a.num * b.den
  let y := b.num * a.den
  ⟨if x ≤ y then y - x else x - y, a.den * b.den⟩

/-- The decimal reads back as the number with the given mantissa and exponent. -/
def readsBack (mantissa : Nat) (exponent : Int) (d : Fraction) : Bool :=
  let narrow := mantissa == .pow 2 52 && exponent > minExponent
  let low := if narrow then Fraction.ofScaled (4 * mantissa - 1) (exponent - 2)
    else Fraction.ofScaled (2 * mantissa - 1) (exponent - 1)
  let high := Fraction.ofScaled (2 * mantissa + 1) (exponent - 1)
  if mantissa % 2 = 0 then low.le d && d.le high else low.lt d && d.lt high

/-- The decimal exponent of the first digit, found among `fuel` candidates downward from `k`. -/
def leadingPlace (v : Fraction) : (fuel : Nat) → (k : Int) → Int
  | 0, k => k
  | fuel + 1, k =>
    if (Fraction.ofDecimal 1 k).le v then k else leadingPlace v fuel (k - 1)

/-- The neighbour on the grid of multiples of `10 ^ place` that reads back, if one does. -/
def hitOnGrid? (mantissa : Nat) (exponent : Int) (place : Int) : Option Nat :=
  let v := Fraction.ofScaled mantissa exponent
  let below := v.floorScaled (-place)
  let above := below + 1
  let ok := fun n => readsBack mantissa exponent (Fraction.ofDecimal n place)
  match ok below, ok above with
  | true, true =>
    let toBelow := v.dist (Fraction.ofDecimal below place)
    let toAbove := v.dist (Fraction.ofDecimal above place)
    if toBelow.lt toAbove then some below
    else if toAbove.lt toBelow then some above
    else if below % 2 = 0 then some below else some above
  | true, false => some below
  | false, true => some above
  | false, false => none

/-- A decimal `n * 10 ^ place`. -/
structure Decimal where
  n : Nat
  place : Int

/-- The first hit on the grids with `digits`, `digits + 1`, … digits. -/
def firstHit (mantissa : Nat) (exponent leading : Int) : (fuel digits : Nat) → Decimal
  | 0, _ => ⟨mantissa, exponent⟩
  | fuel + 1, digits =>
    let place := leading - (digits : Int) + 1
    match hitOnGrid? mantissa exponent place with
    | some n => ⟨n, place⟩
    | none => firstHit mantissa exponent leading fuel (digits + 1)

/-- The shortest decimal of a positive number, the nearest of that length. -/
def shortest (mantissa : Nat) (exponent : Int) : Decimal :=
  let leading := leadingPlace (Fraction.ofScaled mantissa exponent) 700 310
  firstHit mantissa exponent leading 17 1

/-- The choices of a number's text. -/
structure Format where
  /-- The least decimal exponent of a positional text. -/
  leastPositional : Int
  /-- The least decimal exponent above those of positional texts. -/
  abovePositional : Int
  /-- The least number of digits of an exponent. -/
  exponentDigits : Nat
  nan : String
  infinity : String

/-- The form in which numbers are shown inside texts. -/
def plain : Format where
  leastPositional := -4
  abovePositional := 16
  exponentDigits := 2
  nan := "nan"
  infinity := "inf"

/-- Digits without the zeros at their end. -/
def dropLastZeros (ds : List Char) : List Char :=
  (ds.reverse.dropWhile (· == '0')).reverse

/-- The text of a number `0.d₁d₂… * 10 ^ (e + 1)` with digits `d₁d₂…`. -/
def Format.digits (f : Format) (ds : List Char) (e : Int) : List Char :=
  if f.leastPositional ≤ e && e < f.abovePositional then
    if e < 0 then '0' :: '.' :: (List.replicate (-e - 1).toNat '0' ++ ds)
    else
      let whole := e.toNat + 1
      let front := ds.take whole ++ List.replicate (whole - ds.length) '0'
      let fraction := ds.drop whole
      front ++ '.' :: (if fraction.isEmpty then ['0'] else fraction)
  else
    let mantissa := match ds with
      | [] => []
      | [d] => [d]
      | d :: rest => d :: '.' :: rest
    let digits := Nat.toDigits 10 e.natAbs
    let padded := List.replicate (f.exponentDigits - digits.length) '0' ++ digits
    mantissa ++ 'e' :: (if e < 0 then '-' else '+') :: padded

/-- The text of a number. -/
def Format.text (f : Format) : Binary64 → String
  | .nan => f.nan
  | .infinite negative => (if negative then "-" else "") ++ f.infinity
  | .finite negative m e =>
    let body :=
      if m = 0 then f.digits ['0'] 0
      else
        let d := shortest m e
        let ds := Nat.toDigits 10 d.n
        f.digits (dropLastZeros ds) (d.place + (ds.length : Int) - 1)
    (if negative then "-" else "") ++ String.ofList body

end ProjectAudit.Binary64
