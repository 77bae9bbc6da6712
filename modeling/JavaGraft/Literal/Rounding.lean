/-!
# Nearest binary floating-point numbers

A positive rational is rounded to the nearest number of a binary floating-point format, a tie going
to the even neighbour, and the result is given by its bits. All arithmetic is exact: the rational
is brought to the scale at which a number of the format has exactly as many digits as fit, cut
there, and rounded by what was cut off. Because the bits of a format count its numbers upwards, a
carry out of the digits lands in the exponent by itself.
-/

namespace JavaGraft

/-- A binary floating-point format, by the numbers of its stored digits and exponent bits. -/
structure BinaryFormat where
  digits : Nat
  exponent : Nat
deriving DecidableEq, Repr

namespace BinaryFormat

/-- The format of `float`. -/
def single : BinaryFormat := ⟨23, 8⟩

/-- The format of `double`. -/
def double : BinaryFormat := ⟨52, 11⟩

/-- The bits of infinity. -/
def infinity (f : BinaryFormat) : Nat := (Nat.pow 2 f.exponent - 1) * Nat.pow 2 f.digits

/-- The scale of the smallest positive number, which is two to this power. -/
def minScale (f : BinaryFormat) : Int := 2 - Nat.pow 2 (f.exponent - 1) - f.digits

/-- A quotient rounded to the nearest integer, a tie going to the even one. -/
def divRound (num den : Nat) : Nat :=
  let q := num / den
  let r := num % den
  if 2 * r < den then q else if den < 2 * r then q + 1 else q + q % 2

/-- The numerator and denominator of a quotient divided by two to the power `scale`. -/
def rescale (num den : Nat) (scale : Int) : Nat × Nat :=
  if 0 ≤ scale then (num, den * Nat.pow 2 scale.toNat)
  else (num * Nat.pow 2 (-scale).toNat, den)

/-- The scale at which a positive quotient has just the digits of the format. -/
def scaleOf (f : BinaryFormat) (num den : Nat) : Int :=
  let guess : Int := (num.log2 : Int) - den.log2 - f.digits
  let (n, d) := rescale num den guess
  max f.minScale (if n / d < Nat.pow 2 f.digits then guess - 1 else guess)

/-- **The bits of the number nearest to a positive quotient.** -/
def ofQuotient (f : BinaryFormat) (num den : Nat) : Nat :=
  let scale := f.scaleOf num den
  let (n, d) := rescale num den scale
  min f.infinity ((scale - f.minScale).toNat * Nat.pow 2 f.digits + divRound n d)

/-- A power of ten beyond which every number of the format has under- or overflowed. -/
def decimalLimit (f : BinaryFormat) : Int := Nat.pow 2 (f.exponent - 1)

/-- The bits of the number nearest to `mantissa` times ten to a power. -/
def ofDecimal (f : BinaryFormat) (mantissa : Nat) (power : Int) : Nat :=
  if mantissa = 0 then 0
  else
    let size : Int := (Nat.toDigits 10 mantissa).length + power
    if f.decimalLimit < size then f.infinity
    else if size < -f.decimalLimit then 0
    else if 0 ≤ power then f.ofQuotient (mantissa * Nat.pow 10 power.toNat) 1
    else f.ofQuotient mantissa (Nat.pow 10 (-power).toNat)

end BinaryFormat

end JavaGraft
