/-!
# Double precision numbers

A `Binary64` is a double by its bit pattern: sign, eleven exponent bits,
fifty-two fraction bits. Arithmetic is exact on natural numbers followed by one
rounding: `ofRatio` is the double nearest to a quotient, ties to the even
neighbour, and every other constructor goes through it. NaN never arises here.
-/

namespace MiniTemplate

/-- A double, by its bit pattern. -/
structure Binary64 where
  bits : Nat
  deriving DecidableEq, Repr

namespace Binary64

/-- The bit pattern of positive infinity; finite patterns without sign lie below. -/
def infiniteBits : Nat := 0x7FF0000000000000

/-- The weight of the sign bit. -/
def signBit : Nat := 0x8000000000000000

instance : Inhabited Binary64 := ⟨⟨0⟩⟩

/-- Whether the sign bit is set. -/
def isNegative (x : Binary64) : Bool := decide (signBit ≤ x.bits)

/-- The bit pattern without its sign. -/
def magnitude (x : Binary64) : Nat := if x.isNegative then x.bits - signBit else x.bits

/-- Whether the number is infinite. -/
def isInfinite (x : Binary64) : Bool := decide (infiniteBits ≤ x.magnitude)

/-- Whether the number is zero of either sign. -/
def isZero (x : Binary64) : Bool := x.magnitude == 0

/-- The number with its sign bit set as given. -/
def withSign (negative : Bool) (magnitude : Nat) : Binary64 :=
  ⟨if negative then signBit + magnitude else magnitude⟩

/-- A finite magnitude is `significand * 2 ^ (exponent - 1074)`. -/
structure Parts where
  significand : Nat
  exponent : Nat
  deriving DecidableEq, Repr

/-- The exact value of a finite number, its sign aside. -/
def parts (x : Binary64) : Parts :=
  let field := x.magnitude / Nat.pow 2 52
  let fraction := x.magnitude % Nat.pow 2 52
  if field = 0 then ⟨fraction, 0⟩ else ⟨Nat.pow 2 52 + fraction, field - 1⟩

/-- The finite value without its sign as a quotient: numerator and denominator. -/
def ratio (x : Binary64) : Nat × Nat :=
  let p := x.parts
  if p.exponent < 1074 then (p.significand, Nat.pow 2 (1074 - p.exponent))
  else (p.significand * Nat.pow 2 (p.exponent - 1074), 1)

/-- `num / den` to the nearest integer, ties to even. -/
def roundQuotient (num den : Nat) : Nat :=
  let q := num / den
  let r := num % den
  if 2 * r < den then q
  else if den < 2 * r then q + 1
  else if q % 2 = 0 then q else q + 1

/-- The exponent at which `num / den` keeps 53 significant bits, counted from the
smallest one: the significand then lies between `2 ^ 52` and `2 ^ 53`, or below
when the number is subnormal. -/
def scaleOf (num den : Nat) : Nat :=
  let above := num.log2 + 1074
  let guess := above - (den.log2 + 52)
  if num * Nat.pow 2 1074 < den * Nat.pow 2 (52 + guess) then guess - 1 else guess

/-- The magnitude bits nearest to `num / den`; too large a quotient gives infinity. -/
def magnitudeOfRatio (num den : Nat) : Nat :=
  if num = 0 then 0
  else
    let e := scaleOf num den
    let significand := roundQuotient (num * Nat.pow 2 1074) (den * Nat.pow 2 e)
    -- The leading bit of the significand adds one to the exponent field, as does a carry out of the
    -- rounding; a subnormal number lacks that bit.
    Nat.min (e * Nat.pow 2 52 + significand) infiniteBits

/-- **The nearest double** to `num / den` with the given sign, ties to even. -/
def ofRatio (negative : Bool) (num den : Nat) : Binary64 :=
  withSign negative (magnitudeOfRatio num den)

/-- The nearest double to a natural number. -/
def ofNat (n : Nat) : Binary64 := ofRatio false n 1

/-- The nearest double to an integer. -/
def ofInt (i : Int) : Binary64 := ofRatio (decide (i < 0)) i.natAbs 1

/-- The number of decimal digits of `n`, one for zero. -/
def digitCount (n : Nat) : Nat := (Nat.toDigits 10 n).length

/-- **The nearest double** to `digits * 10 ^ exponent`. Decimals that are out of
range by their number of digits alone are decided without computing the power. -/
def ofDecimal (negative : Bool) (digits : Nat) (exponent : Int) : Binary64 :=
  let order : Int := digitCount digits + exponent
  if digits = 0 ∨ order < -330 then withSign negative 0
  else if 320 < order then withSign negative infiniteBits
  else match exponent with
    | .ofNat e => ofRatio negative (digits * Nat.pow 10 e) 1
    | .negSucc e => ofRatio negative digits (Nat.pow 10 (e + 1))

/-- The product of two finite numbers, rounded once. -/
def mul (x y : Binary64) : Binary64 :=
  let (a, b) := x.ratio
  let (c, d) := y.ratio
  ofRatio (x.isNegative != y.isNegative) (a * c) (b * d)

/-- The quotient of two finite numbers, rounded once; the divisor is not zero. -/
def div (x y : Binary64) : Binary64 :=
  let (a, b) := x.ratio
  let (c, d) := y.ratio
  ofRatio (x.isNegative != y.isNegative) (a * d) (b * c)

end Binary64

end MiniTemplate
