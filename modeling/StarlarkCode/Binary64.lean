/-!
# Double precision numbers

A float is its 64 bits: sign, eleven bits of exponent, 52 bits of fraction. Two relations are kept
apart. Equality of `Binary64` is equality of bits, which tells the two zeros apart and equates a NaN
with itself; `numEq` is the comparison of numbers, under which the zeros are equal and a NaN is
equal to nothing.
-/

namespace StarlarkCode

/-- A double precision number by its bit pattern. -/
structure Binary64 where
  bits : UInt64
deriving DecidableEq, Hashable, Repr

namespace Binary64

/-- The sign bit is set. -/
def isNegative (x : Binary64) : Bool :=
  Nat.pow 2 63 ≤ x.bits.toNat

/-- The eleven exponent bits. -/
def exponentField (x : Binary64) : Nat :=
  x.bits.toNat / Nat.pow 2 52 % Nat.pow 2 11

/-- The 52 fraction bits. -/
def fractionField (x : Binary64) : Nat :=
  x.bits.toNat % Nat.pow 2 52

/-- Neither an infinity nor a NaN: the exponent bits are not all set. -/
def isFinite (x : Binary64) : Bool :=
  x.exponentField != 2047

/-- Not a number: all exponent bits and some fraction bit are set. -/
def isNaN (x : Binary64) : Bool :=
  x.exponentField == 2047 && x.fractionField != 0

/-- One of the two zeros. -/
def isZero (x : Binary64) : Bool :=
  x.exponentField == 0 && x.fractionField == 0

/-- Comparison as numbers: the zeros are equal, and a NaN is equal to nothing, itself included. -/
def numEq (x y : Binary64) : Bool :=
  !x.isNaN && !y.isNaN && (x == y || (x.isZero && y.isZero))

/-- The significand `m` of a finite number of magnitude `m * 2 ^ scale`. A number whose exponent
bits are zero is subnormal and lacks the leading one. -/
def significand (x : Binary64) : Nat :=
  if x.exponentField = 0 then x.fractionField else Nat.pow 2 52 + x.fractionField

/-- The power of two that scales the significand. -/
def scale (x : Binary64) : Int :=
  if x.exponentField = 0 then -1074 else (x.exponentField : Int) - 1075

/-- The magnitude of a finite number as a fraction: `numerator / denominator`. -/
def numerator (x : Binary64) : Nat :=
  x.significand * Nat.pow 2 x.scale.toNat

/-- The denominator of the magnitude, a power of two. -/
def denominator (x : Binary64) : Nat :=
  Nat.pow 2 (-x.scale).toNat

/-- A finite number without a fractional part. -/
def isIntegral (x : Binary64) : Bool :=
  x.numerator % x.denominator == 0

end Binary64

end StarlarkCode
