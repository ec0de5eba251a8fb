import StarlarkCode.Binary64
import StarlarkCode.Decimal

/-!
# Float literals

The text of a float. A finite number is written positionally with digits on both sides of the
point, so that it never reads as an integer:

- a number without a fractional part is written exactly, with one zero after the point;
- any other number has the fewest decimal places that read back as that number. Of two candidates
  with as many places the nearer is taken, and of two equally near ones the greater.

A decimal reads back as `x` when it lies between the midpoints to the neighbours of `x`; the
midpoints themselves round to the even significand, so they count exactly when that of `x` is even.
The comparison is exact: `units / 10 ^ places` and the midpoints are compared over a common
denominator.

What is not finite has no numeral and is written as a conversion from text.
-/

namespace StarlarkCode

namespace Binary64

/-- The distance from `x` down to the midpoint below it, in quarters of its last significand bit.
Below a power of two the numbers lie twice as dense, except at the edge of the subnormal numbers. -/
def lowerMargin (x : Binary64) : Nat :=
  if 1 < x.exponentField ∧ x.fractionField = 0 then 1 else 2

/-- The decimal rounds to the magnitude of `x`: it lies between the midpoints around it. -/
def readsAs (x : Binary64) (d : Decimal) : Bool :=
  let value := 4 * d.units * x.denominator
  let low := (4 * x.significand - x.lowerMargin) * Nat.pow 2 x.scale.toNat * Nat.pow 10 d.places
  let high := (4 * x.significand + 2) * Nat.pow 2 x.scale.toNat * Nat.pow 10 d.places
  if x.significand % 2 = 0 then low ≤ value && value ≤ high else low < value && value < high

/-- The decimal with the given number of places that reads back as `x` and lies nearest to it, if
there is one. Only the two neighbours of `x` on the decimal grid can be nearest. -/
def nearest? (x : Binary64) (places : Nat) : Option Decimal :=
  let scaled := x.numerator * Nat.pow 10 places
  let below : Decimal := ⟨scaled / x.denominator, places⟩
  let above : Decimal := ⟨scaled / x.denominator + 1, places⟩
  match x.readsAs below, x.readsAs above with
  | true, true => some (if 2 * (scaled % x.denominator) < x.denominator then below else above)
  | true, false => some below
  | false, true => some above
  | false, false => none

/-- The magnitude in full: a fraction over `2 ^ n` has at most `n` places. -/
def exactDecimal (x : Binary64) : Decimal :=
  let places := (-x.scale).toNat
  ⟨x.numerator * Nat.pow 5 places, places⟩

/-- The decimal with the fewest places that reads back as `x`, for a number with a fractional part.
-/
def shortest (x : Binary64) : Decimal :=
  ((List.range' 1 (-x.scale).toNat).findSome? x.nearest?).getD x.exactDecimal

/-- The decimal that stands for the magnitude of a finite number. -/
def decimal (x : Binary64) : Decimal :=
  if x.isIntegral then ⟨x.numerator / x.denominator * 10, 1⟩ else x.shortest

/-- The text of a float. -/
def literal (x : Binary64) : String :=
  if x.isFinite then
    (if x.isNegative then "-" else "") ++ x.decimal.text
  else if x.isNaN then "float(\"nan\")"
  else if x.isNegative then "float(\"-inf\")"
  else "float(\"inf\")"

end Binary64

end StarlarkCode
