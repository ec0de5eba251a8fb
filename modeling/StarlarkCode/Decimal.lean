import StarlarkCode.Text.Digits

/-!
# Positional decimals

A decimal fraction as a whole number of units at a fixed number of places: `⟨125, 2⟩` is 1.25. Its
text is positional, without an exponent, with a digit on each side of the point.
-/

namespace StarlarkCode

/-- The decimal fraction `units / 10 ^ places`. -/
structure Decimal where
  units : Nat
  places : Nat
deriving DecidableEq, Repr

namespace Decimal

/-- The part before the point. -/
def whole (d : Decimal) : Nat :=
  d.units / Nat.pow 10 d.places

/-- The part after the point, in units of the last place. -/
def fraction (d : Decimal) : Nat :=
  d.units % Nat.pow 10 d.places

/-- The digits before the point, the point, and one digit per place. -/
def text (d : Decimal) : String :=
  String.ofList (Text.digits d.whole ++ '.' :: Text.paddedDigits d.places d.fraction)

end Decimal

end StarlarkCode
