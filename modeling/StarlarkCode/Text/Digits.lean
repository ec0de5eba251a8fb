/-!
# Decimal digits

Numbers written in base ten: a natural number by its digits, an integer with a leading minus sign
when it is negative, and a natural number filled up with zeros to a fixed width.
-/

namespace StarlarkCode.Text

/-- The digits of a natural number, most significant first; zero has one digit. -/
def digits (n : Nat) : List Char :=
  Nat.toDigits 10 n

/-- A natural number in base ten. -/
def ofNat (n : Nat) : String :=
  String.ofList (digits n)

/-- An integer in base ten. -/
def ofInt : Int → String
  | .ofNat n => ofNat n
  | .negSucc n => "-" ++ ofNat (n + 1)

/-- The digits of a natural number, with zeros in front up to the given width. -/
def paddedDigits (width n : Nat) : List Char :=
  List.replicate (width - (digits n).length) '0' ++ digits n

end StarlarkCode.Text
