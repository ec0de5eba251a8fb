import StarlarkCode.Layout.Expr

/-!
# The characters of numerals

Integers, the bounds of a slice and decimals are written with ten digits and three signs. What holds
of these few characters holds of every numeral.
-/

namespace StarlarkCode

/-- A bound of a slice as a text; an absent one is empty. -/
def Bounds.boundText (bound : Option Int64) : String :=
  match bound with
  | some n => Text.ofInt n.toInt
  | none => ""

/-- The bounds as one text. Without a step the second colon is left out. -/
def Bounds.text (b : Bounds) : String :=
  boundText b.start ++ ":" ++ boundText b.stop
    ++ (match b.step with
        | some n => ":" ++ Text.ofInt n.toInt
        | none => "")

namespace Text

/-- What is said of every character of a text is decided along the text. Characters are finitely
many, and the instance for finite types would try them all. -/
def decidableForall {p : Char → Prop} [DecidablePred p] (cs : List Char) :
    Decidable (∀ c ∈ cs, p c) :=
  List.decidableBAll p cs

/-- A digit, or one of the signs that stand between or before digits. -/
def isNumeral (c : Char) : Bool :=
  c.isDigit || c == '-' || c == '.' || c == ':'

/-- All characters belong to numerals. -/
def Numeral (cs : List Char) : Prop :=
  ∀ c ∈ cs, isNumeral c = true

instance (cs : List Char) : Decidable (Numeral cs) :=
  decidableForall cs

/-- Numerals in a row are made of the same characters. -/
theorem Numeral.append {a b : List Char} (first : Numeral a) (next : Numeral b) :
    Numeral (a ++ b) :=
  fun c mem => (List.mem_append.mp mem).elim (first c) (next c)

/-- The digits of a number are digits. -/
theorem isDigit_of_mem_digits {n : Nat} {c : Char} (mem : c ∈ digits n) : c.isDigit = true :=
  Nat.isDigit_of_mem_toDigits (by decide) (by decide) mem

/-- The digits of a number are a numeral. -/
theorem numeral_digits (n : Nat) : Numeral (digits n) := by
  intro c mem
  rw [isNumeral, isDigit_of_mem_digits mem]
  rfl

theorem numeral_ofNat (n : Nat) : Numeral (ofNat n).toList := by
  rw [ofNat, String.toList_ofList]
  exact numeral_digits n

/-- Integers are written as numerals. -/
theorem numeral_ofInt (i : Int) : Numeral (ofInt i).toList := by
  cases i with
  | ofNat n => exact numeral_ofNat n
  | negSucc n =>
    have sign : Numeral "-".toList := by decide
    rw [ofInt, String.toList_append]
    exact sign.append (numeral_ofNat (n + 1))

/-- Bounds of slices are numerals, or empty where they are left out. -/
theorem numeral_boundText (bound : Option Int64) : Numeral (Bounds.boundText bound).toList := by
  cases bound with
  | none => exact fun c mem => absurd mem List.not_mem_nil
  | some n => exact numeral_ofInt n.toInt

/-- All that stands between the brackets of a slice is a numeral. -/
theorem numeral_bounds (b : Bounds) : Numeral b.text.toList := by
  obtain ⟨start, stop, step⟩ := b
  have colon : Numeral ":".toList := by decide
  rw [Bounds.text, String.toList_append, String.toList_append, String.toList_append]
  refine (((numeral_boundText start).append colon).append (numeral_boundText stop)).append ?_
  cases step with
  | none => exact fun c mem => absurd mem List.not_mem_nil
  | some n =>
    rw [String.toList_append]
    exact colon.append (numeral_ofInt n.toInt)

/-- Decimals are numerals. -/
theorem numeral_decimal (d : Decimal) : Numeral d.text.toList := by
  rw [Decimal.text, String.toList_ofList]
  have point : Numeral ['.'] := by decide
  have zeros : Numeral (List.replicate (d.places - (digits d.fraction).length) '0') := by
    intro c mem
    rw [List.eq_of_mem_replicate mem]
    decide
  exact (numeral_digits d.whole).append (point.append (zeros.append (numeral_digits d.fraction)))

/-- Every integer is written with at least one character. -/
theorem ofInt_ne_nil (i : Int) : (ofInt i).toList ≠ [] := by
  have some (n : Nat) : (ofNat n).toList ≠ [] := by
    rw [ofNat, String.toList_ofList]
    exact Nat.toDigits_ne_nil
  cases i with
  | ofNat n => exact some n
  | negSucc n =>
    rw [ofInt, String.toList_append]
    exact List.append_ne_nil_of_right_ne_nil _ (some (n + 1))

/-- So is every decimal. -/
theorem decimal_ne_nil (d : Decimal) : d.text.toList ≠ [] := by
  rw [Decimal.text, String.toList_ofList]
  exact List.append_ne_nil_of_left_ne_nil Nat.toDigits_ne_nil _

end Text

end StarlarkCode
