import Mathlib.Data.List.Basic
import StarlarkCode.Proofs.Faults
import StarlarkCode.Proofs.Floats.Rounding
import StarlarkCode.Proofs.Numerals
import StarlarkCode.Proofs.Rendering

/-!
# Float literals

A literal is a numeral with a point, and it tells its float apart from every other. The argument has
two halves. A text with a digit after the point is the text of one decimal (`Decimal.text_inj`), and
the decimal that is written for a float reads back as that float (`readsAs_decimal`), which is the
only one of its sign that it can read as.

That decimal has the fewest places of all that read back (`places_decimal_le`): where a decimal
reads back at all, one of the two neighbours of the float on the same grid does, because that
neighbour lies between the decimal and the float itself.
-/

namespace StarlarkCode

/-! ## Texts of decimals -/

namespace Text

/-- An optional minus sign, digits, a point and digits. -/
def PointNumeral (cs : List Char) : Prop :=
  ∃ sign whole fraction : List Char,
    cs = sign ++ whole ++ '.' :: fraction ∧ (sign = [] ∨ sign = ['-']) ∧
      whole ≠ [] ∧ fraction ≠ [] ∧ ∀ c ∈ whole ++ fraction, c.isDigit = true

/-- The digits of a number determine it. -/
theorem digits_injective {m n : Nat} (same : digits m = digits n) : m = n :=
  calc m
    _ = Nat.ofDigitChars 10 (digits m) 0 := Nat.ofDigitChars_ten_toDigits.symm
    _ = n := by rw [same]; exact Nat.ofDigitChars_ten_toDigits

/-- Zeros in front do not change the number that digits stand for. -/
theorem ofDigitChars_paddedDigits (width n : Nat) :
    Nat.ofDigitChars 10 (paddedDigits width n) 0 = n := by
  rw [paddedDigits, Nat.ofDigitChars_append, Nat.ofDigitChars_replicate_zero, Nat.mul_zero]
  exact Nat.ofDigitChars_ten_toDigits

/-- A number that fits is padded to exactly the width. -/
theorem length_paddedDigits {width n : Nat} (pos : 0 < width) (small : n < 10 ^ width) :
    (paddedDigits width n).length = width := by
  have fits : (digits n).length ≤ width := (Nat.length_toDigits_le_iff (by omega) pos).mpr small
  rw [paddedDigits, List.length_append, List.length_replicate]
  omega

/-- Padding consists of digits too. -/
theorem isDigit_of_mem_paddedDigits {width n : Nat} {c : Char} (mem : c ∈ paddedDigits width n) :
    c.isDigit = true := by
  obtain zero | digit := List.mem_append.mp mem
  · rw [List.eq_of_mem_replicate zero]
    decide
  · exact isDigit_of_mem_digits digit

theorem point_not_mem_digits (n : Nat) : '.' ∉ digits n :=
  fun mem => absurd (isDigit_of_mem_digits mem) (by decide)

/-- Integers are written without a point. -/
theorem point_not_mem_ofInt (i : Int) : '.' ∉ (ofInt i).toList := by
  cases i with
  | ofNat n =>
    rw [ofInt, ofNat, String.toList_ofList]
    exact point_not_mem_digits n
  | negSucc n =>
    rw [ofInt, String.toList_append, List.mem_append, not_or, ofNat]
    refine ⟨by decide, ?_⟩
    rw [String.toList_ofList]
    exact point_not_mem_digits (n + 1)

end Text

namespace Decimal

open Text

/-- A decimal is written as its whole part, a point and its places. -/
theorem toList_text (d : Decimal) :
    d.text.toList = digits d.whole ++ '.' :: paddedDigits d.places d.fraction :=
  String.toList_ofList

/-- The whole part and the fraction make up the units of a decimal. -/
theorem units_eq (d : Decimal) : d.units = 10 ^ d.places * d.whole + d.fraction :=
  (Nat.div_add_mod _ _).symm

/-- A decimal has no sign of its own. -/
theorem minus_not_mem_text (d : Decimal) : '-' ∉ d.text.toList := by
  rw [toList_text, List.mem_append, List.mem_cons, not_or, not_or]
  refine ⟨fun mem => ?_, by decide, fun mem => ?_⟩
  · exact absurd (isDigit_of_mem_digits mem) (by decide)
  · exact absurd (isDigit_of_mem_paddedDigits mem) (by decide)

/-- The fraction is written with as many digits as the decimal has places. -/
theorem length_fraction {d : Decimal} (pos : 0 < d.places) :
    (paddedDigits d.places d.fraction).length = d.places :=
  length_paddedDigits pos (Nat.mod_lt _ (Nat.pow_pos (by omega)))

/-- The digits after the point show the number of places, and all digits the units. -/
theorem text_inj {a b : Decimal} (posA : 0 < a.places) (posB : 0 < b.places)
    (same : a.text = b.text) : a = b := by
  have split := congrArg String.toList same
  rw [toList_text, toList_text, List.append_cons_inj_of_notMem (point_not_mem_digits _)
    fun mem => absurd (isDigit_of_mem_paddedDigits mem) (by decide)] at split
  obtain ⟨wholes, -, fractions⟩ := split
  have whole : a.whole = b.whole := digits_injective wholes
  have places : a.places = b.places := by
    rw [← length_fraction posA, fractions, length_fraction posB]
  have fraction : a.fraction = b.fraction := by
    rw [← ofDigitChars_paddedDigits a.places a.fraction, fractions, ofDigitChars_paddedDigits]
  have units : a.units = b.units := by
    rw [units_eq a, units_eq b, places, whole, fraction]
  calc a
    _ = ⟨a.units, a.places⟩ := rfl
    _ = ⟨b.units, b.places⟩ := by rw [units, places]
    _ = b := rfl

end Decimal

/-! ## The decimal of a float -/

namespace Binary64

theorem denominator_pos (x : Binary64) : 0 < x.denominator :=
  Nat.two_pow_pos _

/-- The float itself lies between its midpoints. -/
theorem between_self (x : Binary64) (places : Nat) :
    Between (x.significand % 2 = 0)
      ((4 * x.significand - x.lowerMargin) * 2 ^ x.scale.toNat * 10 ^ places)
      (4 * (x.numerator * 10 ^ places))
      ((4 * x.significand + 2) * 2 ^ x.scale.toNat * 10 ^ places) := by
  have value : 4 * (x.numerator * 10 ^ places) =
      4 * x.significand * (2 ^ x.scale.toNat * 10 ^ places) := by
    show 4 * (x.significand * 2 ^ x.scale.toNat * 10 ^ places) = _
    simp only [Nat.mul_assoc]
  have pos : 0 < 2 ^ x.scale.toNat * 10 ^ places :=
    Nat.mul_pos (Nat.two_pow_pos _) (Nat.pow_pos (by omega))
  rw [value, Nat.mul_assoc (_ - _), Nat.mul_assoc (_ + _), between_mul pos]
  have margin : 0 < x.lowerMargin := by
    unfold lowerMargin
    split <;> omega
  unfold Between
  split <;> omega

/-- A decimal of the same value reads back. -/
theorem readsAs_of_eq {x : Binary64} {d : Decimal}
    (exact : d.units * x.denominator = x.numerator * 10 ^ d.places) : x.readsAs d = true := by
  rw [readsAs_iff_between, exact]
  exact between_self x d.places

/-- The magnitude in full reads back. -/
theorem readsAs_exactDecimal (x : Binary64) : x.readsAs x.exactDecimal = true := by
  refine readsAs_of_eq ?_
  show x.numerator * 5 ^ (-x.scale).toNat * 2 ^ (-x.scale).toNat =
    x.numerator * 10 ^ (-x.scale).toNat
  rw [Nat.mul_assoc, ← Nat.mul_pow]

/-- One more place does not change what a decimal reads as. -/
theorem readsAs_mul_ten {x : Binary64} {d : Decimal} (reads : x.readsAs d = true) :
    x.readsAs ⟨d.units * 10, d.places + 1⟩ = true := by
  rw [readsAs_iff] at reads ⊢
  rw [← between_mul (show 0 < 10 by omega)] at reads
  convert reads using 1
  all_goals simp only [Nat.pow_succ, Nat.mul_assoc, Nat.mul_comm, Nat.mul_left_comm]

/-- If a decimal reads back, so does one of the two neighbours of the float on its grid. -/
theorem readsAs_neighbour {x : Binary64} {d : Decimal} (reads : x.readsAs d = true) :
    x.readsAs ⟨x.numerator * 10 ^ d.places / x.denominator, d.places⟩ = true ∨
      x.readsAs ⟨x.numerator * 10 ^ d.places / x.denominator + 1, d.places⟩ = true := by
  simp only [readsAs_iff_between] at reads ⊢
  have self := between_self x d.places
  generalize x.numerator * 10 ^ d.places = value at *
  -- The float lies between its neighbours, and the decimal is one of them or beyond.
  have below : value / x.denominator * x.denominator ≤ value := Nat.div_mul_le_self _ _
  have above : value < (value / x.denominator + 1) * x.denominator :=
    Nat.lt_mul_of_div_lt (Nat.lt_succ_self _) x.denominator_pos
  obtain le | lt := le_or_gt d.units (value / x.denominator)
  · left
    have beyond := Nat.mul_le_mul_right x.denominator le
    exact reads.convex self (by omega) (by omega)
  · right
    have beyond : (value / x.denominator + 1) * x.denominator ≤ d.units * x.denominator :=
      Nat.mul_le_mul_right _ lt
    exact self.convex reads (by omega) (by omega)

/-! ## The search for the fewest places -/

/-- What is found nearest reads back and has the places asked for. -/
theorem nearest?_eq_some {x : Binary64} {places : Nat} {d : Decimal}
    (found : x.nearest? places = some d) : x.readsAs d = true ∧ d.places = places := by
  unfold nearest? at found
  dsimp only at found
  split at found
  next below above =>
    cases found
    split
    · exact ⟨below, rfl⟩
    · exact ⟨above, rfl⟩
  next below _ =>
    cases found
    exact ⟨below, rfl⟩
  next _ above =>
    cases found
    exact ⟨above, rfl⟩
  next => cases found

/-- If any decimal with so many places reads back, one is found. -/
theorem nearest?_ne_none {x : Binary64} {d : Decimal} (reads : x.readsAs d = true) :
    x.nearest? d.places ≠ none := by
  intro missing
  unfold nearest? at missing
  dsimp only at missing
  split at missing
  next => cases missing
  next => cases missing
  next => cases missing
  next below above =>
    obtain reads | reads := readsAs_neighbour reads
    · exact absurd reads (Bool.eq_false_iff.mp below)
    · exact absurd reads (Bool.eq_false_iff.mp above)

/-- What the search ends with: it reads back, and fewer places were tried in vain. -/
theorem shortest_spec (x : Binary64) :
    x.readsAs x.shortest = true ∧
      ∀ places, 0 < places → places < x.shortest.places → x.nearest? places = none := by
  unfold shortest
  cases search : (List.range' 1 (-x.scale).toNat).findSome? x.nearest? with
  | none =>
    refine ⟨readsAs_exactDecimal x, fun places pos lt => ?_⟩
    have tried : places ∈ List.range' 1 (-x.scale).toNat :=
      List.mem_range'_1.mpr ⟨pos, Nat.lt_add_left 1 lt⟩
    exact List.findSome?_eq_none_iff.mp search places tried
  | some d =>
    obtain ⟨before, last, after, range, found, missed⟩ := List.findSome?_eq_some_iff.mp search
    obtain ⟨reads, rfl⟩ := nearest?_eq_some found
    refine ⟨reads, fun places pos lt => missed places ?_⟩
    have sorted : (List.range' 1 (-x.scale).toNat).Pairwise (· < ·) := List.pairwise_lt_range'
    have bound : d.places ∈ List.range' 1 (-x.scale).toNat := by
      rw [range]
      exact List.mem_append_right _ List.mem_cons_self
    have tried : places ∈ List.range' 1 (-x.scale).toNat :=
      List.mem_range'_1.mpr ⟨pos, lt.trans (List.mem_range'_1.mp bound).2⟩
    rw [range] at sorted tried
    -- What comes at or after the last one tried is not below it.
    obtain mem | mem := List.mem_append.mp tried
    · exact mem
    · obtain rfl | mem := List.mem_cons.mp mem
      · exact absurd lt (Nat.lt_irrefl _)
      · have := List.rel_of_pairwise_cons (List.pairwise_append.mp sorted).2.1 mem
        exact absurd lt (Nat.lt_asymm this)

/-- A number with a fractional part is written with at least one place. -/
theorem places_shortest_pos {x : Binary64} (fractional : ¬x.isIntegral = true) :
    0 < x.shortest.places := by
  unfold shortest
  cases search : (List.range' 1 (-x.scale).toNat).findSome? x.nearest? with
  | none =>
    refine Nat.pos_of_ne_zero fun none => fractional ?_
    have one : x.denominator = 1 := congrArg (Nat.pow 2) none
    rw [isIntegral, one, Nat.mod_one]
    rfl
  | some d =>
    obtain ⟨places, mem, found⟩ := List.exists_of_findSome?_eq_some search
    rw [Option.getD_some, (nearest?_eq_some found).2]
    exact (List.mem_range'_1.mp mem).1

/-- The decimal that stands for a magnitude reads back. -/
theorem readsAs_decimal (x : Binary64) : x.readsAs x.decimal = true := by
  unfold decimal
  by_cases integral : x.isIntegral = true
  · rw [if_pos integral]
    refine readsAs_of_eq ?_
    have divides : x.denominator ∣ x.numerator := Nat.dvd_of_mod_eq_zero (beq_iff_eq.mp integral)
    show x.numerator / x.denominator * 10 * x.denominator = x.numerator * 10 ^ 1
    rw [Nat.mul_right_comm, Nat.div_mul_cancel divides]
    rfl
  · rw [if_neg integral]
    exact (shortest_spec x).1

/-- Every decimal in a literal has at least one place. -/
theorem places_decimal_pos (x : Binary64) : 0 < x.decimal.places := by
  unfold decimal
  by_cases integral : x.isIntegral = true
  · rw [if_pos integral]
    exact Nat.one_pos
  · rw [if_neg integral]
    exact places_shortest_pos integral

/-- No decimal with fewer places reads back, as long as there is one place. -/
theorem places_decimal_le {x : Binary64} {d : Decimal} (reads : x.readsAs d = true) :
    x.decimal.places ≤ max 1 d.places := by
  unfold decimal
  by_cases integral : x.isIntegral = true
  · rw [if_pos integral]
    exact Nat.le_max_left _ _
  · rw [if_neg integral]
    have fewest {e : Decimal} (reads : x.readsAs e = true) (pos : 0 < e.places) :
        x.shortest.places ≤ e.places :=
      Nat.le_of_not_lt fun lt => nearest?_ne_none reads ((shortest_spec x).2 e.places pos lt)
    obtain zero | pos := Nat.eq_zero_or_pos d.places
    · have := fewest (readsAs_mul_ten reads) (Nat.succ_pos _)
      exact this.trans (by simp [zero])
    · exact (fewest reads pos).trans (Nat.le_max_right _ _)

/-! ## Literals -/

/-- The sign of a literal. -/
def sign (x : Binary64) : String :=
  if x.isNegative then "-" else ""

/-- The sign is a minus or nothing. -/
theorem toList_sign (x : Binary64) : x.sign.toList = if x.isNegative then ['-'] else [] := by
  unfold sign
  split <;> rfl

/-- The literal of a finite number is its sign and the decimal of its magnitude. -/
theorem literal_eq {x : Binary64} (finite : x.isFinite = true) :
    x.literal = x.sign ++ x.decimal.text :=
  if_pos finite

/-- The literal of a finite number is a numeral with a point. -/
theorem pointNumeral_literal {x : Binary64} (finite : x.isFinite = true) :
    Text.PointNumeral x.literal.toList := by
  refine ⟨x.sign.toList, Text.digits x.decimal.whole,
    Text.paddedDigits x.decimal.places x.decimal.fraction, ?_, ?_, Nat.toDigits_ne_nil, ?_, ?_⟩
  · rw [literal_eq finite, String.toList_append, Decimal.toList_text, List.append_assoc]
  · rw [toList_sign]
    split
    · exact .inr rfl
    · exact .inl rfl
  · exact List.append_ne_nil_of_right_ne_nil _ Nat.toDigits_ne_nil
  · intro c mem
    obtain mem | mem := List.mem_append.mp mem
    · exact Text.isDigit_of_mem_digits mem
    · exact Text.isDigit_of_mem_paddedDigits mem

/-- No finite number is written as an integer is. -/
theorem literal_ne_ofInt {x : Binary64} (finite : x.isFinite = true) (i : Int) :
    x.literal ≠ Text.ofInt i := by
  intro same
  obtain ⟨sign, whole, fraction, text, -⟩ := pointNumeral_literal finite
  refine Text.point_not_mem_ofInt i ?_
  rw [← same, text]
  exact List.mem_append_right _ List.mem_cons_self

/-- The sign and the text of the decimal can be told from a literal. -/
theorem sign_append_inj {x y : Binary64} {d e : Decimal}
    (same : x.sign ++ d.text = y.sign ++ e.text) :
    x.isNegative = y.isNegative ∧ d.text = e.text := by
  have chars := congrArg String.toList same
  rw [String.toList_append, String.toList_append, toList_sign, toList_sign] at chars
  have starts := d.minus_not_mem_text
  have starts' := e.minus_not_mem_text
  by_cases signX : x.isNegative = true <;> by_cases signY : y.isNegative = true
  · rw [if_pos signX, if_pos signY] at chars
    exact ⟨signX.trans signY.symm, String.toList_injective (List.append_cancel_left chars)⟩
  · rw [if_pos signX, if_neg signY, List.nil_append] at chars
    exact absurd List.mem_cons_self (chars ▸ starts')
  · rw [if_neg signX, if_pos signY, List.nil_append] at chars
    exact absurd List.mem_cons_self (chars ▸ starts)
  · rw [if_neg signX, if_neg signY, List.nil_append, List.nil_append] at chars
    refine ⟨?_, String.toList_injective chars⟩
    rw [Bool.eq_false_iff.mpr signX, Bool.eq_false_iff.mpr signY]

/-- Different finite numbers have different literals, zeros of both signs included. -/
theorem literal_inj {x y : Binary64} (finite : x.isFinite = true) (finite' : y.isFinite = true)
    (same : x.literal = y.literal) : x = y := by
  rw [literal_eq finite, literal_eq finite'] at same
  obtain ⟨signs, texts⟩ := sign_append_inj same
  have decimals : x.decimal = y.decimal :=
    Decimal.text_inj x.places_decimal_pos y.places_decimal_pos texts
  have reads : y.readsAs x.decimal = true := by
    rw [decimals]
    exact y.readsAs_decimal
  exact eq_of_rank signs (rank_eq_of_readsAs x.readsAs_decimal reads)

/-- An integral number is written in full, with one zero behind the point. -/
theorem literal_of_integral {x : Binary64} (finite : x.isFinite = true) {n : Nat}
    (whole : x.numerator = n * x.denominator) : x.literal = x.sign ++ Text.ofNat n ++ ".0" := by
  have integral : x.isIntegral = true := by
    rw [isIntegral, whole, Nat.mul_mod_left]
    rfl
  have quotient : x.numerator / x.denominator = n := by
    rw [whole, Nat.mul_div_cancel _ x.denominator_pos]
  have text : (Decimal.mk (n * 10) 1).text = Text.ofNat n ++ ".0" := by
    apply String.toList_injective
    have left : (Decimal.mk (n * 10) 1).whole = n := Nat.mul_div_cancel n (by decide)
    have right : (Decimal.mk (n * 10) 1).fraction = 0 := Nat.mul_mod_left n 10
    rw [Decimal.toList_text, left, right, String.toList_append, Text.ofNat, String.toList_ofList]
    rfl
  rw [literal_eq finite, decimal, if_pos integral, quotient, text, String.append_assoc]

end Binary64

/-! ## Literals in a rendering -/

/-- What stands before a literal on its line. -/
def Style.indentation (style : Style) (position : Nat) : LineMode → List Char
  | .newLine => List.replicate (style.indentWidth * position) ' '
  | _ => []

theorem Node.layout_float (x : Binary64) (position : Nat) (mode : LineMode) :
    (Node.expression (.float x)).layout position mode =
      Layout.lead .float position mode ++ Layout.text x.literal :=
  rfl

theorem Node.layout_integer (i : Int64) (position : Nat) (mode : LineMode) :
    (Node.expression (.integer i)).layout position mode =
      Layout.lead .integer position mode ++ Layout.text (Text.ofInt i.toInt) :=
  rfl

section Leaf

variable {style : Style} {position : Nat} {mode : LineMode} {node : Node} {construct : Construct}
  {literal : String}

/-- A node whose layout is one text is formatted as that text behind its indentation. -/
theorem Style.formatNode_leaf (written : mode ≠ .singleLine)
    (leaf : node.layout position mode =
      Layout.lead construct position mode ++ Layout.text literal) :
    style.formatNode node position mode =
      .ok (String.ofList (style.indentation position mode ++ literal.toList)) := by
  have clean := Layout.failure_lead construct position written
  have sound : (node.layout position mode).failure = none := by
    rw [leaf, Layout.failure_append, clean]
    rfl
  have lead : (Layout.lead construct position mode).chars style.indentWidth =
      style.indentation position mode := by
    cases mode with
    | newLine => exact Layout.chars_indent _ _
    | continueLine => rfl
    | singleLine => exact absurd rfl written
  rw [style.formatNode_eq sound, leaf, Layout.chars_append clean, Layout.chars_text, lead]

/-- Leaves that are formatted alike have the same literal. -/
theorem Style.literal_eq_of_formatNode_eq {node' : Node} {construct' : Construct}
    {literal' : String} (written : mode ≠ .singleLine)
    (leaf : node.layout position mode =
      Layout.lead construct position mode ++ Layout.text literal)
    (leaf' : node'.layout position mode =
      Layout.lead construct' position mode ++ Layout.text literal')
    (same : style.formatNode node position mode = style.formatNode node' position mode) :
    literal = literal' := by
  rw [formatNode_leaf written leaf, formatNode_leaf written leaf'] at same
  have texts := String.ofList_injective (Except.ok.inj same)
  exact String.toList_injective (List.append_cancel_left texts)

end Leaf

/-- A finite float is written as a numeral with a point, so never as an integer is. Its literal
tells it apart from all other finite floats, the zeros from one another too, and of an integral
value it is the integer with one zero after the point. The decimal that is written reads back as the
float, and no decimal with fewer places does. -/
theorem float_literals (style : Style) (position : Nat) {x : Binary64}
    (finite : x.isFinite = true) :
    style.formatNode (.expression (.float x)) position .continueLine = .ok x.literal ∧
      Text.PointNumeral x.literal.toList ∧
      (∀ mode, mode ≠ .singleLine → ∀ i : Int64,
        style.formatNode (.expression (.float x)) position mode ≠
          style.formatNode (.expression (.integer i)) position mode) ∧
      (∀ mode, mode ≠ .singleLine → ∀ y : Binary64, y.isFinite = true → x ≠ y →
        style.formatNode (.expression (.float x)) position mode ≠
          style.formatNode (.expression (.float y)) position mode) ∧
      (∀ n : Nat, x.numerator = n * x.denominator →
        x.literal = x.sign ++ Text.ofNat n ++ ".0") ∧
      x.literal = x.sign ++ x.decimal.text ∧ x.readsAs x.decimal = true ∧
      ∀ d : Decimal, x.readsAs d = true → x.decimal.places ≤ max 1 d.places := by
  refine ⟨?_, Binary64.pointNumeral_literal finite, ?_, ?_,
    fun n => Binary64.literal_of_integral finite, Binary64.literal_eq finite,
    x.readsAs_decimal, fun d => Binary64.places_decimal_le⟩
  · have written : LineMode.continueLine ≠ .singleLine := nofun
    refine (Style.formatNode_leaf written (Node.layout_float x _ _)).trans ?_
    exact congrArg Except.ok String.ofList_toList
  · intro mode written i same
    have literals := Style.literal_eq_of_formatNode_eq written (Node.layout_float x _ _)
      (Node.layout_integer i _ _) same
    exact Binary64.literal_ne_ofInt finite i.toInt literals
  · intro mode written y finite' different same
    have literals := Style.literal_eq_of_formatNode_eq written (Node.layout_float x _ _)
      (Node.layout_float y _ _) same
    exact different (Binary64.literal_inj finite finite' literals)

namespace Sample

/-- Zero with the sign bit set. -/
def negativeZero : Binary64 := ⟨0x8000000000000000⟩

/-- The float nearest to a tenth. -/
def tenth : Binary64 := ⟨0x3FB999999999999A⟩

/-- The zeros are told apart, and from the integer; a tenth has one place. -/
theorem float_literals_zeros :
    negativeZero.isFinite = true ∧
      ({} : Style).formatNode (.expression (.float negativeZero)) 2 .newLine ≠
        ({} : Style).formatNode (.expression (.float ⟨0⟩)) 2 .newLine ∧
      ({} : Style).formatNode (.expression (.float negativeZero)) 2 .newLine ≠
        ({} : Style).formatNode (.expression (.integer 0)) 2 .newLine ∧
      negativeZero.literal = negativeZero.sign ++ Text.ofNat 0 ++ ".0" ∧
      tenth.isFinite = true ∧ tenth.readsAs ⟨1, 1⟩ = true ∧ tenth.decimal.places ≤ max 1 1 := by
  have finite : negativeZero.isFinite = true := by decide
  have finite' : tenth.isFinite = true := by decide
  have reads : tenth.readsAs ⟨1, 1⟩ = true := by decide +kernel
  obtain ⟨-, -, integers, floats, integral, -⟩ := float_literals {} 2 finite
  obtain ⟨-, -, -, -, -, -, -, fewest⟩ := float_literals {} 2 finite'
  exact ⟨finite, floats .newLine nofun ⟨0⟩ (by decide) (by decide), integers .newLine nofun 0,
    integral 0 (by rw [Nat.zero_mul]; rfl), finite', reads, fewest ⟨1, 1⟩ reads⟩

end Sample

end StarlarkCode
