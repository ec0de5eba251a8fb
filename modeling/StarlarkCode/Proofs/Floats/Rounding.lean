import Mathlib.Algebra.Group.Nat.Defs
import Mathlib.Order.Monotone.Basic
import StarlarkCode.Binary64.Literal

/-!
# Decimals and the numbers they read as

The bits of a float without its sign count the magnitudes in order: this is its `rank`. Over the
ranks, the decimals that read as one magnitude form an interval between two midpoints, and the
intervals tile the line: the midpoint below a magnitude is the midpoint above the one before it
(`midBelow_succ`). A midpoint is shared by a rank that is even and one that is odd, and only the
even one takes it.

Main statement: a decimal reads as one magnitude only (`rank_eq_of_readsAs`).

Lengths are counted in quarters of the least positive number, so that they are all whole.
-/

namespace StarlarkCode.Binary64

/-! ## Ranks -/

/-- The place of a number among the magnitudes: its bits without the sign. -/
def rank (x : Binary64) : Nat :=
  x.bits.toNat % 2 ^ 63

/-- The exponent is the upper part of the rank. -/
theorem exponentField_eq (x : Binary64) : x.exponentField = x.rank / 2 ^ 52 := by
  show x.bits.toNat / 2 ^ 52 % 2 ^ 11 = x.bits.toNat % 2 ^ 63 / 2 ^ 52
  omega

/-- The fraction is the lower part of the rank. -/
theorem fractionField_eq (x : Binary64) : x.fractionField = x.rank % 2 ^ 52 := by
  show x.bits.toNat % 2 ^ 52 = x.bits.toNat % 2 ^ 63 % 2 ^ 52
  omega

/-- The sign and the rank are all there is to a number. -/
theorem eq_of_rank {x y : Binary64} (sign : x.isNegative = y.isNegative)
    (rank : x.rank = y.rank) : x = y := by
  obtain ⟨a⟩ := x
  obtain ⟨b⟩ := y
  have below := a.toNat_lt
  have below' := b.toNat_lt
  have signs : 2 ^ 63 ≤ a.toNat ↔ 2 ^ 63 ≤ b.toNat := decide_eq_decide.mp sign
  have ranks : a.toNat % 2 ^ 63 = b.toNat % 2 ^ 63 := rank
  exact congrArg Binary64.mk (UInt64.toNat.inj (by omega))

/-! ## Magnitudes and midpoints -/

/-- The significand of a magnitude. -/
def significandAt (rank : Nat) : Nat :=
  if rank / 2 ^ 52 = 0 then rank % 2 ^ 52 else 2 ^ 52 + rank % 2 ^ 52

/-- The distance from a magnitude to the next. -/
def spacing (rank : Nat) : Nat :=
  2 ^ (rank / 2 ^ 52 - 1)

/-- The distance down to the midpoint, in quarters of the spacing. -/
def marginAt (rank : Nat) : Nat :=
  if 1 < rank / 2 ^ 52 ∧ rank % 2 ^ 52 = 0 then 1 else 2

/-- The midpoint between a magnitude and the one before it. -/
def midBelow (rank : Nat) : Nat :=
  (4 * significandAt rank - marginAt rank) * spacing rank

/-- The midpoint between a magnitude and the next. -/
def midAbove (rank : Nat) : Nat :=
  (4 * significandAt rank + 2) * spacing rank

/-- The least positive number is one over this. -/
def leastDenominator : Nat :=
  2 ^ 1074

theorem spacing_pos (rank : Nat) : 0 < spacing rank :=
  Nat.two_pow_pos _

/-- The significand is a function of the rank. -/
theorem significand_eq (x : Binary64) : x.significand = significandAt x.rank := by
  unfold significand significandAt
  rw [exponentField_eq, fractionField_eq]
  rfl

/-- So is the distance to the number below. -/
theorem lowerMargin_eq (x : Binary64) : x.lowerMargin = marginAt x.rank := by
  unfold lowerMargin marginAt
  rw [exponentField_eq, fractionField_eq]

/-- Numbers of even rank have an even significand, and ties go to them. -/
theorem significandAt_mod_two (rank : Nat) : significandAt rank % 2 = rank % 2 := by
  unfold significandAt
  split <;> omega

/-- The intervals of neighbours meet. -/
theorem midBelow_succ (rank : Nat) : midBelow (rank + 1) = midAbove rank := by
  unfold midBelow midAbove significandAt spacing marginAt
  by_cases carry : rank % 2 ^ 52 + 1 = 2 ^ 52
  · -- The fraction overflows into the exponent, and the spacing doubles above the subnormals.
    have next : (rank + 1) / 2 ^ 52 = rank / 2 ^ 52 + 1 := by omega
    have zero : (rank + 1) % 2 ^ 52 = 0 := by omega
    rw [next, zero]
    obtain subnormal | ⟨e, normal⟩ :
        rank / 2 ^ 52 = 0 ∨ ∃ e, rank / 2 ^ 52 = e + 1 := by
      cases rank / 2 ^ 52 with
      | zero => exact .inl rfl
      | succ e => exact .inr ⟨e, rfl⟩
    · rw [subnormal, if_neg (by omega), if_neg (by omega), if_pos rfl]
      show (4 * (2 ^ 52 + 0) - 2) * 1 = (4 * (rank % 2 ^ 52) + 2) * 1
      omega
    · rw [normal, if_neg (by omega), if_pos (by omega), if_neg (by omega)]
      show (4 * (2 ^ 52 + 0) - 1) * (2 ^ (e + 1)) = (4 * (2 ^ 52 + rank % 2 ^ 52) + 2) * 2 ^ e
      have fraction : rank % 2 ^ 52 = 2 ^ 52 - 1 := by omega
      rw [fraction, Nat.pow_succ]
      omega
  · have same : (rank + 1) / 2 ^ 52 = rank / 2 ^ 52 := by omega
    have step : (rank + 1) % 2 ^ 52 = rank % 2 ^ 52 + 1 := by omega
    have inner : ¬(1 < rank / 2 ^ 52 ∧ rank % 2 ^ 52 + 1 = 0) := by omega
    rw [same, step, if_neg inner]
    congr 1
    split <;> omega

/-- A number lies between two midpoints. -/
theorem midBelow_lt_midAbove (rank : Nat) : midBelow rank < midAbove rank :=
  Nat.mul_lt_mul_of_pos_right (by omega) (spacing_pos rank)

/-- Midpoints grow with the rank. -/
theorem strictMono_midAbove : StrictMono midAbove := by
  refine strictMono_nat_of_lt_succ fun rank => ?_
  rw [← midBelow_succ]
  exact midBelow_lt_midAbove (rank + 1)

/-! ## Reading a decimal -/

/-- A length lies between two others, which count only for a closed interval. -/
def Between (closed : Prop) [Decidable closed] (low value high : Nat) : Prop :=
  if closed then low ≤ value ∧ value ≤ high else low < value ∧ value < high

section Between

variable {closed : Prop} [Decidable closed] {low value high : Nat}

/-- What is between bounds is within them. -/
theorem Between.le (between : Between closed low value high) : low ≤ value ∧ value ≤ high := by
  unfold Between at between
  split at between <;> omega

/-- On a bound only if bounds are included. -/
theorem Between.closed_or_lt (between : Between closed low value high) :
    closed ∨ (low < value ∧ value < high) := by
  by_cases h : closed
  · exact .inl h
  · exact .inr (by rwa [Between, if_neg h] at between)

/-- A closed or open interval holds what lies between two of its members. -/
theorem Between.convex {value' between : Nat} (first : Between closed low value high)
    (last : Between closed low value' high) (le : value ≤ between) (le' : between ≤ value') :
    Between closed low between high := by
  unfold Between at *
  by_cases h : closed
  · rw [if_pos h] at *
    omega
  · rw [if_neg h] at *
    omega

/-- Being between bounds does not depend on the unit. -/
theorem between_mul {k : Nat} (pos : 0 < k) :
    Between closed (low * k) (value * k) (high * k) ↔ Between closed low value high := by
  unfold Between
  simp only [Nat.mul_le_mul_right_iff pos, Nat.mul_lt_mul_right pos]

end Between

/-- Reading, without the scales: the value of the decimal over the common denominator lies between
those of the midpoints. -/
theorem readsAs_iff_between (x : Binary64) (d : Decimal) :
    x.readsAs d = true ↔
      Between (x.significand % 2 = 0)
        ((4 * x.significand - x.lowerMargin) * 2 ^ x.scale.toNat * 10 ^ d.places)
        (4 * (d.units * x.denominator))
        ((4 * x.significand + 2) * 2 ^ x.scale.toNat * 10 ^ d.places) := by
  unfold readsAs Between
  rw [← Nat.mul_assoc]
  split <;> simp

/-- The scale in units of the least positive number. -/
theorem toNat_scale (x : Binary64) :
    x.scale.toNat + (1074 - (-x.scale).toNat) = x.rank / 2 ^ 52 - 1 ∧
      (-x.scale).toNat ≤ 1074 := by
  rw [← exponentField_eq]
  unfold scale
  split <;> omega

/-- Reading in terms of ranks. -/
theorem readsAs_iff (x : Binary64) (d : Decimal) :
    x.readsAs d = true ↔
      Between (x.rank % 2 = 0) (midBelow x.rank * 10 ^ d.places)
        (4 * d.units * leastDenominator) (midAbove x.rank * 10 ^ d.places) := by
  obtain ⟨exponents, small⟩ := toNat_scale x
  -- What brings the denominator of the number to that of the least positive one.
  let k := 2 ^ (1074 - (-x.scale).toNat)
  have spacing_eq : spacing x.rank = 2 ^ x.scale.toNat * k := by
    rw [spacing, ← exponents, Nat.pow_add]
  have whole : x.denominator * k = leastDenominator :=
    calc x.denominator * k
      _ = 2 ^ ((-x.scale).toNat + (1074 - (-x.scale).toNat)) := (Nat.pow_add 2 _ _).symm
      _ = leastDenominator := by rw [Nat.add_sub_cancel' small, leastDenominator]
  have value : 4 * (d.units * x.denominator) * k = 4 * d.units * leastDenominator := by
    rw [← Nat.mul_assoc, Nat.mul_assoc, whole]
  have scaled (n : Nat) :
      n * 2 ^ x.scale.toNat * 10 ^ d.places * k = n * spacing x.rank * 10 ^ d.places := by
    rw [spacing_eq, Nat.mul_right_comm, Nat.mul_assoc n]
  rw [readsAs_iff_between, ← between_mul (Nat.two_pow_pos _ : 0 < k), scaled, scaled,
    value, significand_eq, lowerMargin_eq]
  simp only [significandAt_mod_two]
  rfl

/-- Of two ranks that a decimal reads as, none comes before the other. -/
theorem rank_le_of_readsAs {x y : Binary64} {d : Decimal} (first : x.readsAs d = true)
    (second : y.readsAs d = true) : y.rank ≤ x.rank := by
  rw [readsAs_iff] at first second
  by_contra before
  obtain ⟨r, next⟩ : ∃ r, y.rank = r + 1 := Nat.exists_eq_succ_of_ne_zero (by omega)
  rw [next, midBelow_succ] at second
  have pos : 0 < 10 ^ d.places := Nat.pow_pos (by omega)
  -- The midpoint below `y` is at most the one above `x`, so that there is no rank between them.
  have meet : midAbove r * 10 ^ d.places ≤ midAbove x.rank * 10 ^ d.places :=
    second.le.1.trans first.le.2
  have neighbour : r = x.rank := by
    have := strictMono_midAbove.le_iff_le.mp (Nat.le_of_mul_le_mul_right meet pos)
    omega
  subst neighbour
  -- The decimal is their common midpoint, and one of the two is odd.
  obtain even | inside := first.closed_or_lt
  · obtain even' | inside := second.closed_or_lt
    · omega
    · exact absurd first.le.2 (by omega)
  · exact absurd second.le.1 (by omega)

/-- A decimal rounds to one rank only. -/
theorem rank_eq_of_readsAs {x y : Binary64} {d : Decimal} (first : x.readsAs d = true)
    (second : y.readsAs d = true) : x.rank = y.rank :=
  Nat.le_antisymm (rank_le_of_readsAs second first) (rank_le_of_readsAs first second)

end StarlarkCode.Binary64
