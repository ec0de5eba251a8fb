/-!
# Blank text

Which characters are white space, and when a text is blank. A name that is blank names nothing: an
argument under a blank name is positional.

The table is the Unicode property `White_Space`, so that a name made of no-break or ideographic
spaces is blank too.
-/

namespace StarlarkCode.Text

/-- The code points with the Unicode property `White_Space`, as closed ranges in ascending order. -/
def whiteSpaceRanges : List (Nat × Nat) :=
  [(0x09, 0x0d), (0x20, 0x20), (0x85, 0x85), (0xa0, 0xa0), (0x1680, 0x1680), (0x2000, 0x200a),
    (0x2028, 0x2029), (0x202f, 0x202f), (0x205f, 0x205f), (0x3000, 0x3000)]

/-- The character lies in one of the white space ranges. -/
def isWhiteSpace (c : Char) : Bool :=
  whiteSpaceRanges.any fun (first, last) => first ≤ c.toNat && c.toNat ≤ last

/-- A text is blank when it holds white space only; the empty text is blank. -/
def isBlank (s : String) : Bool :=
  s.toList.all isWhiteSpace

end StarlarkCode.Text
