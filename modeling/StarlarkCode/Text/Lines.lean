/-!
# Lines

A text as its lines. A line ends at a line feed, at a carriage return, or at the two in a row,
which count as one break. The breaks are not part of the lines, so two texts with the same lines
differ in the style of their breaks alone.

There is always at least one line: a text without a break is one line, and a text that ends in a
break has an empty last line.
-/

namespace StarlarkCode.Text

/-- Puts a character in front of the first line. -/
def consFirst (c : Char) : List (List Char) → List (List Char)
  | [] => [[c]]
  | line :: lines => (c :: line) :: lines

/-- The lines of a sequence of characters. -/
def lineChars : List Char → List (List Char)
  | [] => [[]]
  | '\r' :: '\n' :: cs => [] :: lineChars cs
  | '\r' :: cs => [] :: lineChars cs
  | '\n' :: cs => [] :: lineChars cs
  | c :: cs => consFirst c (lineChars cs)

/-- The lines of a text, without their breaks. -/
def lines (s : String) : List String :=
  (lineChars s.toList).map String.ofList

end StarlarkCode.Text
