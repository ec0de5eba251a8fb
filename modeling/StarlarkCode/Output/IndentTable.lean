/-!
# Indentation texts

The indentation of each level, made once and kept. A fresh table holds the levels 0 and 1; a level
asked for the first time is made from the indentation of one level and added. The answers do not
depend on what the table holds.

Levels and widths are numbers without a bound, and a text of any length can be made: overflow of a
machine word and exhaustion of memory are left out.
-/

namespace StarlarkCode

/-- A text of spaces. -/
def spaces (n : Nat) : String :=
  String.ofList (List.replicate n ' ')

/-- A text a number of times in a row. The empty text is left as it is, so that levels without width
can be of any depth. -/
def repeated (text : String) (count : Nat) : String :=
  if text.isEmpty then text else String.join (List.replicate count text)

/-- Indentation texts by level, for one width of a level. -/
structure IndentTable where
  width : Nat
  levels : List (Nat × String)
deriving DecidableEq, Repr

namespace IndentTable

/-- A fresh table for levels of the given width. -/
def ofWidth (width : Nat) : IndentTable :=
  ⟨width, [(0, ""), (1, spaces width)]⟩

/-- The number of levels held. -/
def size (t : IndentTable) : Nat :=
  t.levels.length

/-- No level is held. -/
def isEmpty (t : IndentTable) : Bool :=
  t.levels.isEmpty

/-- The indentation of a level, and the table that holds it from now on. -/
def get (t : IndentTable) (level : Nat) : String × IndentTable :=
  match t.levels.lookup level with
  | some indent => (indent, t)
  | none =>
    let indent := repeated (spaces t.width) level
    (indent, ⟨t.width, t.levels ++ [(level, indent)]⟩)

end IndentTable

end StarlarkCode
