import StarlarkCode.Layout.Error

/-!
# Layouts

A layout is what a node looks like before the width of the indentation is known: a sequence of
pieces, each a text, a line break, a space or an indentation to some level, and the error at which
it stops, if any. The pieces in front of an error are kept, because a printer that writes as it goes
has written them by then.

Layouts are put together by `++`, which drops everything after an error. This makes the order of the
parts the order in which errors are found.

A printer does not make a layout first: it visits the node and writes as it goes (`Node.print`). The
layout says what such a visit writes, without a printer.
-/

namespace StarlarkCode

/-- A piece of laid out text. -/
inductive Piece where
  /-- A text as it is. -/
  | text (s : String)
  /-- A line break. -/
  | newline
  /-- A space between two texts. -/
  | space
  /-- The indentation of a level. -/
  | indent (level : Nat)
deriving DecidableEq, Repr

/-- Pieces in order, and the error after the last of them, if any. -/
structure Layout where
  pieces : List Piece
  failure : Option LayoutError := none
deriving DecidableEq, Repr

namespace Layout

/-- Nothing at all. -/
def empty : Layout := ⟨[], none⟩

/-- A text. -/
def text (s : String) : Layout := ⟨[.text s], none⟩

/-- A line break. -/
def newline : Layout := ⟨[.newline], none⟩

/-- A space. -/
def space : Layout := ⟨[.space], none⟩

/-- The indentation of a level. -/
def indent (level : Nat) : Layout := ⟨[.indent level], none⟩

/-- An error. -/
def fail (e : LayoutError) : Layout := ⟨[], some e⟩

/-- The first layout and then the second, unless the first stops at an error. -/
def append (a b : Layout) : Layout :=
  match a.failure with
  | some e => ⟨a.pieces, some e⟩
  | none => ⟨a.pieces ++ b.pieces, b.failure⟩

instance : Append Layout := ⟨append⟩

theorem empty_append (a : Layout) : empty ++ a = a := rfl

theorem append_empty (a : Layout) : a ++ empty = a := by
  obtain ⟨pieces, failure⟩ := a
  cases failure
  · exact congrArg (Layout.mk · none) (List.append_nil pieces)
  · rfl

theorem append_assoc (a b c : Layout) : a ++ b ++ c = a ++ (b ++ c) := by
  obtain ⟨_, failure⟩ := a
  obtain ⟨_, failure'⟩ := b
  cases failure <;> cases failure'
  · exact congrArg (Layout.mk · c.failure) (List.append_assoc _ _ _)
  all_goals rfl

/-- Layouts one after the other. -/
def concat (parts : List Layout) : Layout :=
  parts.foldr (· ++ ·) empty

/-- Layouts with a separator between neighbours. -/
def separated (separator : Layout) : List Layout → Layout
  | [] => empty
  | [part] => part
  | part :: parts => part ++ separator ++ separated separator parts

/-- Items on one line, with commas between them. -/
def commaSeparated (items : List Layout) : Layout :=
  separated (text ", ") items

/-- Items on lines of their own, each with a comma after it; what follows stands at `position` on
the line after the last. -/
def stacked (position : Nat) (items : List Layout) : Layout :=
  newline ++ concat (items.map (· ++ text "," ++ newline)) ++ indent position

/-- Items that go on one line or are stacked one level deeper. They are given for any position and
line mode, since these depend on the choice. -/
def arranged (fits : Bool) (position : Nat) (items : Nat → LineMode → List Layout) : Layout :=
  if fits then commaSeparated (items position .continueLine)
  else stacked position (items (position + 1) .newLine)

/-- Items between brackets, on one line or stacked. -/
def bracketed (opening closing : String) (fits : Bool) (position : Nat)
    (items : Nat → LineMode → List Layout) : Layout :=
  text opening ++ arranged fits position items ++ text closing

/-- Refuses single-line mode. -/
def refuseSingleLine (construct : Construct) (position : Nat) : LineMode → Layout
  | .singleLine => fail (.unsupportedMode construct position)
  | .newLine | .continueLine => empty

/-- What stands before a node in each line mode: its indentation where it starts a line. -/
def lead (construct : Construct) (position : Nat) : LineMode → Layout
  | .newLine => indent position
  | .continueLine => empty
  | .singleLine => fail (.unsupportedMode construct position)

/-- A line of a text block: indented when there is something on it. -/
def blockLine (position : Nat) (line : String) : Layout :=
  if line.isEmpty then empty else indent position ++ text line

end Layout

end StarlarkCode
