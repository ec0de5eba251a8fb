import StarlarkCode.Layout
import StarlarkCode.Output.TextSink
import StarlarkCode.Output.IndentTable

/-!
# Printers

A printer is a sink together with the indentation texts it has needed so far. What it does is work
in `PrintM`: each step changes the table and the sink, and an error ends the work there, with all
that was written until then left in the sink. The same printer can go on to other work.
-/

namespace StarlarkCode

/-- A sink together with the indentation texts used so far. -/
structure Printer (σ : Type) where
  indents : IndentTable
  output : σ

/-- Work of a printer, which may stop at an error. The error does not undo what was done. -/
abbrev PrintM (σ : Type) := ExceptT LayoutError (StateM (Printer σ))

namespace Printer

variable {σ : Type} [TextSink σ]

/-- Writes one piece. -/
def write : Printer σ → Piece → Printer σ
  | ⟨indents, output⟩, .text s => ⟨indents, TextSink.write output s⟩
  | ⟨indents, output⟩, .newline => ⟨indents, TextSink.newline output⟩
  | ⟨indents, output⟩, .space => ⟨indents, TextSink.space output⟩
  | ⟨indents, output⟩, .indent level =>
    let (indent, indents) := indents.get level
    ⟨indents, TextSink.write output indent⟩

/-- Does work, and gives the error at which it stopped, if any. -/
def perform (printer : Printer σ) (work : PrintM σ Unit) : Printer σ × Option LayoutError :=
  match work.run.run printer with
  | (.ok _, printer) => (printer, none)
  | (.error e, printer) => (printer, some e)

end Printer

namespace PrintM

variable {σ : Type} [TextSink σ]

/-- Writes a piece. -/
def emit (piece : Piece) : PrintM σ Unit :=
  modify (·.write piece)

/-- Writes a text. -/
def text (s : String) : PrintM σ Unit :=
  emit (.text s)

/-- Ends the line. -/
def newline : PrintM σ Unit :=
  emit .newline

/-- Writes a space. -/
def space : PrintM σ Unit :=
  emit .space

/-- Writes the indentation of a level. -/
def indent (level : Nat) : PrintM σ Unit :=
  emit (.indent level)

/-- Does work only under a condition. -/
def onlyIf (condition : Bool) (work : PrintM σ Unit) : PrintM σ Unit :=
  if condition then work else pure ()

/-- Does one thing after the other, with something else between neighbours. -/
def separated (separator : PrintM σ Unit) : List (PrintM σ Unit) → PrintM σ Unit
  | [] => pure ()
  | [item] => item
  | item :: items => do
    item
    separator
    separated separator items

/-- Writes items on the current line, with commas between them. -/
def commaSeparated (items : List (PrintM σ Unit)) : PrintM σ Unit :=
  separated (text ", ") items

/-- Writes items on lines of their own, each with a comma after it, and indents the line after the
last for what follows. -/
def stacked (position : Nat) (items : List (PrintM σ Unit)) : PrintM σ Unit := do
  newline
  items.forM fun item => do
    item
    text ","
    newline
  indent position

/-- Writes items on the current line if they fit, and otherwise one level deeper on their own. -/
def arranged (fits : Bool) (position : Nat) (items : Nat → LineMode → List (PrintM σ Unit)) :
    PrintM σ Unit :=
  if fits then commaSeparated (items position .continueLine)
  else stacked position (items (position + 1) .newLine)

/-- Writes items between brackets. -/
def bracketed (opening closing : String) (fits : Bool) (position : Nat)
    (items : Nat → LineMode → List (PrintM σ Unit)) : PrintM σ Unit := do
  text opening
  arranged fits position items
  text closing

/-- Refuses single-line mode. -/
def refuseSingleLine (construct : Construct) (position : Nat) : LineMode → PrintM σ Unit
  | .singleLine => throw (.unsupportedMode construct position)
  | .newLine | .continueLine => pure ()

/-- Starts a node in its line mode: with its indentation where it starts a line. -/
def lead (construct : Construct) (position : Nat) : LineMode → PrintM σ Unit
  | .newLine => indent position
  | .continueLine => pure ()
  | .singleLine => throw (.unsupportedMode construct position)

/-- Writes a line of a text block, with its indentation if there is something on it. -/
def blockLine (position : Nat) (line : String) : PrintM σ Unit :=
  if line.isEmpty then pure ()
  else do
    indent position
    text line

end PrintM

end StarlarkCode
