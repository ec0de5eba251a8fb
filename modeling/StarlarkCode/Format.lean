import StarlarkCode.Output.Buffer
import StarlarkCode.Output.Node

/-!
# Formatting

Whole files and single nodes as text. The style has one choice, the width of a level of
indentation.
-/

namespace StarlarkCode

/-- The width of a level unless another is chosen. -/
def defaultIndentWidth : Nat := 4

/-- How text is formatted. -/
structure Style where
  indentWidth : Nat := defaultIndentWidth
deriving DecidableEq, Repr

namespace Style

/-- A printer of this style that adds to a sink. -/
def printer {σ : Type} (style : Style) (output : σ) : Printer σ :=
  ⟨.ofWidth style.indentWidth, output⟩

/-- The text of a file, which ends in one line break unless the file has no statements. -/
def format (style : Style) (file : File) : Except LayoutError String :=
  match (style.printer Buffer.empty).printNode (.file file) 0 .newLine with
  | (printer, none) => .ok printer.output.finish
  | (_, some e) => .error e

/-- Adds the text of a file to a sink. A file that cannot be formatted adds nothing. -/
def formatTo {σ : Type} [TextSink σ] (style : Style) (file : File) (output : σ) :
    σ × Option LayoutError :=
  match style.format file with
  | .ok s => (TextSink.write output s, none)
  | .error e => (output, some e)

/-- The text of a node at a position and in a line mode, with nothing added after it. -/
def formatNode (style : Style) (node : Node) (position : Nat) (mode : LineMode) :
    Except LayoutError String :=
  match (style.printer Buffer.empty).printNode node position mode with
  | (printer, none) => .ok printer.output.text
  | (_, some e) => .error e

end Style

/-- The text of a file in the default style. -/
def File.format (file : File) : Except LayoutError String :=
  ({} : Style).format file

end StarlarkCode
