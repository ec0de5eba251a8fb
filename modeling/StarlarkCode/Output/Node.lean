import StarlarkCode.Output.Expr
import StarlarkCode.Layout.Spacing
import StarlarkCode.Node

/-!
# Printing statements, files and nodes

The visit of a node by a printer, at a position and in a line mode. `Printer.printNode` is the visit
as a whole: it leaves the printer as the visit left it, whether or not the visit came to its end.
-/

namespace StarlarkCode

open PrintM

variable {σ : Type} [TextSink σ]

/-- Visits a symbol in a load. -/
def Symbol.print (symbol : Symbol) (p : Nat) (m : LineMode) : PrintM σ Unit := do
  lead .symbol p m
  match symbol.localName with
  | some name => do
    text name
    text " = "
  | none => pure ()
  quoted p symbol.name

/-- Visits a load. That it imports nothing is reported before its line mode is looked at. -/
def Load.print (load : Load) (p : Nat) (m : LineMode) : PrintM σ Unit :=
  if load.symbols.isEmpty then throw (.emptyLoad load.file)
  else do
    lead .load p m
    bracketed "load(" ")" (load.symbols.length = 1) p fun q n =>
      (do lead .string q n; quoted q load.file) :: load.symbols.map (·.print q n)

/-- Writes a line of a comment. -/
def PrintM.commentLine (position : Nat) (line : String) : PrintM σ Unit := do
  indent position
  if line.isEmpty then text "#"
  else
    text "# "
    text line

/-- Refuses an assignment that does not start a line. -/
def PrintM.assignmentMode (position : Nat) : LineMode → PrintM σ Unit
  | .newLine => pure ()
  | .continueLine => throw (.misplacedStatement .assignment .continueLine position)
  | .singleLine => throw (.unsupportedMode .assignment position)

/-- Visits a statement. -/
def Statement.print : Statement → Nat → LineMode → PrintM σ Unit
  | .expression value, p, m => do
    refuseSingleLine .expressionStatement p m
    value.print p m
  | .assignment name value, p, m => do
    assignmentMode p m
    indent p
    text name
    text " = "
    value.print p .continueLine
  | .load imported, p, m => imported.print p m
  | .raw s, p, m => do
    refuseSingleLine .rawStatement p m
    separated newline ((Text.lines s).map (blockLine p))
  | .emptyLine, p, m => refuseSingleLine .emptyLine p m
  | .comment s, p, m => do
    refuseSingleLine .comment p m
    separated newline ((Text.lines s).map (commentLine p))

/-- Visits statements in order, each on a new line unless it is the first, and ends the last line.
The statement visited before is at hand for the blank lines between them. -/
def Statement.printAfter (p : Nat) (m : LineMode) :
    Option Statement → List Statement → PrintM σ Unit
  | previous, [] => onlyIf previous.isSome newline
  | previous, s :: rest => do
    onlyIf previous.isSome newline
    onlyIf (Statement.wantsBlankLineAfter previous s) newline
    s.print p m
    Statement.printAfter p m (some s) rest

/-- Visits a file. -/
def File.print (f : File) (p : Nat) (m : LineMode) : PrintM σ Unit := do
  refuseSingleLine .file p m
  Statement.printAfter p m none f.statements

/-- Visits a node. -/
def Node.print : Node → Nat → LineMode → PrintM σ Unit
  | .file f => f.print
  | .statement s => s.print
  | .expression e => e.print
  | .clause c => c.print
  | .argument a => a.print
  | .symbol s => s.print

/-- Prints a node at a position and in a line mode, and gives the error at which it stopped, if
any. -/
def Printer.printNode (printer : Printer σ) (node : Node) (position : Nat) (mode : LineMode) :
    Printer σ × Option LayoutError :=
  printer.perform (node.print position mode)

end StarlarkCode
