import StarlarkCode.Layout.Expr
import StarlarkCode.Layout.Spacing

/-!
# Layout of statements, files and nodes

Statements stand below each other, with a blank line between them where `Statement.wantsBlankLine`
asks for one, and a file ends in a line break. A load of one symbol stays on a line, any other has
its file and symbols stacked. The lines of comments and raw statements are laid out one by one.
-/

namespace StarlarkCode

open Layout

/-- The layout of a symbol in a load. -/
def Symbol.layout (symbol : Symbol) (p : Nat) (m : LineMode) : Layout :=
  lead .symbol p m
    ++ (match symbol.localName with
        | some name => text name ++ text " = "
        | none => empty)
    ++ quoted p symbol.name

/-- The layout of a load. That it imports nothing is reported before its line mode is looked at. -/
def Load.layout (load : Load) (p : Nat) (m : LineMode) : Layout :=
  if load.symbols.isEmpty then fail (.emptyLoad load.file)
  else
    lead .load p m
      ++ bracketed "load(" ")" (load.symbols.length = 1) p fun q n =>
        (lead .string q n ++ quoted q load.file) :: load.symbols.map (·.layout q n)

/-- A line of a comment. -/
def Layout.commentLine (position : Nat) (line : String) : Layout :=
  indent position ++ (if line.isEmpty then text "#" else text "# " ++ text line)

/-- The layout of a statement. -/
def Statement.layout : Statement → Nat → LineMode → Layout
  | .expression value, p, m => refuseSingleLine .expressionStatement p m ++ value.layout p m
  | .assignment name value, p, m =>
    refuseSingleLine .assignment p m
      ++ (if m = .newLine then empty else fail (.misplacedStatement .assignment m p))
      ++ indent p ++ text name ++ text " = " ++ value.layout p .continueLine
  | .load imported, p, m => imported.layout p m
  | .raw s, p, m =>
    refuseSingleLine .rawStatement p m
      ++ separated newline ((Text.lines s).map (blockLine p))
  | .emptyLine, p, m => refuseSingleLine .emptyLine p m
  | .comment s, p, m =>
    refuseSingleLine .comment p m
      ++ separated newline ((Text.lines s).map (commentLine p))

/-- The statements after a given one, each on a new line, and the break that ends the last. -/
def Statement.layoutAfter (p : Nat) (m : LineMode) : Statement → List Statement → Layout
  | _, [] => newline
  | previous, s :: rest =>
    newline ++ (if previous.wantsBlankLine s then newline else empty) ++ s.layout p m
      ++ Statement.layoutAfter p m s rest

/-- The layout of a file; one without statements is empty. -/
def File.layout (f : File) (p : Nat) (m : LineMode) : Layout :=
  refuseSingleLine .file p m
    ++ (match f.statements with
        | [] => empty
        | s :: rest => s.layout p m ++ Statement.layoutAfter p m s rest)

/-- The layout of a node at a position and in a line mode. -/
def Node.layout : Node → Nat → LineMode → Layout
  | .file f => f.layout
  | .statement s => s.layout
  | .expression e => e.layout
  | .clause c => c.layout
  | .argument a => a.layout
  | .symbol s => s.layout

end StarlarkCode
