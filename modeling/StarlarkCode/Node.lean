import StarlarkCode.File

/-!
# Nodes

Everything that can be visited by itself, at a position and in a line mode. A position is a depth of
nesting, and so of indentation; the line mode says where on a line the node starts. Positions are
numbers without a bound: that a machine word for them could overflow is left out.
-/

namespace StarlarkCode

/-- How a node is placed on its line. -/
inductive LineMode where
  /-- It starts a line and brings its own indentation. -/
  | newLine
  /-- It goes on where the line stands. -/
  | continueLine
  /-- It is kept on one line. Nothing is laid out this way: asking for it is an error. -/
  | singleLine
deriving DecidableEq, Repr

/-- The name of a line mode. -/
def LineMode.text : LineMode → String
  | .newLine => "NewLine"
  | .continueLine => "ContinueLine"
  | .singleLine => "SingleLine"

/-- A node that can be visited. -/
inductive Node where
  | file (value : File)
  | statement (value : Statement)
  | expression (value : Expr)
  | clause (value : Clause)
  | argument (value : Arg)
  | symbol (value : Symbol)

/-- The construct that a node is. -/
def Node.construct : Node → Construct
  | .file _ => .file
  | .statement s => s.construct
  | .expression e => e.construct
  | .clause c => c.construct
  | .argument _ => .argument
  | .symbol _ => .symbol

/-- Nodes are equal when they are of one type and equal there. -/
def Node.same : Node → Node → Bool
  | .file a, .file b => a == b
  | .statement a, .statement b => a == b
  | .expression a, .expression b => a == b
  | .clause a, .clause b => a == b
  | .argument a, .argument b => a == b
  | .symbol a, .symbol b => a == b
  | _, _ => false

instance : BEq Node := ⟨Node.same⟩

end StarlarkCode
