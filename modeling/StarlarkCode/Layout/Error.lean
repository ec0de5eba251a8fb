import StarlarkCode.Node
import StarlarkCode.Text.Digits

/-!
# Layout errors

What keeps a node from being laid out, with the text of the message. Each error names the
construct at fault, and the position where it stands unless the construct says enough.
-/

namespace StarlarkCode

/-- A reason why a node has no layout. -/
inductive LayoutError where
  /-- Something was to be laid out in single-line mode. -/
  | unsupportedMode (construct : Construct) (position : Nat)
  /-- A comprehension without clauses. -/
  | emptyComprehension (kind : ComprehensionKind) (position : Nat)
  /-- A loop that binds no variable. -/
  | missingLoopVariables (position : Nat)
  /-- A load that imports nothing. -/
  | emptyLoad (file : String)
  /-- A statement that has to start a line and was to continue one. -/
  | misplacedStatement (construct : Construct) (mode : LineMode) (position : Nat)
deriving DecidableEq, Repr

namespace LayoutError

/-- The construct at fault. -/
def construct : LayoutError → Construct
  | .unsupportedMode construct _ => construct
  | .emptyComprehension kind _ => .comprehension kind
  | .missingLoopVariables _ => .forClause
  | .emptyLoad _ => .load
  | .misplacedStatement construct _ _ => construct

/-- The text that reports an error. -/
def message (e : LayoutError) : String :=
  match e with
  | .unsupportedMode construct position =>
    "single-line mode is not supported (while formatting " ++ construct.text ++ " at position "
      ++ Text.ofNat position ++ ")"
  | .emptyComprehension _ position =>
    e.construct.text ++ " at position " ++ Text.ofNat position ++ " has no clauses"
  | .missingLoopVariables position =>
    e.construct.text ++ " at position " ++ Text.ofNat position ++ " has no loop variables"
  | .emptyLoad file => "load of \"" ++ file ++ "\" imports no symbols"
  | .misplacedStatement construct mode position =>
    construct.text ++ " must start on a new line but was formatted in " ++ mode.text
      ++ " mode at position " ++ Text.ofNat position

end LayoutError

end StarlarkCode
