import StarlarkCode.Expr.Equality

/-!
# Statements

The statements of a file. A load imports symbols from another file, each under its own name or under
a local one; empty lines and comments are statements, because the printed file keeps them.
-/

namespace StarlarkCode

/-- A symbol that a load imports, bound to a local name if it is given one. -/
structure Symbol where
  name : String
  localName : Option String
deriving DecidableEq, Hashable, Repr

/-- An import of symbols from a file. -/
structure Load where
  file : String
  symbols : List Symbol
deriving DecidableEq, Hashable, Repr

/-- A statement of a file. -/
inductive Statement where
  /-- An expression that stands by itself. -/
  | expression (value : Expr)
  /-- A value bound to a name. -/
  | assignment (name : String) (value : Expr)
  /-- An import. -/
  | load (imported : Load)
  /-- Text taken over line by line. -/
  | raw (text : String)
  /-- An empty line. -/
  | emptyLine
  /-- A comment, one line of it per line of the text. -/
  | comment (text : String)

namespace Statement

/-- The construct that a statement is. -/
def construct : Statement → Construct
  | .expression _ => .expressionStatement
  | .assignment _ _ => .assignment
  | .load _ => .load
  | .raw _ => .rawStatement
  | .emptyLine => .emptyLine
  | .comment _ => .comment

/-- Two statements are the same; their expressions are compared by `Expr.same`. -/
def same : Statement → Statement → Bool
  | .expression a, .expression b => a == b
  | .assignment n a, .assignment n' b => n == n' && a == b
  | .load a, .load b => a == b
  | .raw a, .raw b => a == b
  | .emptyLine, .emptyLine => true
  | .comment a, .comment b => a == b
  | _, _ => false

instance : BEq Statement := ⟨same⟩

end Statement

end StarlarkCode
