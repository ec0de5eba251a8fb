import StarlarkCode.Binary64
import StarlarkCode.Kind

/-!
# Expressions

The tree of an expression, with the parts that occur only inside one: call arguments, dictionary
entries, and the body and clauses of a comprehension. Nothing is checked on construction; a
comprehension without clauses and a loop without variables are trees, and it is printing that
refuses them.
-/

namespace StarlarkCode

/-- A name that stands for a value of the given kind. -/
structure Reference where
  name : String
  kind : ValueKind := .any
deriving DecidableEq, Hashable, Repr

/-- The operators of a binary operation. -/
inductive BinaryOp where
  | plus
  | percent
deriving DecidableEq, Repr

/-- The sign of an operator. -/
def BinaryOp.text : BinaryOp → String
  | .plus => "+"
  | .percent => "%"

/-- The bounds of a slice; one that is absent is left out. -/
structure Bounds where
  start : Option Int64
  stop : Option Int64
  step : Option Int64
deriving DecidableEq, Repr

mutual

/-- An expression. -/
inductive Expr where
  /-- A string literal with this content. -/
  | string (value : String)
  /-- An integer literal. -/
  | integer (value : Int64)
  /-- A float literal. -/
  | float (value : Binary64)
  /-- A boolean literal. -/
  | boolean (value : Bool)
  /-- The value `None`. -/
  | none
  /-- A name. -/
  | reference (target : Reference)
  /-- A call, of a method when there is a receiver. -/
  | call (receiver : Option Expr) (name : String) (args : List Arg)
  /-- A binary operation with the kind of its result. -/
  | binary (kind : ValueKind) (left : Expr) (op : BinaryOp) (right : Expr)
  /-- A list or dictionary comprehension. -/
  | comprehension (body : Body) (clauses : List Clause)
  /-- A slice of the receiver. -/
  | slice (receiver : Expr) (bounds : Bounds)
  /-- A list display. -/
  | list (items : List Expr)
  /-- A tuple display. -/
  | tuple (items : List Expr)
  /-- A dictionary display; its entries are ordered and keys may repeat. -/
  | dictionary (entries : List Entry)
  /-- Text taken over as it is. -/
  | raw (text : String)

/-- A call argument, positional when it has no name. -/
structure Arg where
  name : Option String
  value : Expr

/-- A dictionary entry. -/
structure Entry where
  key : Expr
  value : Expr

/-- What a comprehension computes for each round of its loops. -/
inductive Body where
  /-- An element of a list. -/
  | element (value : Expr)
  /-- An entry of a dictionary. -/
  | entry (entry : Entry)

/-- A clause of a comprehension. -/
inductive Clause where
  /-- A loop that binds its targets to the values of the iterable in turn. -/
  | loop (targets : List Expr) (iterable : Expr)
  /-- A condition on the values of the loops before it. -/
  | guard (condition : Expr)

end

instance : Inhabited Expr := ⟨.none⟩

/-- What the comprehension around a body builds. -/
def Body.kind : Body → ComprehensionKind
  | .element _ => .list
  | .entry _ => .dictionary

namespace Clause

/-- The construct that a clause is. -/
def construct : Clause → Construct
  | .loop _ _ => .forClause
  | .guard _ => .ifClause

end Clause

namespace Arg

/-- The argument's name, empty for a positional argument. -/
def id (a : Arg) : String :=
  a.name.getD ""

/-- An argument without a name. -/
def positional (value : Expr) : Arg :=
  ⟨Option.none, value⟩

end Arg

namespace Expr

/-- The construct that an expression is. -/
def construct : Expr → Construct
  | .string _ => .string
  | .integer _ => .integer
  | .float _ => .float
  | .boolean _ => .boolean
  | .none => .none
  | .reference _ => .reference
  | .call _ _ _ => .call
  | .binary _ _ _ _ => .binary
  | .comprehension body _ => .comprehension body.kind
  | .slice _ _ => .slice
  | .list _ => .list
  | .tuple _ => .tuple
  | .dictionary _ => .dictionary
  | .raw _ => .rawText

/-- The kind of an expression's value. A slice has the kind of what it slices; of a call, of raw
text and of `None` nothing is known. -/
def valueKind : Expr → ValueKind
  | .string _ => .string
  | .integer _ => .number
  | .float _ => .number
  | .boolean _ => .boolean
  | .none => .any
  | .reference target => target.kind
  | .call _ _ _ => .any
  | .binary kind _ _ _ => kind
  | .comprehension body _ => body.kind.valueKind
  | .slice receiver _ => receiver.valueKind
  | .list _ => .list
  | .tuple _ => .tuple
  | .dictionary _ => .dictionary
  | .raw _ => .any

/-- A binary operation whose result has the kind of its left operand. -/
def operation (left : Expr) (op : BinaryOp) (right : Expr) : Expr :=
  .binary left.valueKind left op right

/-- What a comprehension builds; other expressions are no comprehensions. -/
def comprehensionKind? : Expr → Option ComprehensionKind
  | .comprehension body _ => some body.kind
  | _ => Option.none

end Expr

/-- The values that have an expression of their own. -/
class ToExpression (α : Type) where
  /-- The expression that stands for a value. -/
  toExpression : α → Expr

export ToExpression (toExpression)

instance : ToExpression Expr := ⟨id⟩
instance : ToExpression String := ⟨.string⟩
instance : ToExpression Int64 := ⟨.integer⟩
instance : ToExpression Binary64 := ⟨.float⟩
instance : ToExpression Bool := ⟨.boolean⟩

/-- An absent value is `None`. -/
instance {α : Type} [ToExpression α] : ToExpression (Option α) where
  toExpression
    | some value => toExpression value
    | Option.none => .none

end StarlarkCode
