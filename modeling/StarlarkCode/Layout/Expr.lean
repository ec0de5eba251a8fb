import StarlarkCode.Layout
import StarlarkCode.Layout.Fit
import StarlarkCode.Binary64.Literal
import StarlarkCode.Text.Blank
import StarlarkCode.Text.Lines

/-!
# Layout of expressions

Each expression at a position and in a line mode. Items of a bracketed construct are one level
deeper when they are stacked, and at the construct's own position when they stay on its line; what
follows on a line, such as the value after a name, stays at the position of the line.
-/

namespace StarlarkCode

namespace Layout

/-- A string literal. One that holds several lines is a block between triple quotes: the lines stand
below each other at the position of the literal, and an empty line stays empty. -/
def quoted (position : Nat) (value : String) : Layout :=
  match Text.lines value with
  | [_] => text "\"" ++ text value ++ text "\""
  | lines =>
    text "\"\"\"" ++ newline
      ++ concat (lines.map fun line => blockLine position line ++ newline)
      ++ indent position ++ text "\"\"\""

/-- The name of an argument and the sign after it; a blank name is left out. -/
def argumentName : Option String → Layout
  | some name => if Text.isBlank name then empty else text name ++ text " = "
  | none => empty

/-- An operator with a space on each side. -/
def operator (op : BinaryOp) : Layout :=
  space ++ text op.text ++ space

/-- A bound of a slice; an absent one is empty. -/
def bound : Option Int64 → Layout
  | some n => text (Text.ofInt n.toInt)
  | none => empty

/-- The bounds of a slice in brackets, with colons between them. Without a step the second colon is
left out. -/
def bounds (b : Bounds) : Layout :=
  text "[" ++ bound b.start ++ text ":" ++ bound b.stop
    ++ (match b.step with
        | some n => text ":" ++ bound (some n)
        | none => empty)
    ++ text "]"

/-- The items of a tuple in parentheses, with a comma behind the item if there is only one. -/
def tupled (count : Nat) (fits : Bool) (position : Nat) (items : Nat → LineMode → List Layout) :
    Layout :=
  text "(" ++ arranged fits position items ++ (if count = 1 then text "," else empty) ++ text ")"

end Layout

open Layout

mutual

/-- The layout of an expression. -/
def Expr.layout : Expr → Nat → LineMode → Layout
  | .string value, p, m => lead .string p m ++ quoted p value
  | .integer value, p, m => lead .integer p m ++ text (Text.ofInt value.toInt)
  | .float value, p, m => lead .float p m ++ text value.literal
  | .boolean value, p, m => lead .boolean p m ++ text (if value then "True" else "False")
  | .none, p, m => lead .none p m ++ text "None"
  | .reference target, p, m => lead .reference p m ++ text target.name
  | .call receiver name args, p, m =>
    lead .call p m ++ Expr.receiverLayout receiver p ++ text name
      ++ bracketed "(" ")" (argsFit args) p fun q n => Arg.layouts args q n
  | .binary _ left op right, p, m =>
    refuseSingleLine .binary p m ++ left.layout p m ++ operator op
      ++ right.layout p .continueLine
  | .comprehension body clauses, p, m =>
    lead (.comprehension body.kind) p m
      ++ (if clauses.isEmpty then fail (.emptyComprehension body.kind p)
          else text body.kind.opening
            ++ (if body.breaks then
                  newline ++ body.layout (p + 1) .newLine
                    ++ concat ((Clause.layouts clauses (p + 1) .newLine).map (newline ++ ·))
                    ++ newline ++ indent p
                else
                  body.layout p .continueLine
                    ++ concat ((Clause.layouts clauses p .continueLine).map (space ++ ·)))
            ++ text body.kind.closing)
  | .slice receiver bounds, p, m =>
    lead .slice p m ++ receiver.layout p .continueLine ++ Layout.bounds bounds
  | .list items, p, m =>
    lead .list p m ++ bracketed "[" "]" (itemsFit items) p fun q n => Expr.layouts items q n
  | .tuple items, p, m =>
    lead .tuple p m
      ++ tupled items.length (itemsFit items) p fun q n => Expr.layouts items q n
  | .dictionary entries, p, m =>
    lead .dictionary p m
      ++ bracketed "\x7b" "\x7d" (entriesFit entries) p fun q n => Entry.layouts entries q n
  | .raw s, p, m => lead .rawText p m ++ text s

/-- The receiver of a method call with the point after it. -/
def Expr.receiverLayout : Option Expr → Nat → Layout
  | Option.none, _ => empty
  | some receiver, p => receiver.layout p .continueLine ++ text "."

def Expr.layouts : List Expr → Nat → LineMode → List Layout
  | [], _, _ => []
  | e :: es, p, m => e.layout p m :: Expr.layouts es p m

/-- The layout of an argument. -/
def Arg.layout : Arg → Nat → LineMode → Layout
  | ⟨name, value⟩, p, m =>
    lead .argument p m ++ argumentName name ++ value.layout p .continueLine

def Arg.layouts : List Arg → Nat → LineMode → List Layout
  | [], _, _ => []
  | a :: as, p, m => a.layout p m :: Arg.layouts as p m

/-- The layout of an entry, which starts as its key does. -/
def Entry.layout : Entry → Nat → LineMode → Layout
  | ⟨key, value⟩, p, m => key.layout p m ++ text ": " ++ value.layout p .continueLine

def Entry.layouts : List Entry → Nat → LineMode → List Layout
  | [], _, _ => []
  | e :: es, p, m => e.layout p m :: Entry.layouts es p m

/-- The layout of a comprehension's body. -/
def Body.layout : Body → Nat → LineMode → Layout
  | .element value, p, m => value.layout p m
  | .entry e, p, m => e.layout p m

/-- The layout of a clause. -/
def Clause.layout : Clause → Nat → LineMode → Layout
  | .loop targets iterable, p, m =>
    lead .forClause p m
      ++ (if targets.isEmpty then fail (.missingLoopVariables p)
          else text "for " ++ commaSeparated (Expr.layouts targets p .continueLine) ++ text " in "
            ++ iterable.layout p .continueLine)
  | .guard condition, p, m => lead .ifClause p m ++ text "if " ++ condition.layout p .continueLine

def Clause.layouts : List Clause → Nat → LineMode → List Layout
  | [], _, _ => []
  | c :: cs, p, m => c.layout p m :: Clause.layouts cs p m

end

/-! ## Lists of nodes -/

theorem Expr.layouts_eq_map (es : List Expr) (p : Nat) (m : LineMode) :
    Expr.layouts es p m = es.map (·.layout p m) := by
  induction es with
  | nil => rfl
  | cons e es ih => rw [Expr.layouts, ih, List.map_cons]

theorem Arg.layouts_eq_map (as : List Arg) (p : Nat) (m : LineMode) :
    Arg.layouts as p m = as.map (·.layout p m) := by
  induction as with
  | nil => rfl
  | cons a as ih => rw [Arg.layouts, ih, List.map_cons]

theorem Entry.layouts_eq_map (es : List Entry) (p : Nat) (m : LineMode) :
    Entry.layouts es p m = es.map (·.layout p m) := by
  induction es with
  | nil => rfl
  | cons e es ih => rw [Entry.layouts, ih, List.map_cons]

theorem Clause.layouts_eq_map (cs : List Clause) (p : Nat) (m : LineMode) :
    Clause.layouts cs p m = cs.map (·.layout p m) := by
  induction cs with
  | nil => rfl
  | cons c cs ih => rw [Clause.layouts, ih, List.map_cons]

end StarlarkCode
