import StarlarkCode.Output.Printer
import StarlarkCode.Layout.Fit
import StarlarkCode.Binary64.Literal
import StarlarkCode.Text.Blank
import StarlarkCode.Text.Lines

/-!
# Printing expressions

The visit of an expression by a printer, at a position and in a line mode. The parts are visited in
the order of the text, with the same printer, and the first error among them ends the visit.
-/

namespace StarlarkCode

namespace PrintM

variable {σ : Type} [TextSink σ]

/-- Writes a string literal, between triple quotes if it holds several lines. -/
def quoted (position : Nat) (value : String) : PrintM σ Unit :=
  match Text.lines value with
  | [_] => do
    text "\""
    text value
    text "\""
  | lines => do
    text "\"\"\""
    newline
    lines.forM fun line => do
      blockLine position line
      newline
    indent position
    text "\"\"\""

/-- Writes the name of an argument and the sign after it; a blank name is left out. -/
def argumentName : Option String → PrintM σ Unit
  | some name =>
    if Text.isBlank name then pure ()
    else do
      text name
      text " = "
  | none => pure ()

/-- Writes a bound of a slice, if it has one. -/
def bound : Option Int64 → PrintM σ Unit
  | some n => text (Text.ofInt n.toInt)
  | none => pure ()

/-- Writes the bounds of a slice in brackets. -/
def bounds (b : Bounds) : PrintM σ Unit := do
  text "["
  bound b.start
  text ":"
  bound b.stop
  onlyIf b.step.isSome do
    text ":"
    bound b.step
  text "]"

end PrintM

open PrintM

mutual

variable {σ : Type} [TextSink σ]

/-- Visits an expression. -/
def Expr.print : Expr → Nat → LineMode → PrintM σ Unit
  | .string value, p, m => do
    lead .string p m
    quoted p value
  | .integer value, p, m => do
    lead .integer p m
    text (Text.ofInt value.toInt)
  | .float value, p, m => do
    lead .float p m
    text value.literal
  | .boolean value, p, m => do
    lead .boolean p m
    text (if value then "True" else "False")
  | .none, p, m => do
    lead .none p m
    text "None"
  | .reference target, p, m => do
    lead .reference p m
    text target.name
  | .call receiver name args, p, m => do
    lead .call p m
    Expr.printReceiver receiver p
    text name
    bracketed "(" ")" (argsFit args) p fun q n => Arg.prints args q n
  | .binary _ left op right, p, m => do
    refuseSingleLine .binary p m
    left.print p m
    space
    text op.text
    space
    right.print p .continueLine
  | .comprehension body clauses, p, m => do
    lead (.comprehension body.kind) p m
    if clauses.isEmpty then throw (.emptyComprehension body.kind p)
    else
      text body.kind.opening
      if body.breaks then
        newline
        body.print (p + 1) .newLine
        (Clause.prints clauses (p + 1) .newLine).forM fun clause => do
          newline
          clause
        newline
        indent p
      else
        body.print p .continueLine
        (Clause.prints clauses p .continueLine).forM fun clause => do
          space
          clause
      text body.kind.closing
  | .slice receiver range, p, m => do
    lead .slice p m
    receiver.print p .continueLine
    bounds range
  | .list items, p, m => do
    lead .list p m
    bracketed "[" "]" (itemsFit items) p fun q n => Expr.prints items q n
  | .tuple items, p, m => do
    lead .tuple p m
    text "("
    arranged (itemsFit items) p fun q n => Expr.prints items q n
    onlyIf (items.length == 1) (text ",")
    text ")"
  | .dictionary entries, p, m => do
    lead .dictionary p m
    bracketed "\x7b" "\x7d" (entriesFit entries) p fun q n => Entry.prints entries q n
  | .raw s, p, m => do
    lead .rawText p m
    text s

/-- Visits the receiver of a method call and writes the point after it. -/
def Expr.printReceiver : Option Expr → Nat → PrintM σ Unit
  | Option.none, _ => pure ()
  | some receiver, p => do
    receiver.print p .continueLine
    text "."

def Expr.prints : List Expr → Nat → LineMode → List (PrintM σ Unit)
  | [], _, _ => []
  | e :: es, p, m => e.print p m :: Expr.prints es p m

/-- Visits an argument. -/
def Arg.print : Arg → Nat → LineMode → PrintM σ Unit
  | ⟨name, value⟩, p, m => do
    lead .argument p m
    argumentName name
    value.print p .continueLine

def Arg.prints : List Arg → Nat → LineMode → List (PrintM σ Unit)
  | [], _, _ => []
  | a :: as, p, m => a.print p m :: Arg.prints as p m

/-- Visits the key and the value of an entry. -/
def Entry.print : Entry → Nat → LineMode → PrintM σ Unit
  | ⟨key, value⟩, p, m => do
    key.print p m
    text ": "
    value.print p .continueLine

def Entry.prints : List Entry → Nat → LineMode → List (PrintM σ Unit)
  | [], _, _ => []
  | e :: es, p, m => e.print p m :: Entry.prints es p m

/-- Visits the body of a comprehension. -/
def Body.print : Body → Nat → LineMode → PrintM σ Unit
  | .element value, p, m => value.print p m
  | .entry e, p, m => e.print p m

/-- Visits a clause. -/
def Clause.print : Clause → Nat → LineMode → PrintM σ Unit
  | .loop targets iterable, p, m => do
    lead .forClause p m
    if targets.isEmpty then throw (.missingLoopVariables p)
    else
      text "for "
      commaSeparated (Expr.prints targets p .continueLine)
      text " in "
      iterable.print p .continueLine
  | .guard condition, p, m => do
    lead .ifClause p m
    text "if "
    condition.print p .continueLine

def Clause.prints : List Clause → Nat → LineMode → List (PrintM σ Unit)
  | [], _, _ => []
  | c :: cs, p, m => c.print p m :: Clause.prints cs p m

end

end StarlarkCode
