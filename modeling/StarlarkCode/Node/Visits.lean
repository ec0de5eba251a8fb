import StarlarkCode.Node

/-!
# Visits

A walk over a tree that visits every node before its children: statements in order, the receiver of
a call before its arguments, the left operand before the right, the body of a comprehension before
its clauses, the variables of a loop before the iterable, each key before its value. A child is
visited one position deeper than its parent and continues the parent's line.
-/

namespace StarlarkCode

/-- One node met on the walk. -/
structure Visit where
  construct : Construct
  position : Nat
  mode : LineMode
deriving DecidableEq, Repr

mutual

/-- The visits of an expression. -/
def Expr.visits : Expr → Nat → LineMode → List Visit
  | .string _, p, m => [⟨.string, p, m⟩]
  | .integer _, p, m => [⟨.integer, p, m⟩]
  | .float _, p, m => [⟨.float, p, m⟩]
  | .boolean _, p, m => [⟨.boolean, p, m⟩]
  | .none, p, m => [⟨.none, p, m⟩]
  | .reference _, p, m => [⟨.reference, p, m⟩]
  | .call receiver _ args, p, m =>
    ⟨.call, p, m⟩ :: (Expr.receiverVisits receiver (p + 1) ++ Arg.visitsAll args (p + 1))
  | .binary _ left _ right, p, m =>
    ⟨.binary, p, m⟩ :: (left.visits (p + 1) .continueLine ++ right.visits (p + 1) .continueLine)
  | .comprehension body clauses, p, m =>
    ⟨.comprehension body.kind, p, m⟩ :: (body.visits (p + 1) ++ Clause.visitsAll clauses (p + 1))
  | .slice receiver _, p, m => ⟨.slice, p, m⟩ :: receiver.visits (p + 1) .continueLine
  | .list items, p, m => ⟨.list, p, m⟩ :: Expr.visitsAll items (p + 1)
  | .tuple items, p, m => ⟨.tuple, p, m⟩ :: Expr.visitsAll items (p + 1)
  | .dictionary entries, p, m => ⟨.dictionary, p, m⟩ :: Entry.visitsAll entries (p + 1)
  | .raw _, p, m => [⟨.rawText, p, m⟩]

/-- The visits of a receiver, if there is one. -/
def Expr.receiverVisits : Option Expr → Nat → List Visit
  | Option.none, _ => []
  | some e, p => e.visits p .continueLine

def Expr.visitsAll : List Expr → Nat → List Visit
  | [], _ => []
  | e :: es, p => e.visits p .continueLine ++ Expr.visitsAll es p

/-- The visits of an argument. -/
def Arg.visits : Arg → Nat → LineMode → List Visit
  | ⟨_, value⟩, p, m => ⟨.argument, p, m⟩ :: value.visits (p + 1) .continueLine

def Arg.visitsAll : List Arg → Nat → List Visit
  | [], _ => []
  | a :: as, p => a.visits p .continueLine ++ Arg.visitsAll as p

/-- The visits of an entry, which is no node of its own. -/
def Entry.visits : Entry → Nat → List Visit
  | ⟨key, value⟩, p => key.visits p .continueLine ++ value.visits p .continueLine

def Entry.visitsAll : List Entry → Nat → List Visit
  | [], _ => []
  | e :: es, p => e.visits p ++ Entry.visitsAll es p

/-- The visits of a comprehension's body, which is no node of its own. -/
def Body.visits : Body → Nat → List Visit
  | .element e, p => e.visits p .continueLine
  | .entry e, p => e.visits p

/-- The visits of a clause. -/
def Clause.visits : Clause → Nat → LineMode → List Visit
  | .loop targets iterable, p, m =>
    ⟨.forClause, p, m⟩ ::
      (Expr.visitsAll targets (p + 1) ++ iterable.visits (p + 1) .continueLine)
  | .guard condition, p, m => ⟨.ifClause, p, m⟩ :: condition.visits (p + 1) .continueLine

def Clause.visitsAll : List Clause → Nat → List Visit
  | [], _ => []
  | c :: cs, p => c.visits p .continueLine ++ Clause.visitsAll cs p

end

/-- The visits of a statement. -/
def Statement.visits (s : Statement) (p : Nat) (m : LineMode) : List Visit :=
  ⟨s.construct, p, m⟩ :: match s with
    | .expression value => value.visits (p + 1) .continueLine
    | .assignment _ value => value.visits (p + 1) .continueLine
    | .load imported => imported.symbols.map fun _ => ⟨.symbol, p + 1, .continueLine⟩
    | .raw _ | .emptyLine | .comment _ => []

/-- The visits of a node at a position and in a line mode. -/
def Node.visits : Node → Nat → LineMode → List Visit
  | .file f, p, m => ⟨.file, p, m⟩ :: f.statements.flatMap (·.visits (p + 1) .continueLine)
  | .statement s, p, m => s.visits p m
  | .expression e, p, m => e.visits p m
  | .clause c, p, m => c.visits p m
  | .argument a, p, m => a.visits p m
  | .symbol _, p, m => [⟨.symbol, p, m⟩]

end StarlarkCode
