import StarlarkCode.Proofs.Reading.Scanner
import StarlarkCode.Layout.Expr

/-!
# Reading expressions

The way back from a text to a tree. The reader takes one token at a time. It keeps what it has read
last, the operations that wait for their right operand, and the brackets that are open; nothing is
read twice, so a text read up to some point is a state, and what follows is read from there.

Of the two operators `%` binds tighter than `+`, and both group to the left. So at any time at most
two operations wait, a sum and inside its right operand a product (`Pending`).

A text has no kinds on its references and operations. What is read is the tree with the kind `any`
everywhere, `Expr.untagged`, and two trees are the same up to kinds when these are equal.
-/

namespace StarlarkCode

/-! ## Trees without kinds -/

mutual

/-- The expression with nothing known about the kinds of its references and operations. -/
def Expr.untagged : Expr → Expr
  | .string value => .string value
  | .integer value => .integer value
  | .float value => .float value
  | .boolean value => .boolean value
  | .none => .none
  | .reference target => .reference ⟨target.name, .any⟩
  | .call receiver name args => .call (Expr.untaggedReceiver receiver) name (Arg.untaggedAll args)
  | .binary _ left op right => .binary .any left.untagged op right.untagged
  | .comprehension body clauses => .comprehension body.untagged (Clause.untaggedAll clauses)
  | .slice receiver bounds => .slice receiver.untagged bounds
  | .list items => .list (Expr.untaggedAll items)
  | .tuple items => .tuple (Expr.untaggedAll items)
  | .dictionary entries => .dictionary (Entry.untaggedAll entries)
  | .raw s => .raw s

/-- The receiver of a call without kinds. -/
def Expr.untaggedReceiver : Option Expr → Option Expr
  | Option.none => Option.none
  | some receiver => some receiver.untagged

def Expr.untaggedAll : List Expr → List Expr
  | [] => []
  | e :: es => e.untagged :: Expr.untaggedAll es

/-- An argument without kinds. -/
def Arg.untagged : Arg → Arg
  | ⟨name, value⟩ => ⟨name, value.untagged⟩

def Arg.untaggedAll : List Arg → List Arg
  | [] => []
  | a :: as => a.untagged :: Arg.untaggedAll as

/-- An entry without kinds. -/
def Entry.untagged : Entry → Entry
  | ⟨key, value⟩ => ⟨key.untagged, value.untagged⟩

def Entry.untaggedAll : List Entry → List Entry
  | [] => []
  | e :: es => e.untagged :: Entry.untaggedAll es

/-- A comprehension's body without kinds. -/
def Body.untagged : Body → Body
  | .element value => .element value.untagged
  | .entry e => .entry e.untagged

/-- A clause without kinds. -/
def Clause.untagged : Clause → Clause
  | .loop targets iterable => .loop (Expr.untaggedAll targets) iterable.untagged
  | .guard condition => .guard condition.untagged

def Clause.untaggedAll : List Clause → List Clause
  | [] => []
  | c :: cs => c.untagged :: Clause.untaggedAll cs

end

theorem Expr.untaggedAll_eq_map (es : List Expr) : Expr.untaggedAll es = es.map Expr.untagged := by
  induction es with
  | nil => rfl
  | cons e es ih => rw [Expr.untaggedAll, ih, List.map_cons]

theorem Arg.untaggedAll_eq_map (as : List Arg) : Arg.untaggedAll as = as.map Arg.untagged := by
  induction as with
  | nil => rfl
  | cons a as ih => rw [Arg.untaggedAll, ih, List.map_cons]

theorem Entry.untaggedAll_eq_map (es : List Entry) :
    Entry.untaggedAll es = es.map Entry.untagged := by
  induction es with
  | nil => rfl
  | cons e es ih => rw [Entry.untaggedAll, ih, List.map_cons]

theorem Clause.untaggedAll_eq_map (cs : List Clause) :
    Clause.untaggedAll cs = cs.map Clause.untagged := by
  induction cs with
  | nil => rfl
  | cons c cs ih => rw [Clause.untaggedAll, ih, List.map_cons]

theorem Body.kind_untagged (b : Body) : b.untagged.kind = b.kind := by
  cases b <;> rfl

namespace Reading

/-! ## Operations that wait -/

/-- The left operands of the sum and of the product that wait for their right operand. -/
structure Pending where
  sum : Option Expr
  product : Option Expr

namespace Pending

/-- No operation waits. -/
def nothing : Pending := ⟨none, none⟩

/-- The product that ends with an operand. -/
def factor (p : Pending) (x : Expr) : Expr :=
  p.product.elim x fun left => .binary .any left .percent x

/-- The expression that ends with an operand. -/
def whole (p : Pending) (x : Expr) : Expr :=
  p.sum.elim (p.factor x) fun left => .binary .any left .plus (p.factor x)

/-- What waits after an operand and an operator: a sum takes all that was read as its left operand,
a product only the product before it. -/
def after (p : Pending) (x : Expr) : BinaryOp → Pending
  | .plus => ⟨some (p.whole x), none⟩
  | .percent => ⟨p.sum, some (p.factor x)⟩

end Pending

/-! ## The state of the reader -/

/-- The innermost open bracket, with what has been read inside it. -/
inductive Context where
  | list (items : List Expr)
  | tuple (items : List Expr)
  /-- The key of an entry is due. -/
  | key (entries : List Entry)
  /-- The value of an entry is due. -/
  | value (entries : List Entry) (key : Expr)
  /-- An argument is due, or its value when there is a label. -/
  | argument (receiver : Option Expr) (name : String) (args : List Arg) (label : Option String)
  /-- A target of a loop is due. -/
  | target (body : Body) (clauses : List Clause) (targets : List Expr)
  /-- The iterable of a loop is due. -/
  | iterable (body : Body) (clauses : List Clause) (targets : List Expr)
  /-- The condition of a guard is due. -/
  | condition (body : Body) (clauses : List Clause)

/-- An open bracket and the operations that wait outside it. -/
structure Frame where
  context : Context
  outside : Pending

/-- What has been read last. -/
inductive Focus where
  /-- An operand is due. -/
  | start
  /-- A minus sign; digits are due. -/
  | minus
  /-- An operand. -/
  | operand (x : Expr)
  /-- The point after a receiver. -/
  | point (receiver : Expr)
  /-- The name of a method. -/
  | method (receiver : Expr) (name : String)
  /-- Bounds of a slice up to the last colon, and the sign and the number after it. -/
  | bounds (receiver : Expr) (before : List (Option Int64)) (negative : Bool)
      (current : Option Int64)

/-- The state of the reader; the innermost open bracket is the first frame. -/
structure State where
  focus : Focus
  pending : Pending
  frames : List Frame

/-- What a word means where an operand is due. -/
abbrev Vocabulary := List Char → Option Expr

/-- The number that digits spell. -/
def natural? (w : List Char) : Option Nat :=
  if w.all Char.isDigit then some (Nat.ofDigitChars 10 w 0) else none

/-- The bounds of a slice from the numbers between its colons. -/
def bounds? : List (Option Int64) → Option Bounds
  | [start, stop] => some ⟨start, stop, none⟩
  | [start, stop, step] => some ⟨start, stop, step⟩
  | _ => none

/-! ## Steps -/

/-- An open bracket goes on: an operand is due in it. -/
def resume (context : Context) (outside : Pending) (frames : List Frame) : State :=
  ⟨.start, .nothing, ⟨context, outside⟩ :: frames⟩

/-- The keyword that starts a clause. -/
def startClause (body : Body) (clauses : List Clause) (outside : Pending) (frames : List Frame)
    (w : List Char) : Option State :=
  if w = "for".toList then some (resume (.target body clauses []) outside frames)
  else if w = "if".toList then some (resume (.condition body clauses) outside frames)
  else none

/-- The token after a clause: the next clause or the end of the comprehension. -/
def afterClause (body : Body) (clauses : List Clause) (outside : Pending) (frames : List Frame) :
    Token → Option State
  | .word w => startClause body clauses outside frames w
  | .sign c =>
    if [c] = body.kind.closing.toList then
      some ⟨.operand (.comprehension body clauses), outside, frames⟩
    else none
  | _ => none

/-- The token after an expression in a bracket. An expression alone in parentheses is itself. -/
def endExpr (e : Expr) (outside : Pending) (frames : List Frame) : Context → Token → Option State
  | .list items, .sign ',' => some (resume (.list (items ++ [e])) outside frames)
  | .list items, .sign ']' => some ⟨.operand (.list (items ++ [e])), outside, frames⟩
  | .list [], .word w => startClause (.element e) [] outside frames w
  | .tuple items, .sign ',' => some (resume (.tuple (items ++ [e])) outside frames)
  | .tuple [], .sign ')' => some ⟨.operand e, outside, frames⟩
  | .tuple items, .sign ')' => some ⟨.operand (.tuple (items ++ [e])), outside, frames⟩
  | .key entries, .sign ':' => some (resume (.value entries e) outside frames)
  | .value entries key, .sign ',' => some (resume (.key (entries ++ [⟨key, e⟩])) outside frames)
  | .value entries key, .sign '\x7d' =>
    some ⟨.operand (.dictionary (entries ++ [⟨key, e⟩])), outside, frames⟩
  | .value [] key, .word w => startClause (.entry ⟨key, e⟩) [] outside frames w
  | .argument receiver name args label, .sign ',' =>
    some (resume (.argument receiver name (args ++ [⟨label, e⟩]) none) outside frames)
  | .argument receiver name args label, .sign ')' =>
    some ⟨.operand (.call receiver name (args ++ [⟨label, e⟩])), outside, frames⟩
  | .target body clauses targets, .sign ',' =>
    some (resume (.target body clauses (targets ++ [e])) outside frames)
  | .target body clauses targets, .word w =>
    if w = "in".toList then some (resume (.iterable body clauses (targets ++ [e])) outside frames)
    else none
  | .iterable body clauses targets, t =>
    afterClause body (clauses ++ [.loop targets e]) outside frames t
  | .condition body clauses, t => afterClause body (clauses ++ [.guard e]) outside frames t
  | _, _ => none

/-- The closing bracket where an operand is due: nothing is in the bracket, or a comma is before
it. -/
def closeAtStart : State → Char → Option State
  | ⟨_, ⟨none, none⟩, ⟨.list items, outside⟩ :: frames⟩, ']' =>
    some ⟨.operand (.list items), outside, frames⟩
  | ⟨_, ⟨none, none⟩, ⟨.tuple items, outside⟩ :: frames⟩, ')' =>
    some ⟨.operand (.tuple items), outside, frames⟩
  | ⟨_, ⟨none, none⟩, ⟨.key entries, outside⟩ :: frames⟩, '\x7d' =>
    some ⟨.operand (.dictionary entries), outside, frames⟩
  | ⟨_, ⟨none, none⟩, ⟨.argument receiver name args none, outside⟩ :: frames⟩, ')' =>
    some ⟨.operand (.call receiver name args), outside, frames⟩
  | _, _ => none

/-- The token where an operand is due. -/
def stepStart (v : Vocabulary) (s : State) : Token → Option State
  | .word w => (v w).map fun x => ⟨.operand x, s.pending, s.frames⟩
  | .string cs => some ⟨.operand (.string (String.ofList cs)), s.pending, s.frames⟩
  | .sign '-' => some ⟨.minus, s.pending, s.frames⟩
  | .sign '(' => some (resume (.tuple []) s.pending s.frames)
  | .sign '[' => some (resume (.list []) s.pending s.frames)
  | .sign '\x7b' => some (resume (.key []) s.pending s.frames)
  | .sign c => closeAtStart s c
  | .unreadable => none

/-- The sign after a name that makes it the label of an argument. -/
def label (name : String) : State → Option State
  | ⟨_, ⟨none, none⟩, ⟨.argument receiver callee args none, outside⟩ :: frames⟩ =>
    some (resume (.argument receiver callee args (some name)) outside frames)
  | _ => none

/-- The token after an operand. -/
def stepOperand (x : Expr) (s : State) : Token → Option State
  | .sign '+' => some ⟨.start, s.pending.after x .plus, s.frames⟩
  | .sign '%' => some ⟨.start, s.pending.after x .percent, s.frames⟩
  | .sign '.' => some ⟨.point x, s.pending, s.frames⟩
  | .sign '[' => some ⟨.bounds x [] false none, s.pending, s.frames⟩
  | .sign '(' =>
    match x with
    | .reference target => some (resume (.argument none target.name [] none) s.pending s.frames)
    | _ => none
  | .sign '=' =>
    match x with
    | .reference target => label target.name s
    | _ => none
  | t =>
    match s.frames with
    | [] => none
    | ⟨context, outside⟩ :: frames => endExpr (s.pending.whole x) outside frames context t

/-- The token inside the bounds of a slice. -/
def stepBounds (receiver : Expr) (before : List (Option Int64)) (s : State) :
    Bool → Option Int64 → Token → Option State
  | false, none, .sign '-' => some ⟨.bounds receiver before true none, s.pending, s.frames⟩
  | negative, none, .word w =>
    (natural? w).map fun (n : Nat) =>
      ⟨.bounds receiver before false (some (Int64.ofInt (if negative then -n else n))), s.pending,
        s.frames⟩
  | false, current, .sign ':' =>
    some ⟨.bounds receiver (before ++ [current]) false none, s.pending, s.frames⟩
  | false, current, .sign ']' =>
    (bounds? (before ++ [current])).map fun bounds =>
      ⟨.operand (.slice receiver bounds), s.pending, s.frames⟩
  | _, _, _ => none

/-- The state after a token, if it may stand there. -/
def step (v : Vocabulary) (s : State) (t : Token) : Option State :=
  match s.focus with
  | .start => stepStart v s t
  | .operand x => stepOperand x s t
  | .minus =>
    match t with
    | .word w =>
      (natural? w).map fun (n : Nat) =>
        ⟨.operand (.integer (Int64.ofInt (-n))), s.pending, s.frames⟩
    | _ => none
  | .point receiver =>
    match t with
    | .word w => some ⟨.method receiver (String.ofList w), s.pending, s.frames⟩
    | _ => none
  | .method receiver name =>
    match t with
    | .sign '(' => some (resume (.argument (some receiver) name [] none) s.pending s.frames)
    | _ => none
  | .bounds receiver before negative current => stepBounds receiver before s negative current t

/-- The expression that has been read when the text ends. -/
def State.result? : State → Option Expr
  | ⟨.operand x, pending, []⟩ => some (pending.whole x)
  | _ => none

/-- The expression that tokens complete. -/
def run (v : Vocabulary) : State → List Token → Option Expr
  | s, [] => s.result?
  | s, t :: ts => (step v s t).bind (run v · ts)

/-- The expression that a text completes. -/
def read (v : Vocabulary) (s : State) (cs : List Char) : Option Expr :=
  run v s (scan .between cs)

/-- The expression that a text is. -/
def parse (v : Vocabulary) (text : String) : Option Expr :=
  read v ⟨.start, .nothing, []⟩ text.toList

end Reading

end StarlarkCode
