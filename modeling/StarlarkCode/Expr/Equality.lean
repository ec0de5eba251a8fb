import StarlarkCode.Expr

/-!
# Equality of expressions

When two expressions count as the same. The comparison is structural, with two exceptions: an
argument is identified by its name, so that argument values are not compared, also inside a call;
and floats are compared as numbers, so that a NaN makes an expression differ from itself.
-/

namespace StarlarkCode

/-- Arguments are equal when their names are. -/
instance : BEq Arg := ⟨fun a b => a.name == b.name⟩

instance : Hashable Arg := ⟨fun a => hash a.name⟩

mutual

/-- Two expressions are the same. -/
def Expr.same : Expr → Expr → Bool
  | .string a, .string b => a == b
  | .integer a, .integer b => a == b
  | .float a, .float b => a.numEq b
  | .boolean a, .boolean b => a == b
  | .none, .none => true
  | .reference a, .reference b => a == b
  | .call r n as, .call r' n' as' => Expr.sameReceiver r r' && n == n' && as == as'
  | .binary k l o r, .binary k' l' o' r' => k == k' && l.same l' && o == o' && r.same r'
  | .comprehension b cs, .comprehension b' cs' => b.same b' && Clause.sameAll cs cs'
  | .slice r s, .slice r' s' => r.same r' && s == s'
  | .list xs, .list ys => Expr.sameAll xs ys
  | .tuple xs, .tuple ys => Expr.sameAll xs ys
  | .dictionary xs, .dictionary ys => Entry.sameAll xs ys
  | .raw a, .raw b => a == b
  | _, _ => false
termination_by structural x => x

/-- Two receivers are the same: both absent, or the same expression. -/
def Expr.sameReceiver : Option Expr → Option Expr → Bool
  | Option.none, Option.none => true
  | some a, some b => a.same b
  | _, _ => false
termination_by structural x => x

def Expr.sameAll : List Expr → List Expr → Bool
  | [], [] => true
  | x :: xs, y :: ys => x.same y && Expr.sameAll xs ys
  | _, _ => false
termination_by structural x => x

/-- Two entries have the same key and value. -/
def Entry.same : Entry → Entry → Bool
  | ⟨k, v⟩, ⟨k', v'⟩ => k.same k' && v.same v'
termination_by structural x => x

def Entry.sameAll : List Entry → List Entry → Bool
  | [], [] => true
  | x :: xs, y :: ys => x.same y && Entry.sameAll xs ys
  | _, _ => false
termination_by structural x => x

/-- Two comprehension bodies are the same. -/
def Body.same : Body → Body → Bool
  | .element a, .element b => a.same b
  | .entry a, .entry b => a.same b
  | _, _ => false
termination_by structural x => x

/-- Two clauses are the same. -/
def Clause.same : Clause → Clause → Bool
  | .loop vs i, .loop vs' i' => Expr.sameAll vs vs' && i.same i'
  | .guard c, .guard c' => c.same c'
  | _, _ => false
termination_by structural x => x

def Clause.sameAll : List Clause → List Clause → Bool
  | [], [] => true
  | x :: xs, y :: ys => x.same y && Clause.sameAll xs ys
  | _, _ => false
termination_by structural x => x

end

instance : BEq Expr := ⟨Expr.same⟩
instance : BEq Clause := ⟨Clause.same⟩

end StarlarkCode
