import StarlarkCode.File

/-!
# What equality compares

Equality of trees looks at a part of them. It stops at the arguments of a call, of which it sees the
names, and it takes floats as numbers, so that `-0.0` is `0.0` and a NaN is equal to nothing. All
that it sees is kept by `erased`, which puts `None` for the value of every argument and `0.0` for
every `-0.0`; and it finds a NaN where `hasNaN` does, anywhere but in the value of an argument.

Two trees are equal exactly when neither has such a NaN and both are the same tree once erased
(`trees_equal_iff_erased`). So equality is symmetric and transitive, and the trees that differ from
themselves are those with such a NaN.
-/

namespace StarlarkCode

/-! ## Floats -/

namespace Binary64

/-- The zero with a clear sign bit. -/
def zero : Binary64 := ⟨0⟩

/-- The zero with its sign bit set. -/
def negativeZero : Binary64 := ⟨0x8000000000000000⟩

/-- The number, with `0.0` in place of `-0.0`. -/
def unsignedZero (x : Binary64) : Binary64 :=
  if x = negativeZero then zero else x

/-- There are two zeros. -/
theorem isZero_iff (x : Binary64) : x.isZero = true ↔ x = zero ∨ x = negativeZero := by
  obtain ⟨bits⟩ := x
  have bound := bits.toNat_lt
  have ofNat (n : UInt64) : (⟨bits⟩ : Binary64) = ⟨n⟩ ↔ bits.toNat = n.toNat := by
    rw [Binary64.mk.injEq, UInt64.toNat_inj]
  have fields : (⟨bits⟩ : Binary64).isZero = true ↔
      bits.toNat / 4503599627370496 % 2048 = 0 ∧ bits.toNat % 4503599627370496 = 0 := by
    simp only [isZero, Bool.and_eq_true, beq_iff_eq]
    rfl
  rw [fields, zero, negativeZero, ofNat, ofNat]
  show _ ↔ bits.toNat = 0 ∨ bits.toNat = 9223372036854775808
  omega

/-- Without the sign of zero, numbers are the same if they are or if both are zeros. -/
theorem unsignedZero_eq_iff (x y : Binary64) :
    x.unsignedZero = y.unsignedZero ↔ x = y ∨ x.isZero = true ∧ y.isZero = true := by
  rw [isZero_iff, isZero_iff, unsignedZero, unsignedZero]
  split <;> split <;> grind

/-- Numbers are equal when they are the same up to the sign of zero, unless one is a NaN. -/
theorem numEq_iff (x y : Binary64) :
    x.numEq y = true ↔
      x.isNaN = false ∧ y.isNaN = false ∧ x.unsignedZero = y.unsignedZero := by
  rw [unsignedZero_eq_iff]
  simp [numEq, and_assoc]

end Binary64

/-! ## Trees without what equality leaves out -/

/-- The argument with `None` for its value. -/
def Arg.erased (a : Arg) : Arg :=
  ⟨a.name, .none⟩

mutual

/-- The expression with `None` for the value of every argument and `0.0` for every `-0.0`. -/
def Expr.erased : Expr → Expr
  | .string value => .string value
  | .integer value => .integer value
  | .float value => .float value.unsignedZero
  | .boolean value => .boolean value
  | .none => .none
  | .reference target => .reference target
  | .call receiver name args => .call (Expr.erasedReceiver receiver) name (args.map Arg.erased)
  | .binary kind left op right => .binary kind left.erased op right.erased
  | .comprehension body clauses => .comprehension body.erased (Clause.erasedAll clauses)
  | .slice receiver bounds => .slice receiver.erased bounds
  | .list items => .list (Expr.erasedAll items)
  | .tuple items => .tuple (Expr.erasedAll items)
  | .dictionary entries => .dictionary (Entry.erasedAll entries)
  | .raw s => .raw s

/-- A receiver, erased where there is one. -/
def Expr.erasedReceiver : Option Expr → Option Expr
  | Option.none => Option.none
  | some receiver => some receiver.erased

def Expr.erasedAll : List Expr → List Expr
  | [] => []
  | e :: es => e.erased :: Expr.erasedAll es

/-- An entry with its key and value erased. -/
def Entry.erased : Entry → Entry
  | ⟨key, value⟩ => ⟨key.erased, value.erased⟩

def Entry.erasedAll : List Entry → List Entry
  | [] => []
  | e :: es => e.erased :: Entry.erasedAll es

/-- The erased body of a comprehension. -/
def Body.erased : Body → Body
  | .element value => .element value.erased
  | .entry e => .entry e.erased

/-- A clause with its expressions erased. -/
def Clause.erased : Clause → Clause
  | .loop targets iterable => .loop (Expr.erasedAll targets) iterable.erased
  | .guard condition => .guard condition.erased

def Clause.erasedAll : List Clause → List Clause
  | [] => []
  | c :: cs => c.erased :: Clause.erasedAll cs

end

mutual

/-- A NaN stands in the expression, outside the values of arguments. -/
def Expr.hasNaN : Expr → Bool
  | .float value => value.isNaN
  | .call receiver _ _ => Expr.receiverHasNaN receiver
  | .binary _ left _ right => left.hasNaN || right.hasNaN
  | .comprehension body clauses => body.hasNaN || Clause.anyHasNaN clauses
  | .slice receiver _ => receiver.hasNaN
  | .list items => Expr.anyHasNaN items
  | .tuple items => Expr.anyHasNaN items
  | .dictionary entries => Entry.anyHasNaN entries
  | .string _ | .integer _ | .boolean _ | .none | .reference _ | .raw _ => false

/-- A NaN stands in the receiver. -/
def Expr.receiverHasNaN : Option Expr → Bool
  | Option.none => false
  | some receiver => receiver.hasNaN

def Expr.anyHasNaN : List Expr → Bool
  | [] => false
  | e :: es => e.hasNaN || Expr.anyHasNaN es

/-- A NaN stands in the entry. -/
def Entry.hasNaN : Entry → Bool
  | ⟨key, value⟩ => key.hasNaN || value.hasNaN

def Entry.anyHasNaN : List Entry → Bool
  | [] => false
  | e :: es => e.hasNaN || Entry.anyHasNaN es

/-- A NaN stands in the body of a comprehension. -/
def Body.hasNaN : Body → Bool
  | .element value => value.hasNaN
  | .entry e => e.hasNaN

/-- A NaN stands in the clause. -/
def Clause.hasNaN : Clause → Bool
  | .loop targets iterable => Expr.anyHasNaN targets || iterable.hasNaN
  | .guard condition => condition.hasNaN

def Clause.anyHasNaN : List Clause → Bool
  | [] => false
  | c :: cs => c.hasNaN || Clause.anyHasNaN cs

end

/-! ## Expressions -/

/-- Two parts that are compared one after the other. -/
private theorem both_iff {nan nan' more more' : Bool} {same sameRest : Prop} :
    (nan = false ∧ nan' = false ∧ same) ∧ (more = false ∧ more' = false ∧ sameRest) ↔
      (nan || more) = false ∧ (nan' || more') = false ∧ same ∧ sameRest := by
  rw [Bool.or_eq_false_iff, Bool.or_eq_false_iff]
  constructor
  · rintro ⟨⟨left, left', first⟩, right, right', rest⟩
    exact ⟨⟨left, right⟩, ⟨left', right'⟩, first, rest⟩
  · rintro ⟨⟨left, right⟩, ⟨left', right'⟩, first, rest⟩
    exact ⟨⟨left, left', first⟩, right, right', rest⟩

/-- Lists are equal one item after the other, if this is so for each item. -/
theorem list_beq_iff {α : Type} [BEq α] (hasNaN : α → Bool) (erased : α → α)
    (items : ∀ a b : α, (a == b) = true ↔
      hasNaN a = false ∧ hasNaN b = false ∧ erased a = erased b) :
    ∀ xs ys : List α, (xs == ys) = true ↔
      xs.any hasNaN = false ∧ ys.any hasNaN = false ∧ xs.map erased = ys.map erased
  | [], [] => by simp
  | [], y :: ys => by simp
  | x :: xs, [] => by simp
  | x :: xs, y :: ys => by
    rw [List.cons_beq_cons, Bool.and_eq_true, items, list_beq_iff hasNaN erased items xs ys,
      both_iff]
    simp

/-- Arguments are equal by their names, so their values are never looked at. -/
theorem Arg.beq_iff_erased (a b : Arg) : (a == b) = true ↔ a.erased = b.erased := by
  obtain ⟨name, value⟩ := a
  obtain ⟨name', value'⟩ := b
  show (name == name') = true ↔ _
  simp [Arg.erased]

/-- Arguments are compared without what does not count in a comparison. -/
theorem Arg.list_beq_iff_erased (as bs : List Arg) :
    (as == bs) = true ↔ as.map Arg.erased = bs.map Arg.erased := by
  have each (a b : Arg) :
      (a == b) = true ↔ false = false ∧ false = false ∧ a.erased = b.erased := by
    simpa using Arg.beq_iff_erased a b
  simpa using list_beq_iff (fun _ => false) Arg.erased each as bs

mutual

/-- Expressions are equal when neither has a NaN and they differ in nothing that counts. -/
theorem Expr.same_iff : ∀ a b : Expr, a.same b = true ↔
    a.hasNaN = false ∧ b.hasNaN = false ∧ a.erased = b.erased
  | .string _, b | .integer _, b | .boolean _, b | .none, b | .reference _, b | .raw _, b => by
    cases b <;> simp [Expr.same, Expr.hasNaN, Expr.erased]
  | .float x, b => by
    cases b with
    | float y => simpa [Expr.same, Expr.hasNaN, Expr.erased] using x.numEq_iff y
    | _ => simp [Expr.same, Expr.erased]
  | .call receiver name args, b => by
    cases b with
    | call receiver' name' args' =>
      simp [Expr.same, Expr.hasNaN, Expr.erased, Expr.sameReceiver_iff receiver receiver',
        Arg.list_beq_iff_erased, and_assoc]
    | _ => simp [Expr.same, Expr.erased]
  | .binary kind left op right, b => by
    cases b with
    | binary kind' left' op' right' =>
      simp only [Expr.same, Bool.and_eq_true, beq_iff_eq, Expr.same_iff left left',
        Expr.same_iff right right', Expr.hasNaN, Bool.or_eq_false_iff, Expr.erased,
        Expr.binary.injEq]
      grind
    | _ => simp [Expr.same, Expr.erased]
  | .comprehension body clauses, b => by
    cases b with
    | comprehension body' clauses' =>
      rw [Expr.same, Bool.and_eq_true, Body.same_iff body body',
        Clause.sameAll_iff clauses clauses', both_iff]
      simp [Expr.hasNaN, Expr.erased]
    | _ => simp [Expr.same, Expr.erased]
  | .slice receiver bounds, b => by
    cases b with
    | slice receiver' bounds' =>
      simp [Expr.same, Expr.hasNaN, Expr.erased, Expr.same_iff receiver receiver', and_assoc]
    | _ => simp [Expr.same, Expr.erased]
  | .list items, b => by
    cases b with
    | list items' =>
      simpa [Expr.same, Expr.hasNaN, Expr.erased] using Expr.sameAll_iff items items'
    | _ => simp [Expr.same, Expr.erased]
  | .tuple items, b => by
    cases b with
    | tuple items' =>
      simpa [Expr.same, Expr.hasNaN, Expr.erased] using Expr.sameAll_iff items items'
    | _ => simp [Expr.same, Expr.erased]
  | .dictionary entries, b => by
    cases b with
    | dictionary entries' =>
      simpa [Expr.same, Expr.hasNaN, Expr.erased] using Entry.sameAll_iff entries entries'
    | _ => simp [Expr.same, Expr.erased]
termination_by structural a => a

theorem Expr.sameReceiver_iff : ∀ a b : Option Expr, Expr.sameReceiver a b = true ↔
    Expr.receiverHasNaN a = false ∧ Expr.receiverHasNaN b = false ∧
      Expr.erasedReceiver a = Expr.erasedReceiver b
  | Option.none, Option.none => by simp [Expr.sameReceiver, Expr.receiverHasNaN]
  | Option.none, some b => by simp [Expr.sameReceiver, Expr.erasedReceiver]
  | some a, Option.none => by simp [Expr.sameReceiver, Expr.erasedReceiver]
  | some a, some b => by
    simpa [Expr.sameReceiver, Expr.receiverHasNaN, Expr.erasedReceiver] using Expr.same_iff a b
termination_by structural a => a

theorem Expr.sameAll_iff : ∀ xs ys : List Expr, Expr.sameAll xs ys = true ↔
    Expr.anyHasNaN xs = false ∧ Expr.anyHasNaN ys = false ∧ Expr.erasedAll xs = Expr.erasedAll ys
  | [], [] => by simp [Expr.sameAll, Expr.anyHasNaN]
  | [], y :: ys => by simp [Expr.sameAll, Expr.erasedAll]
  | x :: xs, [] => by simp [Expr.sameAll, Expr.erasedAll]
  | x :: xs, y :: ys => by
    rw [Expr.sameAll, Bool.and_eq_true, Expr.same_iff x y, Expr.sameAll_iff xs ys, both_iff]
    simp [Expr.anyHasNaN, Expr.erasedAll]
termination_by structural a => a

/-- The same for entries. -/
theorem Entry.same_iff : ∀ a b : Entry, a.same b = true ↔
    a.hasNaN = false ∧ b.hasNaN = false ∧ a.erased = b.erased
  | ⟨key, value⟩, ⟨key', value'⟩ => by
    rw [Entry.same, Bool.and_eq_true, Expr.same_iff key key', Expr.same_iff value value', both_iff]
    simp [Entry.hasNaN, Entry.erased]
termination_by structural a => a

theorem Entry.sameAll_iff : ∀ xs ys : List Entry, Entry.sameAll xs ys = true ↔
    Entry.anyHasNaN xs = false ∧ Entry.anyHasNaN ys = false ∧
      Entry.erasedAll xs = Entry.erasedAll ys
  | [], [] => by simp [Entry.sameAll, Entry.anyHasNaN]
  | [], y :: ys => by simp [Entry.sameAll, Entry.erasedAll]
  | x :: xs, [] => by simp [Entry.sameAll, Entry.erasedAll]
  | x :: xs, y :: ys => by
    rw [Entry.sameAll, Bool.and_eq_true, Entry.same_iff x y, Entry.sameAll_iff xs ys, both_iff]
    simp [Entry.anyHasNaN, Entry.erasedAll]
termination_by structural a => a

/-- The same for the bodies of comprehensions. -/
theorem Body.same_iff : ∀ a b : Body, a.same b = true ↔
    a.hasNaN = false ∧ b.hasNaN = false ∧ a.erased = b.erased
  | .element a, .element b => by
    simpa [Body.same, Body.hasNaN, Body.erased] using Expr.same_iff a b
  | .entry a, .entry b => by
    simpa [Body.same, Body.hasNaN, Body.erased] using Entry.same_iff a b
  | .element _, .entry _ => by simp [Body.same, Body.erased]
  | .entry _, .element _ => by simp [Body.same, Body.erased]
termination_by structural a => a

/-- The same for clauses. -/
theorem Clause.same_iff : ∀ a b : Clause, a.same b = true ↔
    a.hasNaN = false ∧ b.hasNaN = false ∧ a.erased = b.erased
  | .loop targets iterable, .loop targets' iterable' => by
    rw [Clause.same, Bool.and_eq_true, Expr.sameAll_iff targets targets',
      Expr.same_iff iterable iterable', both_iff]
    simp [Clause.hasNaN, Clause.erased]
  | .guard a, .guard b => by
    simpa [Clause.same, Clause.hasNaN, Clause.erased] using Expr.same_iff a b
  | .loop _ _, .guard _ => by simp [Clause.same, Clause.erased]
  | .guard _, .loop _ _ => by simp [Clause.same, Clause.erased]
termination_by structural a => a

theorem Clause.sameAll_iff : ∀ xs ys : List Clause, Clause.sameAll xs ys = true ↔
    Clause.anyHasNaN xs = false ∧ Clause.anyHasNaN ys = false ∧
      Clause.erasedAll xs = Clause.erasedAll ys
  | [], [] => by simp [Clause.sameAll, Clause.anyHasNaN]
  | [], y :: ys => by simp [Clause.sameAll, Clause.erasedAll]
  | x :: xs, [] => by simp [Clause.sameAll, Clause.erasedAll]
  | x :: xs, y :: ys => by
    rw [Clause.sameAll, Bool.and_eq_true, Clause.same_iff x y, Clause.sameAll_iff xs ys, both_iff]
    simp [Clause.anyHasNaN, Clause.erasedAll]
termination_by structural a => a

end

/-! ## Statements and files -/

namespace Statement

/-- The statement with its expression erased. -/
def erased : Statement → Statement
  | .expression value => .expression value.erased
  | .assignment name value => .assignment name value.erased
  | .load imported => .load imported
  | .raw s => .raw s
  | .emptyLine => .emptyLine
  | .comment s => .comment s

/-- A NaN stands in the statement, outside the values of arguments. -/
def hasNaN : Statement → Bool
  | .expression value => value.hasNaN
  | .assignment _ value => value.hasNaN
  | .load _ | .raw _ | .emptyLine | .comment _ => false

/-- The same for statements. -/
theorem same_iff (a b : Statement) :
    a.same b = true ↔ a.hasNaN = false ∧ b.hasNaN = false ∧ a.erased = b.erased := by
  have values (x y : Expr) : (x == y) = true ↔
      x.hasNaN = false ∧ y.hasNaN = false ∧ x.erased = y.erased := Expr.same_iff x y
  cases a with
  | expression x =>
    cases b with
    | expression y => simpa [same, hasNaN, erased] using values x y
    | _ => simp [same, erased]
  | assignment name x =>
    cases b with
    | assignment name' y =>
      simp only [same, Bool.and_eq_true, beq_iff_eq, values, hasNaN, erased,
        Statement.assignment.injEq]
      grind
    | _ => simp [same, erased]
  | _ => cases b <;> simp [same, hasNaN, erased]

end Statement

namespace File

/-- The file with its statements erased. -/
def erased (f : File) : File :=
  ⟨f.kind, f.name, f.statements.map Statement.erased⟩

/-- A NaN stands in the file, outside the values of arguments. -/
def hasNaN (f : File) : Bool :=
  f.statements.any Statement.hasNaN

/-- Files are equal when neither has a NaN and they differ in nothing that counts. -/
theorem beq_iff (f g : File) :
    (f == g) = true ↔ f.hasNaN = false ∧ g.hasNaN = false ∧ f.erased = g.erased := by
  show (f.kind == g.kind && f.name == g.name && f.statements == g.statements) = true ↔ _
  simp only [Bool.and_eq_true, beq_iff_eq, hasNaN, erased,
    list_beq_iff Statement.hasNaN Statement.erased Statement.same_iff,
    File.mk.injEq]
  grind

end File

/-! ## Equality -/

/-- How the trees of one type are compared: two are equal when neither has a NaN and both are the
same tree once erased. -/
structure ComparedErased {α : Type} [BEq α] (hasNaN : α → Bool) (erased : α → α) : Prop where
  equal_iff : ∀ a b : α, (a == b) = true ↔
    hasNaN a = false ∧ hasNaN b = false ∧ erased a = erased b
  symm : ∀ a b : α, (a == b) = true → (b == a) = true
  trans : ∀ a b c : α, (a == b) = true → (b == c) = true → (a == c) = true
  self_iff : ∀ a : α, (a == a) = true ↔ hasNaN a = false

/-- Symmetry and transitivity are those of the erased trees. -/
theorem comparedErased {α : Type} [BEq α] {hasNaN : α → Bool} {erased : α → α}
    (equal_iff : ∀ a b : α, (a == b) = true ↔
      hasNaN a = false ∧ hasNaN b = false ∧ erased a = erased b) :
    ComparedErased hasNaN erased where
  equal_iff := equal_iff
  symm a b equal := by
    obtain ⟨sound, sound', same⟩ := (equal_iff a b).mp equal
    exact (equal_iff b a).mpr ⟨sound', sound, same.symm⟩
  trans a b c equal equal' := by
    obtain ⟨sound, -, same⟩ := (equal_iff a b).mp equal
    obtain ⟨-, sound', same'⟩ := (equal_iff b c).mp equal'
    exact (equal_iff a c).mpr ⟨sound, sound', same.trans same'⟩
  self_iff a := by
    rw [equal_iff]
    exact ⟨fun equal => equal.1, fun sound => ⟨sound, sound, rfl⟩⟩

/-- Expressions, statements, clauses and files are equal exactly when no NaN stands in them outside
the values of arguments and they are the same tree with `None` for those values and `0.0` for
`-0.0`. Equality is symmetric and transitive, and reflexive where there is no such NaN. -/
theorem trees_equal_iff_erased :
    ComparedErased Expr.hasNaN Expr.erased ∧ ComparedErased Statement.hasNaN Statement.erased ∧
      ComparedErased Clause.hasNaN Clause.erased ∧ ComparedErased File.hasNaN File.erased :=
  ⟨comparedErased Expr.same_iff, comparedErased Statement.same_iff,
    comparedErased Clause.same_iff, comparedErased File.beq_iff⟩

/-- A call with a NaN in an argument is equal to itself and to the call with another value there; a
call on a NaN is not. -/
example :
    let nan := Expr.float ⟨0x7ff8000000000000⟩
    (Expr.call none "f" [⟨some "x", nan⟩] == .call none "f" [⟨some "x", .none⟩]) = true ∧
      (Expr.call (some nan) "f" [] == .call (some nan) "f" []) = false := by decide

end StarlarkCode
