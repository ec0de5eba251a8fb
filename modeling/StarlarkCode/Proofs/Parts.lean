import StarlarkCode.Layout.Node
import StarlarkCode.Node.Visits

/-!
# The parts of a node

Every tree is a node with parts, and here the parts are listed for all kinds of nodes at once: in
the order in which they are laid out, each with the number of levels by which its layout is deeper
than that of the node. `Node.preorder` lists the nodes of a whole tree from this, a node before its
parts, each with the levels on the way to it.

The entries of a dictionary and the body of a comprehension are no nodes; their expressions are
parts of what holds them.

`Node.induction` is the induction on trees that goes with it: what holds of a node whenever it
holds of its parts holds of every node. Properties of layouts are proved by it, one case per
construct, without a hypothesis for each kind of list of nodes. `Node.visits`, which walks over
trees by itself, meets the same nodes in the same order (`Node.map_construct_visits`).
-/

namespace StarlarkCode

/-- A node of a tree and the number of levels from the root down to it. -/
structure Placed where
  depth : Nat
  node : Node

namespace Placed

/-- The same node seen from further up. -/
def below (levels : Nat) (placed : Placed) : Placed :=
  ⟨levels + placed.depth, placed.node⟩

/-- An expression at a depth. -/
def expression (depth : Nat) (e : Expr) : Placed :=
  ⟨depth, .expression e⟩

@[simp] theorem node_expression (depth : Nat) (e : Expr) :
    (expression depth e).node = .expression e := rfl

end Placed

/-- The levels from a bracket down to its items: one where they are stacked, none where they stay on
the line of the bracket. -/
def levels (stacked : Bool) : Nat :=
  if stacked then 1 else 0

/-! ## Parts -/

/-- The expressions of an entry. -/
def Entry.parts (e : Entry) : List Expr :=
  [e.key, e.value]

/-- The expressions of a comprehension's body. -/
def Body.parts : Body → List Expr
  | .element value => [value]
  | .entry e => e.parts

/-- The parts of an expression. -/
def Expr.parts : Expr → List Placed
  | .string _ | .integer _ | .float _ | .boolean _ | .none | .reference _ | .raw _ => []
  | .call receiver _ args =>
    receiver.toList.map (.expression 0) ++ args.map (⟨levels !argsFit args, .argument ·⟩)
  | .binary _ left _ right => [.expression 0 left, .expression 0 right]
  | .comprehension body clauses =>
    body.parts.map (.expression (levels body.breaks))
      ++ clauses.map (⟨levels body.breaks, .clause ·⟩)
  | .slice receiver _ => [.expression 0 receiver]
  | .list items => items.map (.expression (levels !itemsFit items))
  | .tuple items => items.map (.expression (levels !itemsFit items))
  | .dictionary entries =>
    (entries.flatMap Entry.parts).map (.expression (levels !entriesFit entries))

/-- The parts of a clause. -/
def Clause.parts : Clause → List Placed
  | .loop targets iterable => targets.map (.expression 0) ++ [.expression 0 iterable]
  | .guard condition => [.expression 0 condition]

/-- The parts of a statement. -/
def Statement.parts : Statement → List Placed
  | .expression value => [.expression 0 value]
  | .assignment _ value => [.expression 0 value]
  | .load imported =>
    imported.symbols.map (⟨levels (imported.symbols.length ≠ 1), .symbol ·⟩)
  | .raw _ | .emptyLine | .comment _ => []

/-- The parts of a node. -/
def Node.parts : Node → List Placed
  | .file f => f.statements.map (⟨0, .statement ·⟩)
  | .statement s => s.parts
  | .expression e => e.parts
  | .clause c => c.parts
  | .argument a => [.expression 0 a.value]
  | .symbol _ => []

/-! ## Parts are smaller -/

/-- A node made of a member of a list is smaller than what the list is part of. -/
theorem Placed.sizeOf_lt_of_mem_map {α : Type} [SizeOf α] {xs : List α} {place : α → Placed}
    {part : Placed} (small : ∀ x, sizeOf (place x).node ≤ 1 + sizeOf x)
    (h : part ∈ xs.map place) : sizeOf part.node < 1 + sizeOf xs := by
  obtain ⟨x, mem, rfl⟩ := List.mem_map.mp h
  have bound := small x
  have smaller := List.sizeOf_lt_of_mem mem
  omega

/-- The expressions of an entry are smaller than the entry. -/
theorem Entry.sizeOf_lt_of_mem_parts {e : Entry} {x : Expr} (h : x ∈ e.parts) :
    sizeOf x < sizeOf e := by
  obtain ⟨key, value⟩ := e
  simp only [Entry.parts, List.mem_cons, List.not_mem_nil, or_false] at h
  rcases h with rfl | rfl <;> simp only [Entry.mk.sizeOf_spec] <;> omega

/-- The expressions of a body are smaller than the body. -/
theorem Body.sizeOf_lt_of_mem_parts {b : Body} {x : Expr} (h : x ∈ b.parts) :
    sizeOf x < sizeOf b := by
  cases b with
  | element value =>
    rw [Body.parts, List.mem_singleton] at h
    rw [h, Body.element.sizeOf_spec]
    omega
  | entry e =>
    have smaller := Entry.sizeOf_lt_of_mem_parts h
    rw [Body.entry.sizeOf_spec]
    omega

/-- The parts of an expression are smaller than the expression. -/
theorem Expr.sizeOf_lt_of_mem_parts {e : Expr} {part : Placed} (h : part ∈ e.parts) :
    sizeOf part.node < sizeOf (Node.expression e) := by
  rw [Node.expression.sizeOf_spec]
  cases e with
  | call receiver name args =>
    rw [Expr.call.sizeOf_spec]
    rcases List.mem_append.mp h with h | h
    · cases receiver with
      | none => cases h
      | some receiver =>
        rw [Option.toList_some, List.map_singleton, List.mem_singleton] at h
        rw [h, Placed.node_expression, Node.expression.sizeOf_spec, Option.some.sizeOf_spec]
        omega
    · have smaller := Placed.sizeOf_lt_of_mem_map (by simp) h
      omega
  | binary kind left op right =>
    simp only [Expr.parts, List.mem_cons, List.not_mem_nil, or_false] at h
    rw [Expr.binary.sizeOf_spec]
    rcases h with rfl | rfl <;> rw [Placed.node_expression, Node.expression.sizeOf_spec] <;> omega
  | comprehension body clauses =>
    rw [Expr.comprehension.sizeOf_spec]
    rcases List.mem_append.mp h with h | h
    · obtain ⟨x, mem, rfl⟩ := List.mem_map.mp h
      have smaller := Body.sizeOf_lt_of_mem_parts mem
      rw [Placed.node_expression, Node.expression.sizeOf_spec]
      omega
    · have smaller := Placed.sizeOf_lt_of_mem_map (by simp) h
      omega
  | slice receiver bounds =>
    rw [Expr.parts, List.mem_singleton] at h
    rw [h, Placed.node_expression, Node.expression.sizeOf_spec, Expr.slice.sizeOf_spec]
    omega
  | list items =>
    have smaller := Placed.sizeOf_lt_of_mem_map (by simp) h
    rw [Expr.list.sizeOf_spec]
    omega
  | tuple items =>
    have smaller := Placed.sizeOf_lt_of_mem_map (by simp) h
    rw [Expr.tuple.sizeOf_spec]
    omega
  | dictionary entries =>
    obtain ⟨x, mem, rfl⟩ := List.mem_map.mp h
    obtain ⟨e, memEntry, mem⟩ := List.mem_flatMap.mp mem
    have smallerEntry := List.sizeOf_lt_of_mem memEntry
    have smaller := Entry.sizeOf_lt_of_mem_parts mem
    rw [Placed.node_expression, Node.expression.sizeOf_spec, Expr.dictionary.sizeOf_spec]
    omega
  | _ => cases h

/-- The parts of a clause are smaller than the clause. -/
theorem Clause.sizeOf_lt_of_mem_parts {c : Clause} {part : Placed} (h : part ∈ c.parts) :
    sizeOf part.node < sizeOf (Node.clause c) := by
  rw [Node.clause.sizeOf_spec]
  cases c with
  | loop targets iterable =>
    rw [Clause.loop.sizeOf_spec]
    rcases List.mem_append.mp h with h | h
    · have smaller := Placed.sizeOf_lt_of_mem_map (by simp) h
      omega
    · rw [List.mem_singleton] at h
      rw [h, Placed.node_expression, Node.expression.sizeOf_spec]
      omega
  | guard condition =>
    rw [Clause.parts, List.mem_singleton] at h
    rw [h, Placed.node_expression, Node.expression.sizeOf_spec, Clause.guard.sizeOf_spec]
    omega

/-- The parts of a statement are smaller than the statement. -/
theorem Statement.sizeOf_lt_of_mem_parts {s : Statement} {part : Placed} (h : part ∈ s.parts) :
    sizeOf part.node < sizeOf (Node.statement s) := by
  rw [Node.statement.sizeOf_spec]
  cases s with
  | expression value =>
    rw [Statement.parts, List.mem_singleton] at h
    rw [h, Placed.node_expression, Node.expression.sizeOf_spec, Statement.expression.sizeOf_spec]
    omega
  | assignment name value =>
    rw [Statement.parts, List.mem_singleton] at h
    rw [h, Placed.node_expression, Node.expression.sizeOf_spec, Statement.assignment.sizeOf_spec]
    omega
  | load imported =>
    obtain ⟨label, symbols⟩ := imported
    have smaller : sizeOf part.node < 1 + sizeOf symbols :=
      Placed.sizeOf_lt_of_mem_map (by simp) h
    rw [Statement.load.sizeOf_spec, Load.mk.sizeOf_spec]
    omega
  | _ => cases h

/-- Parts are smaller than the whole, so that induction over parts ends. -/
theorem Node.sizeOf_lt_of_mem_parts {n : Node} {part : Placed} (h : part ∈ n.parts) :
    sizeOf part.node < sizeOf n := by
  cases n with
  | file f =>
    obtain ⟨kind, name, statements⟩ := f
    have smaller : sizeOf part.node < 1 + sizeOf statements :=
      Placed.sizeOf_lt_of_mem_map (by simp) h
    rw [Node.file.sizeOf_spec, File.mk.sizeOf_spec]
    omega
  | statement s => exact Statement.sizeOf_lt_of_mem_parts h
  | expression e => exact Expr.sizeOf_lt_of_mem_parts h
  | clause c => exact Clause.sizeOf_lt_of_mem_parts h
  | argument a =>
    obtain ⟨name, value⟩ := a
    have same : part = .expression 0 value := List.mem_singleton.mp h
    rw [same, Placed.node_expression, Node.expression.sizeOf_spec, Node.argument.sizeOf_spec,
      Arg.mk.sizeOf_spec]
    omega
  | symbol s => cases h

/-! ## Trees -/

/-- The nodes of a tree in pre-order: the node itself, and then the trees of its parts in order. -/
def Node.preorder (n : Node) : List Placed :=
  ⟨0, n⟩ :: n.parts.attach.flatMap fun ⟨part, _⟩ => part.node.preorder.map (·.below part.depth)
termination_by sizeOf n
decreasing_by exact Node.sizeOf_lt_of_mem_parts ‹_›

/-- The nodes of a tree are the node itself and then those of its parts, each below its depth. -/
theorem Node.preorder_eq (n : Node) :
    n.preorder =
      ⟨0, n⟩ :: n.parts.flatMap fun part => part.node.preorder.map (·.below part.depth) := by
  rw [Node.preorder]
  simp only [List.flatMap_subtype, List.unattach_attach]

/-- What holds of all nodes of a tree holds of its root and of all nodes of the parts. -/
theorem Node.forall_mem_preorder {P : Node → Prop} {n : Node} :
    (∀ placed ∈ n.preorder, P placed.node) ↔
      P n ∧ ∀ part ∈ n.parts, ∀ placed ∈ part.node.preorder, P placed.node := by
  rw [Node.preorder_eq, List.forall_mem_cons]
  refine and_congr_right fun _ => ⟨fun all part mem placed memPart => ?_, fun all placed mem => ?_⟩
  · exact all (placed.below part.depth)
      (List.mem_flatMap.mpr ⟨part, mem, List.mem_map_of_mem memPart⟩)
  · obtain ⟨part, memParts, mem⟩ := List.mem_flatMap.mp mem
    obtain ⟨inner, memPart, rfl⟩ := List.mem_map.mp mem
    exact all part memParts inner memPart

/-- Induction on trees: a node may assume what it has to show of its parts. -/
theorem Node.induction {motive : Node → Prop}
    (step : ∀ n, (∀ part ∈ n.parts, motive part.node) → motive n) (n : Node) : motive n :=
  step n fun part _ => Node.induction step part.node
termination_by sizeOf n
decreasing_by exact Node.sizeOf_lt_of_mem_parts ‹_›

/-! ## Walks -/

theorem Expr.visitsAll_eq (es : List Expr) (p : Nat) :
    Expr.visitsAll es p = es.flatMap (·.visits p .continueLine) := by
  induction es with
  | nil => rfl
  | cons e es ih => rw [Expr.visitsAll, ih, List.flatMap_cons]

theorem Arg.visitsAll_eq (as : List Arg) (p : Nat) :
    Arg.visitsAll as p = as.flatMap (·.visits p .continueLine) := by
  induction as with
  | nil => rfl
  | cons a as ih => rw [Arg.visitsAll, ih, List.flatMap_cons]

/-- Entries are visited through their keys and values, all at one position. -/
theorem Entry.visitsAll_eq (es : List Entry) (p : Nat) :
    Entry.visitsAll es p = (es.flatMap Entry.parts).flatMap (·.visits p .continueLine) := by
  induction es with
  | nil => rfl
  | cons e es ih =>
    obtain ⟨key, value⟩ := e
    simp [Entry.visitsAll, Entry.visits, Entry.parts, ih]

theorem Clause.visitsAll_eq (cs : List Clause) (p : Nat) :
    Clause.visitsAll cs p = cs.flatMap (·.visits p .continueLine) := by
  induction cs with
  | nil => rfl
  | cons c cs ih => rw [Clause.visitsAll, ih, List.flatMap_cons]

/-- A body is visited through its expressions. -/
theorem Body.visits_eq (b : Body) (p : Nat) :
    b.visits p = b.parts.flatMap (·.visits p .continueLine) := by
  cases b with
  | element value => simp [Body.visits, Body.parts]
  | entry e =>
    obtain ⟨key, value⟩ := e
    simp [Body.visits, Entry.visits, Body.parts, Entry.parts]

/-- A walk visits the node and then walks over its parts, one position deeper. -/
theorem Node.visits_eq (n : Node) (p : Nat) (m : LineMode) :
    n.visits p m = ⟨n.construct, p, m⟩ ::
      n.parts.flatMap fun part => part.node.visits (p + 1) .continueLine := by
  cases n with
  | file f => simp [Node.visits, Node.parts, Node.construct, List.flatMap_map]
  | statement s =>
    cases s with
    | load imported =>
      have symbols : imported.symbols.map (fun _ => Visit.mk .symbol (p + 1) .continueLine) =
          imported.symbols.flatMap fun _ => [⟨.symbol, p + 1, .continueLine⟩] :=
        List.map_eq_flatMap
      simp [Node.visits, Statement.visits, Node.parts, Statement.parts, Node.construct,
        List.flatMap_map, symbols]
    | _ => simp [Node.visits, Statement.visits, Node.parts, Statement.parts, Node.construct]
  | expression e =>
    cases e with
    | call receiver name args =>
      cases receiver <;>
        simp [Node.visits, Expr.visits, Expr.receiverVisits, Arg.visitsAll_eq, Node.parts,
          Expr.parts, Node.construct, Expr.construct, List.flatMap_map]
    | _ =>
      simp [Node.visits, Expr.visits, Expr.visitsAll_eq, Entry.visitsAll_eq, Clause.visitsAll_eq,
        Body.visits_eq, Node.parts, Expr.parts, Node.construct, Expr.construct, List.flatMap_map]
  | clause c =>
    cases c <;>
      simp [Node.visits, Clause.visits, Expr.visitsAll_eq, Node.parts, Clause.parts,
        Node.construct, Clause.construct, List.flatMap_map]
  | argument a =>
    obtain ⟨name, value⟩ := a
    simp [Node.visits, Arg.visits, Node.parts, Node.construct]
  | symbol s => rfl

/-- A walk meets the nodes of the tree in pre-order. -/
theorem Node.map_construct_visits (n : Node) (p : Nat) (m : LineMode) :
    (n.visits p m).map (·.construct) = n.preorder.map (·.node.construct) := by
  induction n using Node.induction generalizing p m with
  | step n ih =>
    rw [Node.visits_eq, Node.preorder_eq, List.map_cons, List.map_cons, List.map_flatMap,
      List.map_flatMap]
    refine congrArg (_ :: List.flatten ·) (List.map_congr_left fun part mem => ?_)
    rw [ih part mem, List.map_map]
    rfl

/-! ## Texts -/

/-- The names and texts that stand in an expression itself, outside its parts. -/
def Expr.texts : Expr → List String
  | .string value => [value]
  | .reference target => [target.name]
  | .call _ name _ => [name]
  | .raw s => [s]
  | _ => []

/-- The names and texts that stand in a statement itself. -/
def Statement.texts : Statement → List String
  | .assignment name _ => [name]
  | .load imported => [imported.file]
  | .raw s => [s]
  | .comment s => [s]
  | .expression _ | .emptyLine => []

/-- The names and texts that stand in a node itself. -/
def Node.texts : Node → List String
  | .file f => [f.name]
  | .statement s => s.texts
  | .expression e => e.texts
  | .clause _ => []
  | .argument a => a.name.toList
  | .symbol s => s.name :: s.localName.toList

/-! ## Statements -/

/-- A file or a statement. -/
def Node.isStatement : Node → Bool
  | .file _ | .statement _ => true
  | .expression _ | .clause _ | .argument _ | .symbol _ => false

private theorem isStatement_of_mem_map {α : Type} {xs : List α} {place : α → Placed}
    {part : Placed} (inner : ∀ x, (place x).node.isStatement = false) (h : part ∈ xs.map place) :
    part.node.isStatement = false := by
  obtain ⟨x, -, rfl⟩ := List.mem_map.mp h
  exact inner x

/-- Only files have statements as parts. -/
theorem Node.isStatement_of_mem_parts {n : Node} {part : Placed} (h : part ∈ n.parts)
    (inner : ∀ f, n ≠ .file f) : part.node.isStatement = false := by
  have ofExpressions {depth : Nat} {xs : List Expr} (h : part ∈ xs.map (Placed.expression depth)) :
      part.node.isStatement = false :=
    isStatement_of_mem_map (fun _ => rfl) h
  cases n with
  | file f => exact absurd rfl (inner f)
  | statement s =>
    cases s with
    | expression value => exact @ofExpressions _ [value] h
    | assignment name value => exact @ofExpressions _ [value] h
    | load imported => exact isStatement_of_mem_map (fun _ => rfl) h
    | _ => cases h
  | expression e =>
    cases e with
    | call receiver name args =>
      rcases List.mem_append.mp h with h | h
      · exact ofExpressions h
      · exact isStatement_of_mem_map (fun _ => rfl) h
    | binary kind left op right => exact @ofExpressions _ [left, right] h
    | comprehension body clauses =>
      rcases List.mem_append.mp h with h | h
      · exact ofExpressions h
      · exact isStatement_of_mem_map (fun _ => rfl) h
    | slice receiver bounds => exact @ofExpressions _ [receiver] h
    | list items => exact ofExpressions h
    | tuple items => exact ofExpressions h
    | dictionary entries => exact ofExpressions h
    | _ => cases h
  | clause c =>
    cases c with
    | loop targets iterable =>
      rcases List.mem_append.mp h with h | h
      · exact ofExpressions h
      · exact @ofExpressions _ [iterable] h
    | guard condition => exact @ofExpressions _ [condition] h
  | argument a => exact @ofExpressions _ [a.value] h
  | symbol s => cases h

end StarlarkCode
