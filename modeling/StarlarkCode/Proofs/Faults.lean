import StarlarkCode.Proofs.Parts
import StarlarkCode.Proofs.Visiting

/-!
# Which error is reported

A node is at fault by itself: a comprehension without clauses, a loop without variables, a load
without symbols, and an assignment that has to continue a line. Formatting fails exactly when some
node of the tree is at fault, and reports the first of them in pre-order, at the position that its
depth below the root gives.

Layouts keep the first error of their parts, so the failure of a layout is a search through the
failures of its parts (`Layout.failure_append` and its companions). `Node.layout_failure` compares
that search with the one through the tree.
-/

namespace StarlarkCode

/-! ## Line modes in which nodes are laid out -/

namespace LineMode

theorem newLine_ne : newLine ≠ singleLine := by decide

theorem continueLine_ne : continueLine ≠ singleLine := by decide

/-- The two modes in which nodes are laid out are not the third. -/
theorem ne_singleLine {mode : LineMode} (multiline : mode = .newLine ∨ mode = .continueLine) :
    mode ≠ .singleLine := by
  rcases multiline with rfl | rfl
  · exact newLine_ne
  · exact continueLine_ne

end LineMode

/-! ## The failure of a layout -/

namespace Layout

@[simp] theorem failure_empty : empty.failure = none := rfl

@[simp] theorem failure_text (s : String) : (text s).failure = none := rfl

@[simp] theorem failure_newline : newline.failure = none := rfl

@[simp] theorem failure_space : space.failure = none := rfl

@[simp] theorem failure_indent (level : Nat) : (indent level).failure = none := rfl

@[simp] theorem failure_fail (e : LayoutError) : (fail e).failure = some e := rfl

/-- Of two layouts in a row the first failure counts. -/
@[simp] theorem failure_append (a b : Layout) : (a ++ b).failure = a.failure.or b.failure := by
  obtain ⟨pieces, failure⟩ := a
  cases failure <;> rfl

/-- Of layouts in a row the first failure counts. -/
theorem failure_concat (parts : List Layout) :
    (concat parts).failure = parts.findSome? Layout.failure := by
  induction parts with
  | nil => rfl
  | cons part parts ih =>
    rw [concat, List.foldr_cons, failure_append, ← concat, ih, List.findSome?_cons]
    cases part.failure <;> rfl

/-- A separator that does not fail does not change which failure is the first. -/
theorem failure_separated {separator : Layout} (sound : separator.failure = none)
    (parts : List Layout) :
    (separated separator parts).failure = parts.findSome? Layout.failure := by
  fun_induction separated separator parts with
  | case1 => rfl
  | case2 part => cases h : part.failure <;> simp [h]
  | case3 part parts _ ih =>
    rw [failure_append, failure_append, sound, ih, List.findSome?_cons]
    cases part.failure <;> rfl

/-- Items on one line fail as the first of them that does. -/
theorem failure_commaSeparated (items : List Layout) :
    (commaSeparated items).failure = items.findSome? Layout.failure :=
  failure_separated (failure_text ", ") items

/-- Items are laid out at this position and in this mode, whether they stay on a line or not. -/
theorem failure_arranged (fits : Bool) (position : Nat) (items : Nat → LineMode → List Layout) :
    (arranged fits position items).failure =
      (items (position + levels !fits)
        (if fits then .continueLine else .newLine)).findSome? Layout.failure := by
  cases fits with
  | true => exact failure_commaSeparated (items position .continueLine)
  | false =>
    simp only [arranged, stacked, failure_append, failure_newline, failure_indent, failure_concat,
      List.findSome?_map, Bool.false_eq_true, ↓reduceIte, Option.none_or, Option.or_none,
      Bool.not_false, levels]
    congr 1
    funext item
    simp

/-- Brackets add nothing to what can fail. -/
theorem failure_bracketed (opening closing : String) (fits : Bool) (position : Nat)
    (items : Nat → LineMode → List Layout) :
    (bracketed opening closing fits position items).failure =
      (items (position + levels !fits)
        (if fits then .continueLine else .newLine)).findSome? Layout.failure := by
  simp [bracketed, failure_arranged]

/-- Nor do the parentheses of a tuple and its comma. -/
theorem failure_tupled (count : Nat) (fits : Bool) (position : Nat)
    (items : Nat → LineMode → List Layout) :
    (tupled count fits position items).failure =
      (items (position + levels !fits)
        (if fits then .continueLine else .newLine)).findSome? Layout.failure := by
  rw [tupled]
  split <;> simp [failure_arranged]

/-- An operator is always laid out. -/
@[simp] theorem failure_operator (op : BinaryOp) : (operator op).failure = none := rfl

/-- The bounds of a slice are always laid out. -/
@[simp] theorem failure_bounds (b : Bounds) : (bounds b).failure = none := by
  obtain ⟨start, stop, step⟩ := b
  cases start <;> cases stop <;> cases step <;> rfl

/-- A node can start in both modes in which nodes are laid out. -/
theorem failure_lead (construct : Construct) (position : Nat) {mode : LineMode}
    (multiline : mode ≠ .singleLine) : (lead construct position mode).failure = none := by
  cases mode with
  | singleLine => exact absurd rfl multiline
  | _ => rfl

theorem failure_refuseSingleLine (construct : Construct) (position : Nat) {mode : LineMode}
    (multiline : mode ≠ .singleLine) :
    (refuseSingleLine construct position mode).failure = none := by
  cases mode with
  | singleLine => exact absurd rfl multiline
  | _ => rfl

/-- A line of a text block never fails. -/
theorem failure_blockLine (position : Nat) (line : String) :
    (blockLine position line).failure = none := by
  rw [blockLine]
  split <;> rfl

theorem failure_commentLine (position : Nat) (line : String) :
    (commentLine position line).failure = none := by
  rw [commentLine]
  split <;> rfl

/-- A string literal never fails. -/
theorem failure_quoted (position : Nat) (value : String) :
    (quoted position value).failure = none := by
  rw [quoted]
  split
  · rfl
  · simp [failure_concat, failure_blockLine]

theorem failure_argumentName (name : Option String) : (argumentName name).failure = none := by
  cases name with
  | none => rfl
  | some name =>
    rw [argumentName]
    split <;> rfl

end Layout

/-! ## Faults -/

/-- What is wrong with a node by itself, at a position and when the tree is laid out in a line mode.
-/
def Node.fault? (mode : LineMode) (position : Nat) : Node → Option LayoutError
  | .expression (.comprehension body []) => some (.emptyComprehension body.kind position)
  | .clause (.loop [] _) => some (.missingLoopVariables position)
  | .statement (.load ⟨label, []⟩) => some (.emptyLoad label)
  | .statement (.assignment _ _) =>
    if mode = .continueLine then some (.misplacedStatement .assignment mode position) else none
  | _ => none

/-- The first fault of a tree in pre-order. -/
def Node.firstFault? (mode : LineMode) (position : Nat) (n : Node) : Option LayoutError :=
  n.preorder.findSome? fun placed => placed.node.fault? mode (position + placed.depth)

/-- A fault names the construct that is at fault. -/
theorem Node.construct_of_fault? {mode : LineMode} {position : Nat} {n : Node} {e : LayoutError}
    (h : n.fault? mode position = some e) : e.construct = n.construct := by
  unfold Node.fault? at h
  split at h
  · cases h
    rfl
  · cases h
    rfl
  · cases h
    rfl
  · split at h
    · cases h
      rfl
    · cases h
  · cases h

/-- Searching a list is trying its head and then its tail. -/
private theorem findSome?_cons_eq_or {α β : Type} (f : α → Option β) (x : α) (xs : List α) :
    (x :: xs).findSome? f = (f x).or (xs.findSome? f) := by
  rw [List.findSome?_cons]
  cases f x <;> rfl

/-- Searching lists in a row is searching one after the other. -/
private theorem findSome?_flatMap {α β γ : Type} (f : β → Option γ) (g : α → List β) (xs : List α) :
    (xs.flatMap g).findSome? f = xs.findSome? fun x => (g x).findSome? f := by
  induction xs with
  | nil => rfl
  | cons x xs ih =>
    rw [List.flatMap_cons, List.findSome?_append, ih, findSome?_cons_eq_or]

/-- Searches that agree on every element find the same. -/
private theorem findSome?_congr {α β : Type} {f g : α → Option β} {xs : List α}
    (h : ∀ x ∈ xs, f x = g x) : xs.findSome? f = xs.findSome? g := by
  induction xs with
  | nil => rfl
  | cons x xs ih =>
    have rest := ih fun y mem => h y (List.mem_cons_of_mem x mem)
    rw [findSome?_cons_eq_or, findSome?_cons_eq_or, rest, h x List.mem_cons_self]

/-- The first fault is that of the root, or else the first of the parts in order. -/
theorem Node.firstFault?_eq (mode : LineMode) (position : Nat) (n : Node) :
    n.firstFault? mode position =
      (n.fault? mode position).or
        (n.parts.findSome? fun part => part.node.firstFault? mode (position + part.depth)) := by
  have inner : (n.parts.flatMap fun part => part.node.preorder.map (·.below part.depth)).findSome?
        (fun placed => placed.node.fault? mode (position + placed.depth)) =
      n.parts.findSome? fun part => part.node.firstFault? mode (position + part.depth) := by
    rw [findSome?_flatMap]
    congr 1
    funext part
    rw [List.findSome?_map, Node.firstFault?]
    congr 1
    funext placed
    simp only [Function.comp, Placed.below, Nat.add_assoc]
  rw [Node.firstFault?, Node.preorder_eq, findSome?_cons_eq_or, inner, Nat.add_zero]

/-- The first fault of a tree whose root has none. -/
theorem Node.firstFault?_of_sound {mode : LineMode} {position : Nat} {n : Node}
    (sound : n.fault? mode position = none) :
    n.firstFault? mode position =
      n.parts.findSome? fun part => part.node.firstFault? mode (position + part.depth) := by
  rw [Node.firstFault?_eq, sound, Option.none_or]

/-- At every position and in every mode but the one that is refused, the layout of a node stops at
the node's first fault. -/
def Node.StopsAtFirst (mode : LineMode) (n : Node) : Prop :=
  ∀ position m, m ≠ .singleLine →
    (n.layout position m).failure = n.firstFault? mode position

section

variable {mode : LineMode}

open Layout LineMode

/-- The items of a bracket are in one of the two modes in which nodes are laid out. -/
private theorem itemMode_ne (fits : Bool) :
    (if fits then LineMode.continueLine else .newLine) ≠ .singleLine := by
  cases fits with
  | true => exact continueLine_ne
  | false => exact newLine_ne

/-- Expressions in a row fail as the first of them that is at fault. -/
private theorem failure_layouts {xs : List Expr} {depth : Nat}
    (stops : ∀ x ∈ xs, (Node.expression x).StopsAtFirst mode) (position : Nat) {m : LineMode}
    (multiline : m ≠ .singleLine) :
    (Expr.layouts xs (position + depth) m).findSome? Layout.failure =
      (xs.map (Placed.expression depth)).findSome?
        fun part => part.node.firstFault? mode (position + part.depth) := by
  rw [Expr.layouts_eq_map, List.findSome?_map, List.findSome?_map]
  exact findSome?_congr fun x mem => stops x mem (position + depth) m multiline

/-- An entry fails as its key or else its value. -/
private theorem failure_entry {e : Entry} {depth : Nat}
    (stops : ∀ x ∈ e.parts, (Node.expression x).StopsAtFirst mode) (position : Nat) {m : LineMode}
    (multiline : m ≠ .singleLine) :
    (e.layout (position + depth) m).failure =
      (e.parts.map (Placed.expression depth)).findSome?
        fun part => part.node.firstFault? mode (position + part.depth) := by
  obtain ⟨key, value⟩ := e
  have atKey := stops key (by simp [Entry.parts]) (position + depth) m multiline
  have atValue := stops value (by simp [Entry.parts]) (position + depth) _ continueLine_ne
  rw [Node.layout] at atKey atValue
  rw [Entry.layout, failure_append, failure_append, failure_text, Option.or_none, atKey, atValue,
    Entry.parts, List.map_cons, List.map_singleton, findSome?_cons_eq_or, List.findSome?_singleton]
  rfl

/-- A comprehension's body fails as the first of its expressions that is at fault. -/
private theorem failure_body {b : Body} {depth : Nat}
    (stops : ∀ x ∈ b.parts, (Node.expression x).StopsAtFirst mode) (position : Nat) {m : LineMode}
    (multiline : m ≠ .singleLine) :
    (b.layout (position + depth) m).failure =
      (b.parts.map (Placed.expression depth)).findSome?
        fun part => part.node.firstFault? mode (position + part.depth) := by
  cases b with
  | element value =>
    have atValue := stops value (by simp [Body.parts]) (position + depth) m multiline
    rw [Node.layout] at atValue
    rw [Body.layout, atValue, Body.parts, List.map_singleton, List.findSome?_singleton]
    rfl
  | entry e => exact failure_entry stops position multiline

/-- Clauses in a row, each behind a separator, fail as the first of them that is at fault. -/
private theorem failure_clauses {cs : List Clause} {depth : Nat}
    (stops : ∀ c ∈ cs, (Node.clause c).StopsAtFirst mode) (position : Nat) {m : LineMode}
    (multiline : m ≠ .singleLine) {separator : Layout} (sound : separator.failure = none) :
    (concat ((Clause.layouts cs (position + depth) m).map (separator ++ ·))).failure =
      (cs.map fun c => (⟨depth, .clause c⟩ : Placed)).findSome?
        fun part => part.node.firstFault? mode (position + part.depth) := by
  rw [failure_concat, Clause.layouts_eq_map, List.map_map, List.findSome?_map, List.findSome?_map]
  refine findSome?_congr fun c mem => ?_
  have atClause := stops c mem (position + depth) m multiline
  rw [Node.layout] at atClause
  simpa [sound] using atClause

/-- Arguments in a row fail as the first of them that is at fault. -/
private theorem failure_args {args : List Arg} {depth : Nat}
    (stops : ∀ a ∈ args, (Node.argument a).StopsAtFirst mode) (position : Nat) {m : LineMode}
    (multiline : m ≠ .singleLine) :
    (Arg.layouts args (position + depth) m).findSome? Layout.failure =
      (args.map fun a => (⟨depth, .argument a⟩ : Placed)).findSome?
        fun part => part.node.firstFault? mode (position + part.depth) := by
  rw [Arg.layouts_eq_map, List.findSome?_map, List.findSome?_map]
  exact findSome?_congr fun a mem => stops a mem (position + depth) m multiline

/-- A receiver with its point fails as the receiver. -/
private theorem failure_receiver {receiver : Option Expr}
    (stops : ∀ x ∈ receiver.toList, (Node.expression x).StopsAtFirst mode) (position : Nat) :
    (Expr.receiverLayout receiver position).failure =
      (receiver.toList.map (Placed.expression 0)).findSome?
        fun part => part.node.firstFault? mode (position + part.depth) := by
  cases receiver with
  | none => rfl
  | some receiver =>
    have atReceiver := stops receiver List.mem_cons_self position _ continueLine_ne
    rw [Expr.receiverLayout, failure_append, failure_text, Option.or_none, Option.toList_some,
      List.map_singleton, List.findSome?_singleton]
    exact atReceiver

/-- A comprehension looks for its clauses first; its body and clauses are one level deeper when it
is broken up. -/
private theorem stopsAtFirst_comprehension {body : Body} {clauses : List Clause}
    (atBody : ∀ x ∈ body.parts, (Node.expression x).StopsAtFirst mode)
    (atClauses : ∀ c ∈ clauses, (Node.clause c).StopsAtFirst mode) :
    (Node.expression (.comprehension body clauses)).StopsAtFirst mode := by
  intro p m multiline
  rw [Node.layout, Expr.layout, failure_append, failure_lead _ _ multiline, Option.none_or]
  -- Without clauses the comprehension is at fault itself, and its body is never looked at.
  cases clauses with
  | nil =>
    rw [Node.firstFault?_eq]
    rfl
  | cons clause clauses =>
    rw [Node.firstFault?_of_sound rfl, Node.parts, Expr.parts, List.findSome?_append,
      List.isEmpty_cons]
    cases body.breaks with
    | true =>
      rw [← failure_body atBody p newLine_ne,
        ← failure_clauses atClauses p newLine_ne failure_newline]
      simp [levels]
    | false =>
      rw [← failure_body atBody p continueLine_ne,
        ← failure_clauses atClauses p continueLine_ne failure_space]
      simp [levels]

/-- An expression stops at its own fault or else at the first fault in its parts. -/
theorem Expr.stopsAtFirst {e : Expr} (parts : ∀ part ∈ e.parts, part.node.StopsAtFirst mode) :
    (Node.expression e).StopsAtFirst mode := by
  intro p m multiline
  cases e with
  | call receiver name args =>
    have atReceiver := fun x mem =>
      parts _ (List.mem_append_left _ (List.mem_map_of_mem (a := x) mem))
    have atArgs := fun a mem =>
      parts _ (List.mem_append_right _ (List.mem_map_of_mem (a := a) mem))
    rw [Node.firstFault?_of_sound rfl, Node.layout, Expr.layout, failure_append, failure_append,
      failure_append, failure_lead _ _ multiline, failure_text, failure_bracketed, Option.none_or,
      Option.or_none, failure_receiver atReceiver, failure_args atArgs p (itemMode_ne _),
      Node.parts, Expr.parts, List.findSome?_append]
  | binary kind left op right =>
    have atLeft := parts _ List.mem_cons_self p m multiline
    have atRight := parts _ (List.mem_cons_of_mem _ List.mem_cons_self) p _ continueLine_ne
    simp only [Placed.expression, Node.layout] at atLeft atRight
    rw [Node.firstFault?_of_sound rfl, Node.layout, Expr.layout, failure_append, failure_append,
      failure_append, failure_refuseSingleLine _ _ multiline, failure_operator, Option.none_or,
      Option.or_none, atLeft, atRight, Node.parts, Expr.parts, findSome?_cons_eq_or,
      List.findSome?_singleton]
    rfl
  | comprehension body clauses =>
    have atBody := fun x mem =>
      parts _ (List.mem_append_left _ (List.mem_map_of_mem (a := x) mem))
    have atClauses := fun c mem =>
      parts _ (List.mem_append_right _ (List.mem_map_of_mem (a := c) mem))
    exact stopsAtFirst_comprehension atBody atClauses p m multiline
  | slice receiver bounds =>
    have atReceiver := parts _ List.mem_cons_self p _ continueLine_ne
    rw [Node.firstFault?_of_sound rfl, Node.layout, Expr.layout, failure_append, failure_append,
      failure_lead _ _ multiline, failure_bounds, Option.none_or, Option.or_none, Node.parts,
      Expr.parts, List.findSome?_singleton]
    exact atReceiver
  | list items =>
    have atItems := fun x mem => parts _ (List.mem_map_of_mem (a := x) mem)
    rw [Node.firstFault?_of_sound rfl, Node.layout, Expr.layout, failure_append,
      failure_lead _ _ multiline, failure_bracketed, Option.none_or]
    exact failure_layouts atItems p (itemMode_ne _)
  | tuple items =>
    have atItems := fun x mem => parts _ (List.mem_map_of_mem (a := x) mem)
    rw [Node.firstFault?_of_sound rfl, Node.layout, Expr.layout, failure_append,
      failure_lead _ _ multiline, failure_tupled, Option.none_or]
    exact failure_layouts atItems p (itemMode_ne _)
  | dictionary entries =>
    rw [Node.firstFault?_of_sound rfl, Node.layout, Expr.layout, failure_append,
      failure_lead _ _ multiline, failure_bracketed, Option.none_or, Entry.layouts_eq_map,
      List.findSome?_map, Node.parts, Expr.parts, List.map_flatMap, findSome?_flatMap]
    refine findSome?_congr fun e mem => failure_entry (fun x memEntry => ?_) p (itemMode_ne _)
    exact parts _ (List.mem_map_of_mem (List.mem_flatMap.mpr ⟨e, mem, memEntry⟩))
  | string value =>
    rw [Node.firstFault?_of_sound rfl, Node.layout, Expr.layout, failure_append,
      failure_lead _ _ multiline, failure_quoted]
    rfl
  | _ =>
    rw [Node.firstFault?_of_sound rfl, Node.layout, Expr.layout, failure_append,
      failure_lead _ _ multiline]
    rfl

/-- A clause stops at its own fault or else at the first fault in its parts. -/
theorem Clause.stopsAtFirst {c : Clause} (parts : ∀ part ∈ c.parts, part.node.StopsAtFirst mode) :
    (Node.clause c).StopsAtFirst mode := by
  intro p m multiline
  cases c with
  | loop targets iterable =>
    have atTargets := fun x mem =>
      parts _ (List.mem_append_left _ (List.mem_map_of_mem (a := x) mem))
    have atIterable := parts _ (List.mem_append_right _ List.mem_cons_self) p _ continueLine_ne
    simp only [Placed.expression, Node.layout] at atIterable
    rw [Node.layout, Clause.layout, failure_append, failure_lead _ _ multiline, Option.none_or]
    cases targets with
    | nil =>
      rw [Node.firstFault?_eq]
      rfl
    | cons target targets =>
      rw [Node.firstFault?_of_sound rfl, List.isEmpty_cons, Node.parts, Clause.parts,
        List.findSome?_append, ← failure_layouts atTargets p continueLine_ne]
      simp [failure_commaSeparated, atIterable, Placed.expression]
  | guard condition =>
    have atCondition := parts _ List.mem_cons_self p _ continueLine_ne
    rw [Node.firstFault?_of_sound rfl, Node.layout, Clause.layout, failure_append, failure_append,
      failure_lead _ _ multiline, failure_text, Option.none_or, Option.none_or, Node.parts,
      Clause.parts, List.findSome?_singleton]
    exact atCondition

/-- An argument is never at fault itself and stops where its value does. -/
theorem Arg.stopsAtFirst {a : Arg} (atValue : (Node.expression a.value).StopsAtFirst mode) :
    (Node.argument a).StopsAtFirst mode := by
  intro p m multiline
  obtain ⟨name, value⟩ := a
  rw [Node.firstFault?_of_sound rfl, Node.layout, Arg.layout, failure_append, failure_append,
    failure_lead _ _ multiline, failure_argumentName, Option.none_or, Option.none_or, Node.parts,
    List.findSome?_singleton]
  exact atValue p _ continueLine_ne

/-- A symbol never stops. -/
theorem Symbol.stopsAtFirst (s : Symbol) : (Node.symbol s).StopsAtFirst mode := by
  intro p m multiline
  obtain ⟨name, localName⟩ := s
  rw [Node.firstFault?_of_sound rfl, Node.layout, Symbol.layout, failure_append, failure_append,
    failure_lead _ _ multiline, failure_quoted]
  cases localName <;> rfl

end

/-- Nodes below statements stop at their first fault, whatever the line mode of the whole tree. -/
theorem Node.stopsAtFirst (mode : LineMode) (n : Node) :
    n.isStatement = false → n.StopsAtFirst mode := by
  induction n using Node.induction with
  | step n ih =>
    intro inner
    -- Only assignments look at the mode of the whole tree, and they are parts of files alone.
    have parts : ∀ part ∈ n.parts, part.node.StopsAtFirst mode := by
      intro part mem
      refine ih part mem (Node.isStatement_of_mem_parts mem ?_)
      rintro f rfl
      cases inner
    cases n with
    | file f => cases inner
    | statement s => cases inner
    | expression e => exact Expr.stopsAtFirst parts
    | clause c => exact Clause.stopsAtFirst parts
    | argument a => exact Arg.stopsAtFirst (parts _ List.mem_cons_self)
    | symbol s => exact Symbol.stopsAtFirst s

section

variable {mode : LineMode}

open Layout LineMode

/-- A load fails when it imports nothing, and only then. -/
theorem Load.layout_failure (l : Load) (p : Nat) (multiline : mode ≠ .singleLine) :
    (l.layout p mode).failure = (Node.statement (.load l)).firstFault? mode p := by
  obtain ⟨label, symbols⟩ := l
  cases symbols with
  | nil =>
    rw [Node.firstFault?_eq]
    rfl
  | cons symbol symbols =>
    have noFault : ∀ (s : Symbol) q, (Node.symbol s).firstFault? mode q = none := by
      intro s q
      rw [Node.firstFault?_of_sound rfl]
      rfl
    have noFailure : ∀ (s : Symbol) q m, m ≠ .singleLine → (s.layout q m).failure = none :=
      fun s q m multiline => (Symbol.stopsAtFirst s q m multiline).trans (noFault s q)
    have sound : (Load.layout ⟨label, symbol :: symbols⟩ p mode).failure = none := by
      rw [Load.layout, List.isEmpty_cons, if_neg Bool.false_ne_true, failure_append,
        failure_lead _ _ multiline, failure_bracketed, Option.none_or, findSome?_cons_eq_or,
        failure_append, failure_lead _ _ (itemMode_ne _), failure_quoted, List.findSome?_map]
      exact List.findSome?_eq_none_iff.mpr fun s _ => noFailure s _ _ (itemMode_ne _)
    rw [sound, Node.firstFault?_of_sound rfl, Node.parts, Statement.parts, List.findSome?_map]
    exact (List.findSome?_eq_none_iff.mpr fun s _ => noFault s _).symm

/-- A statement fails as the first node of its tree that is at fault. -/
theorem Statement.layout_failure (s : Statement) (p : Nat) (multiline : mode ≠ .singleLine) :
    (s.layout p mode).failure = (Node.statement s).firstFault? mode p := by
  cases s with
  | expression value =>
    have atValue := Node.stopsAtFirst mode (.expression value) rfl p mode multiline
    rw [Node.firstFault?_of_sound rfl, Statement.layout, failure_append,
      failure_refuseSingleLine _ _ multiline, Option.none_or, Node.parts, Statement.parts,
      List.findSome?_singleton]
    exact atValue
  | assignment name value =>
    have atValue := Node.stopsAtFirst mode (.expression value) rfl p _ continueLine_ne
    rw [Node.layout] at atValue
    rw [Node.firstFault?_eq, Statement.layout, Node.parts, Statement.parts,
      List.findSome?_singleton]
    cases mode with
    | newLine => simp [atValue, refuseSingleLine, Node.fault?, Placed.expression]
    | continueLine => rfl
    | singleLine => exact absurd rfl multiline
  | load imported => exact imported.layout_failure p multiline
  | raw s =>
    rw [Node.firstFault?_of_sound rfl, Statement.layout, failure_append,
      failure_refuseSingleLine _ _ multiline, failure_separated failure_newline]
    simp [failure_blockLine, Node.parts, Statement.parts]
  | emptyLine =>
    rw [Node.firstFault?_of_sound rfl, Statement.layout, failure_refuseSingleLine _ _ multiline]
    rfl
  | comment s =>
    rw [Node.firstFault?_of_sound rfl, Statement.layout, failure_append,
      failure_refuseSingleLine _ _ multiline, failure_separated failure_newline]
    simp [failure_commentLine, Node.parts, Statement.parts]

/-- The statements of a file fail as the first of them that does. -/
theorem Statement.layoutAfter_failure (p : Nat) (previous : Statement) (rest : List Statement) :
    (Statement.layoutAfter p mode previous rest).failure =
      rest.findSome? fun s => (s.layout p mode).failure := by
  induction rest generalizing previous with
  | nil => rfl
  | cons s rest ih =>
    have blank : (if previous.wantsBlankLine s then newline else empty).failure = none := by
      split <;> rfl
    rw [Statement.layoutAfter, failure_append, failure_append, failure_append, failure_newline,
      blank, ih, Option.none_or, Option.none_or, findSome?_cons_eq_or]

end

/-- The layout of a node stops at the first fault of its tree. -/
theorem Node.layout_failure (n : Node) (position : Nat) {mode : LineMode}
    (multiline : mode ≠ .singleLine) :
    (n.layout position mode).failure = n.firstFault? mode position := by
  cases n with
  | file f =>
    have search : (f.layout position mode).failure =
        f.statements.findSome? fun s => (s.layout position mode).failure := by
      obtain ⟨kind, name, statements⟩ := f
      rw [File.layout, Layout.failure_append, Layout.failure_refuseSingleLine _ _ multiline,
        Option.none_or]
      cases statements with
      | nil => rfl
      | cons s rest =>
        rw [findSome?_cons_eq_or, ← Statement.layoutAfter_failure position s rest]
        exact Layout.failure_append _ _
    rw [Node.firstFault?_of_sound rfl, Node.layout, search, Node.parts, List.findSome?_map]
    exact findSome?_congr fun s _ => s.layout_failure position multiline
  | statement s => exact s.layout_failure position multiline
  | expression e => exact Node.stopsAtFirst mode (.expression e) rfl position mode multiline
  | clause c => exact Node.stopsAtFirst mode (.clause c) rfl position mode multiline
  | argument a => exact Node.stopsAtFirst mode (.argument a) rfl position mode multiline
  | symbol s => exact Node.stopsAtFirst mode (.symbol s) rfl position mode multiline

/-- A layout has no failure exactly when no node of the tree is at fault. -/
theorem Node.layout_sound_iff (n : Node) (position : Nat) {mode : LineMode}
    (multiline : mode ≠ .singleLine) :
    (n.layout position mode).failure = none ↔
      ∀ placed ∈ n.preorder, placed.node.fault? mode (position + placed.depth) = none := by
  rw [n.layout_failure position multiline]
  exact List.findSome?_eq_none_iff

/-! ## What formatting reports -/

namespace Style

/-- Formatting reports the failure of the layout. -/
theorem formatNode_eq_error_iff {style : Style} {node : Node} {position : Nat} {mode : LineMode}
    {e : LayoutError} :
    style.formatNode node position mode = .error e ↔
      (node.layout position mode).failure = some e := by
  rw [formatNode, Printer.printNode_eq]
  cases (node.layout position mode).failure <;> simp

/-- Formatting succeeds when the layout has no failure. -/
theorem formatNode_succeeds_iff {style : Style} {node : Node} {position : Nat} {mode : LineMode} :
    (∃ s, style.formatNode node position mode = .ok s) ↔
      (node.layout position mode).failure = none := by
  rw [formatNode, Printer.printNode_eq]
  cases (node.layout position mode).failure <;> simp

/-- Formatting a node succeeds exactly when no node of its tree is at fault. Otherwise it reports
the fault of the first such node in pre-order: the error names that node's construct, and its
position is the one asked for and one more for each stacked layout on the way to the node. -/
theorem formatNode_reports_first_fault (style : Style) (node : Node) (position : Nat)
    (mode : LineMode) (multiline : mode = .newLine ∨ mode = .continueLine) :
    ((∃ s, style.formatNode node position mode = .ok s) ↔
        ∀ placed ∈ node.preorder, placed.node.fault? mode (position + placed.depth) = none) ∧
      ∀ e, style.formatNode node position mode = .error e ↔
        ∃ before first after, node.preorder = before ++ first :: after ∧
          (∀ placed ∈ before, placed.node.fault? mode (position + placed.depth) = none) ∧
          first.node.fault? mode (position + first.depth) = some e ∧
          e.construct = first.node.construct := by
  have multiline := LineMode.ne_singleLine multiline
  refine ⟨?_, fun e => ?_⟩
  · rw [formatNode_succeeds_iff]
    exact node.layout_sound_iff position multiline
  · rw [formatNode_eq_error_iff, node.layout_failure position multiline, Node.firstFault?,
      List.findSome?_eq_some_iff]
    constructor
    · rintro ⟨before, first, after, split, fault, sound⟩
      exact ⟨before, first, after, split, sound, fault, Node.construct_of_fault? fault⟩
    · rintro ⟨before, first, after, split, sound, fault, -⟩
      exact ⟨before, first, after, split, fault, sound⟩

/-- A list that does not fit on a line, with a loop without variables in one item and a
comprehension without clauses in the next. -/
def twoFaults : Node :=
  .expression (.list [
    .comprehension (.element (.integer 1)) [.loop [] .none],
    .comprehension (.element .none) []])

/-- Of the two faults the loop is reported, one level below the list. -/
theorem formatNode_reports_loop_of_twoFaults :
    (LineMode.continueLine = .newLine ∨ LineMode.continueLine = .continueLine) ∧
      formatNode {} twoFaults 2 .continueLine = .error (.missingLoopVariables 3) ∧
      ∃ before first after, twoFaults.preorder = before ++ first :: after ∧
        (∀ placed ∈ before, placed.node.fault? .continueLine (2 + placed.depth) = none) ∧
        first.node.fault? .continueLine (2 + first.depth) = some (.missingLoopVariables 3) ∧
        (LayoutError.missingLoopVariables 3).construct = first.node.construct :=
  ⟨.inr rfl, rfl, ((formatNode_reports_first_fault {} _ _ _ (.inr rfl)).2 _).mp rfl⟩

end Style

end StarlarkCode
