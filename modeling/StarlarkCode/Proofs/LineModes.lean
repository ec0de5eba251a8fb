import StarlarkCode.Proofs.Faults
import StarlarkCode.Proofs.Rendering

/-!
# Line modes

What the line mode of a node decides. A node that starts a line is its indentation and then the node
as it continues a line, so the two modes give the same text up to spaces and the same error
(`Style.formatNode_newLine_eq`). Of an operation the left operand starts the line, and nothing else.

In single-line mode nothing is laid out. A node is refused before anything is written, under its own
construct and at its own position, and no node asks for this mode in its parts; so a refusal is
always about the node that was to be printed (`Printer.printNode_refuses_singleLine`).

A load without symbols is the exception. It is reported before its line mode is looked at, and so
without indentation where it starts a line, and as an empty load in single-line mode as well.
-/

namespace StarlarkCode

open Layout

/-! ## Nodes that start a line -/

/-- An expression that starts a line is its indentation, and then the expression as it continues a
line. Of an operation it is the left operand that starts the line. -/
theorem Expr.layout_newLine (e : Expr) (p : Nat) :
    e.layout p .newLine = indent p ++ e.layout p .continueLine := by
  match e with
  | .binary _ left op right =>
    have start := Expr.layout_newLine left p
    simp only [Expr.layout, refuseSingleLine, start, append_assoc, empty_append]
  | .string _ | .integer _ | .float _ | .boolean _ | .none | .reference _ | .call _ _ _
  | .comprehension _ _ | .slice _ _ | .list _ | .tuple _ | .dictionary _ | .raw _ =>
    simp only [Expr.layout, lead, append_assoc, empty_append]

/-- An argument on a new line is the continued one behind its indentation. -/
theorem Arg.layout_newLine (a : Arg) (p : Nat) :
    a.layout p .newLine = indent p ++ a.layout p .continueLine := by
  obtain ⟨name, value⟩ := a
  simp only [Arg.layout, lead, append_assoc, empty_append]

/-- An entry on a new line is the continued one behind its indentation. -/
theorem Entry.layout_newLine (e : Entry) (p : Nat) :
    e.layout p .newLine = indent p ++ e.layout p .continueLine := by
  obtain ⟨key, value⟩ := e
  simp only [Entry.layout, Expr.layout_newLine, append_assoc]

/-- A comprehension's body on a new line is the continued one behind its indentation. -/
theorem Body.layout_newLine (b : Body) (p : Nat) :
    b.layout p .newLine = indent p ++ b.layout p .continueLine := by
  cases b with
  | element value => exact value.layout_newLine p
  | entry e => exact e.layout_newLine p

/-- A clause on a new line is the continued one behind its indentation. -/
theorem Clause.layout_newLine (c : Clause) (p : Nat) :
    c.layout p .newLine = indent p ++ c.layout p .continueLine := by
  cases c with
  | loop => simp only [Clause.layout, lead, empty_append]
  | guard => simp only [Clause.layout, lead, append_assoc, empty_append]

/-- A symbol on a new line is the continued one behind its indentation. -/
theorem Symbol.layout_newLine (s : Symbol) (p : Nat) :
    s.layout p .newLine = indent p ++ s.layout p .continueLine := by
  simp only [Symbol.layout, lead, append_assoc, empty_append]

/-- A load that imports nothing is reported in every mode, with nothing in front. -/
theorem Load.layout_of_isEmpty {l : Load} (nothing : l.symbols.isEmpty = true) (p : Nat)
    (m : LineMode) : l.layout p m = fail (.emptyLoad l.file) := by
  rw [Load.layout, if_pos nothing]

/-- A load that imports something on a new line is the continued one behind its indentation. -/
theorem Load.layout_newLine {l : Load} (imports : l.symbols.isEmpty = false) (p : Nat) :
    l.layout p .newLine = indent p ++ l.layout p .continueLine := by
  simp only [Load.layout, imports, Bool.false_eq_true, if_false, lead, empty_append]

/-- Below statements, and for a load, starting a line adds the indentation, unless the node is
nothing but an error. -/
theorem Node.layout_newLine {n : Node}
    (kind : n.isStatement = false ∨ ∃ imported, n = .statement (.load imported)) (p : Nat) :
    n.layout p .newLine = indent p ++ n.layout p .continueLine ∨
      ∃ e, ∀ m, n.layout p m = fail e := by
  rcases kind with inner | ⟨imported, rfl⟩
  · left
    cases n with
    | file f => cases inner
    | statement s => cases inner
    | expression e => exact e.layout_newLine p
    | clause c => exact c.layout_newLine p
    | argument a => exact a.layout_newLine p
    | symbol s => exact s.layout_newLine p
  · cases imports : imported.symbols.isEmpty with
    | true => exact .inr ⟨_, imported.layout_of_isEmpty imports p⟩
    | false => exact .inl (imported.layout_newLine imports p)

namespace Style

/-- A node that starts a line fails where it fails as it continues a line, with the same error, and
otherwise has the same text behind its indentation. -/
theorem formatNode_newLine_eq (style : Style) (node : Node)
    (kind : node.isStatement = false ∨ ∃ imported, node = .statement (.load imported))
    (position : Nat) :
    style.formatNode node position .newLine =
      (style.formatNode node position .continueLine).map fun text =>
        spaces (style.indentWidth * position) ++ text := by
  have starts := node.layout_newLine kind position
  have same : (node.layout position .newLine).failure =
      (node.layout position .continueLine).failure := by
    rcases starts with starts | ⟨e, fails⟩
    · rw [starts, failure_append, failure_indent, Option.none_or]
    · rw [fails, fails]
  cases failure : (node.layout position .continueLine).failure with
  | some e =>
    rw [formatNode_eq_error_iff.mpr failure, formatNode_eq_error_iff.mpr (same.trans failure)]
    rfl
  | none =>
    rcases starts with starts | ⟨e, fails⟩
    · rw [style.formatNode_eq failure, style.formatNode_eq (same.trans failure), starts,
        chars_append (failure_indent position), chars_indent, String.ofList_append]
      rfl
    · rw [fails] at failure
      cases failure

/-- A sum whose first operand takes several lines, and of which the last is a block of text. -/
def brokenSum : Node :=
  .expression (.binary .list
    (.binary .list (.list [.string "x", .string "y"]) .plus (.reference ⟨"more", .list⟩))
    .plus (.call none "f" [⟨some "doc", .string "a\n\nb"⟩]))

/-- The first operand alone starts the line. -/
theorem formatNode_newLine_eq_brokenSum :
    brokenSum.isStatement = false ∧
      formatNode ⟨2⟩ brokenSum 1 .continueLine =
        .ok "[\n    \"x\",\n    \"y\",\n  ] + more + f(doc = \"\"\"\n  a\n\n  b\n  \"\"\")" ∧
      formatNode ⟨2⟩ brokenSum 1 .newLine =
        .ok "  [\n    \"x\",\n    \"y\",\n  ] + more + f(doc = \"\"\"\n  a\n\n  b\n  \"\"\")" := by
  have continues : formatNode ⟨2⟩ brokenSum 1 .continueLine =
      .ok "[\n    \"x\",\n    \"y\",\n  ] + more + f(doc = \"\"\"\n  a\n\n  b\n  \"\"\")" := rfl
  have starts := formatNode_newLine_eq ⟨2⟩ brokenSum (.inl rfl) 1
  rw [continues] at starts
  exact ⟨rfl, continues, starts⟩

end Style

/-! ## Single-line mode -/

/-- Nothing is laid out after a failure. -/
theorem Layout.fail_append (e : LayoutError) (l : Layout) : fail e ++ l = fail e := rfl

/-- A load that imports nothing. -/
def Node.isEmptyLoad : Node → Bool
  | .statement (.load imported) => imported.symbols.isEmpty
  | _ => false

/-- No expression is laid out on a single line. -/
theorem Expr.layout_singleLine (e : Expr) (p : Nat) :
    e.layout p .singleLine = fail (.unsupportedMode e.construct p) := by
  cases e <;> simp only [Expr.layout, lead, refuseSingleLine, fail_append, Expr.construct]

/-- No clause is laid out on a single line. -/
theorem Clause.layout_singleLine (c : Clause) (p : Nat) :
    c.layout p .singleLine = fail (.unsupportedMode c.construct p) := by
  cases c <;> simp only [Clause.layout, lead, fail_append, Clause.construct]

/-- No argument is laid out on a single line. -/
theorem Arg.layout_singleLine (a : Arg) (p : Nat) :
    a.layout p .singleLine = fail (.unsupportedMode .argument p) := by
  obtain ⟨name, value⟩ := a
  simp only [Arg.layout, lead, fail_append]

/-- No symbol is laid out on a single line. -/
theorem Symbol.layout_singleLine (s : Symbol) (p : Nat) :
    s.layout p .singleLine = fail (.unsupportedMode .symbol p) := by
  simp only [Symbol.layout, lead, fail_append]

/-- Of the statements only a load looks at anything else before the mode. -/
theorem Statement.layout_singleLine {s : Statement}
    (something : (Node.statement s).isEmptyLoad = false) (p : Nat) :
    s.layout p .singleLine = fail (.unsupportedMode s.construct p) := by
  cases s with
  | load imported =>
    have imports : imported.symbols.isEmpty = false := something
    simp only [Statement.layout, Load.layout, imports, Bool.false_eq_true, if_false, lead,
      fail_append, Statement.construct]
  | _ => simp only [Statement.layout, refuseSingleLine, fail_append, Statement.construct]

/-- No file is laid out on a single line. -/
theorem File.layout_singleLine (f : File) (p : Nat) :
    f.layout p .singleLine = fail (.unsupportedMode .file p) := by
  simp only [File.layout, refuseSingleLine, fail_append]

/-- In single-line mode the layout of a node is the refusal of that node, unless it is an empty
load. -/
theorem Node.layout_singleLine {n : Node} (something : n.isEmptyLoad = false) (p : Nat) :
    n.layout p .singleLine = fail (.unsupportedMode n.construct p) := by
  cases n with
  | file f => exact f.layout_singleLine p
  | statement s => exact Statement.layout_singleLine something p
  | expression e => exact e.layout_singleLine p
  | clause c => exact c.layout_singleLine p
  | argument a => exact a.layout_singleLine p
  | symbol s => exact s.layout_singleLine p

/-- A load of nothing fails in each line mode in the same way. -/
theorem Node.layout_of_isEmptyLoad {n : Node} (nothing : n.isEmptyLoad = true) (p : Nat) :
    ∃ label, ∀ m, n.layout p m = fail (.emptyLoad label) := by
  cases n with
  | statement s =>
    cases s with
    | load imported => exact ⟨imported.file, imported.layout_of_isEmpty nothing p⟩
    | _ => cases nothing
  | _ => cases nothing

/-- What is wrong with a node by itself is never its line mode. -/
theorem Node.fault?_ne_unsupportedMode (mode : LineMode) (position : Nat) (n : Node)
    (construct : Construct) (q : Nat) :
    n.fault? mode position ≠ some (.unsupportedMode construct q) := by
  intro refused
  unfold Node.fault? at refused
  split at refused
  · cases refused
  · cases refused
  · cases refused
  · split at refused <;> cases refused
  · cases refused

/-- In the other modes no layout stops at a refusal, because no node refuses its parts. -/
theorem Node.layout_failure_ne_unsupportedMode (n : Node) (position : Nat) {mode : LineMode}
    (multiline : mode ≠ .singleLine) (construct : Construct) (q : Nat) :
    (n.layout position mode).failure ≠ some (.unsupportedMode construct q) := by
  intro refused
  rw [n.layout_failure position multiline, Node.firstFault?, List.findSome?_eq_some_iff] at refused
  obtain ⟨-, first, -, -, fault, -⟩ := refused
  exact first.node.fault?_ne_unsupportedMode _ _ construct q fault

namespace Printer

variable {σ : Type} [TextSink σ]

/-- In single-line mode nothing is written, whatever node is to be printed. It is refused under its
own construct and at its own position; a refusal comes from nothing else, at any depth of a tree.
Only a load without symbols is not refused but reported as such, in this mode as in the others. -/
theorem printNode_refuses_singleLine (printer : Printer σ) (node : Node) (position : Nat) :
    (printer.printNode node position .singleLine).1 = printer ∧
      (∀ mode construct q,
        (printer.printNode node position mode).2 = some (.unsupportedMode construct q) ↔
          mode = .singleLine ∧ node.isEmptyLoad = false ∧ construct = node.construct ∧
            q = position) ∧
      ∀ mode label, printer.printNode (.statement (.load ⟨label, []⟩)) position mode =
        (printer, some (.emptyLoad label)) := by
  refine ⟨?_, fun mode construct q => ⟨fun refused => ?_, ?_⟩, fun mode label => rfl⟩
  · cases loads : node.isEmptyLoad with
    | true =>
      obtain ⟨label, fails⟩ := Node.layout_of_isEmptyLoad loads position
      rw [printNode_eq, fails]
      rfl
    | false =>
      rw [printNode_eq, Node.layout_singleLine loads]
      rfl
  · have failure : (node.layout position mode).failure = some (.unsupportedMode construct q) := by
      rwa [printNode_eq] at refused
    by_cases single : mode = .singleLine
    · subst single
      cases loads : node.isEmptyLoad with
      | true =>
        obtain ⟨label, fails⟩ := Node.layout_of_isEmptyLoad loads position
        rw [fails] at failure
        cases failure
      | false =>
        rw [Node.layout_singleLine loads] at failure
        cases failure
        exact ⟨rfl, rfl, rfl, rfl⟩
    · exact absurd failure (node.layout_failure_ne_unsupportedMode position single construct q)
  · rintro ⟨rfl, loads, rfl, rfl⟩
    rw [printNode_eq, Node.layout_singleLine loads]
    rfl

/-- An empty load in single-line mode: what is reported is that it is empty. -/
theorem printNode_emptyLoad_singleLine :
    ((Style.printer {} "").printNode (.statement (.load ⟨"//:defs.bzl", []⟩)) 3 .singleLine).2 =
        some (.emptyLoad "//:defs.bzl") ∧
      ((Style.printer {} "").printNode (.statement (.load ⟨"//:defs.bzl", []⟩)) 3 .singleLine).2 ≠
        some (.unsupportedMode (Node.statement (.load ⟨"//:defs.bzl", []⟩)).construct 3) := by
  refine ⟨rfl, ?_⟩
  intro refused
  cases refused

end Printer

end StarlarkCode
