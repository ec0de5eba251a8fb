import StarlarkCode.Proofs.Visiting
import StarlarkCode.Proofs.Reading.Reader

/-!
# Kinds do not show

The kinds that references and operations are declared to have say nothing about the text, and
neither does what the file is called. Two files that differ in these alone are formatted to the same
text, or fail with the same error (`Style.format_eq_of_untagged`).

Both files are compared with a third one, in which nothing is known about any kind. A layout is
chosen by the form of expressions, and taking the kinds away changes the form of none of them; so
every node is laid out as its untagged copy, at all positions and in all modes, and failures are
part of the layout.
-/

namespace StarlarkCode

open Layout

/-! ## What chooses a layout -/

namespace Expr

/-- Whether an expression is simple does not depend on kinds. -/
theorem isSimple_untagged (e : Expr) : e.untagged.isSimple = e.isSimple := by
  cases e <;> rfl

/-- Neither does whether it is compound. -/
theorem isCompound_untagged (e : Expr) : e.untagged.isCompound = e.isCompound := by
  cases e <;> rfl

/-- Kinds are no part of what construct an expression is. -/
theorem construct_untagged (e : Expr) : e.untagged.construct = e.construct := by
  cases e with
  | comprehension body clauses => exact congrArg Construct.comprehension body.kind_untagged
  | _ => rfl

end Expr

theorem Entry.isSimple_untagged (e : Entry) : e.untagged.isSimple = e.isSimple := by
  obtain ⟨key, value⟩ := e
  simp only [Entry.untagged, Entry.isSimple, Expr.isSimple_untagged]

/-- Whether a comprehension is broken up does not depend on kinds. -/
theorem Body.breaks_untagged (b : Body) : b.untagged.breaks = b.breaks := by
  cases b with
  | element value => exact value.isCompound_untagged
  | entry e =>
    obtain ⟨key, value⟩ := e
    exact value.isCompound_untagged

/-- Whether items fit on a line depends on their number and on which of them are simple. -/
theorem fitsBy_map {α : Type} {isSimple : α → Bool} {f : α → α}
    (same : ∀ x, isSimple (f x) = isSimple x) (items : List α) :
    fitsBy isSimple (items.map f) = fitsBy isSimple items := by
  simp only [fitsBy, List.length_map, List.all_map, Function.comp_def, same]

/-- Whether items fit on a line does not depend on kinds. -/
theorem itemsFit_untagged (items : List Expr) :
    itemsFit (Expr.untaggedAll items) = itemsFit items := by
  rw [Expr.untaggedAll_eq_map]
  exact fitsBy_map Expr.isSimple_untagged items

theorem entriesFit_untagged (entries : List Entry) :
    entriesFit (Entry.untaggedAll entries) = entriesFit entries := by
  rw [Entry.untaggedAll_eq_map]
  exact fitsBy_map Entry.isSimple_untagged entries

theorem argsFit_untagged (args : List Arg) : argsFit (Arg.untaggedAll args) = argsFit args := by
  rw [Arg.untaggedAll_eq_map]
  refine fitsBy_map (fun a => ?_) args
  obtain ⟨name, value⟩ := a
  exact value.isSimple_untagged

/-! ## Expressions -/

mutual

/-- An expression is laid out as the one without kinds. -/
theorem Expr.layout_untagged :
    ∀ (e : Expr) (p : Nat) (m : LineMode), e.untagged.layout p m = e.layout p m
  | .string _, _, _ | .integer _, _, _ | .float _, _, _ | .boolean _, _, _ | .none, _, _
  | .reference _, _, _ | .raw _, _, _ => rfl
  | .call receiver name args, p, m => by
    simp only [Expr.untagged, Expr.layout, Expr.receiverLayout_untagged receiver,
      argsFit_untagged, Arg.layouts_untagged args]
  | .binary kind left op right, p, m => by
    simp only [Expr.untagged, Expr.layout, Expr.layout_untagged left, Expr.layout_untagged right]
  | .comprehension body clauses, p, m => by
    have nothing : (Clause.untaggedAll clauses).isEmpty = clauses.isEmpty := by
      rw [Clause.untaggedAll_eq_map, List.isEmpty_map]
    simp only [Expr.untagged, Expr.layout, Body.kind_untagged, Body.breaks_untagged, nothing,
      Body.layout_untagged body, Clause.layouts_untagged clauses]
  | .slice receiver bounds, p, m => by
    simp only [Expr.untagged, Expr.layout, Expr.layout_untagged receiver]
  | .list items, p, m => by
    simp only [Expr.untagged, Expr.layout, itemsFit_untagged, Expr.layouts_untagged items]
  | .tuple items, p, m => by
    have many : (Expr.untaggedAll items).length = items.length := by
      rw [Expr.untaggedAll_eq_map, List.length_map]
    simp only [Expr.untagged, Expr.layout, itemsFit_untagged, many, Expr.layouts_untagged items]
  | .dictionary entries, p, m => by
    simp only [Expr.untagged, Expr.layout, entriesFit_untagged, Entry.layouts_untagged entries]

/-- A receiver is laid out as the one without kinds. -/
theorem Expr.receiverLayout_untagged :
    ∀ (receiver : Option Expr) (p : Nat),
      Expr.receiverLayout (Expr.untaggedReceiver receiver) p = Expr.receiverLayout receiver p
  | Option.none, _ => rfl
  | some receiver, p => by
    rw [Expr.untaggedReceiver, Expr.receiverLayout, Expr.layout_untagged receiver,
      Expr.receiverLayout]

theorem Expr.layouts_untagged :
    ∀ (es : List Expr) (p : Nat) (m : LineMode),
      Expr.layouts (Expr.untaggedAll es) p m = Expr.layouts es p m
  | [], _, _ => rfl
  | e :: es, p, m => by
    rw [Expr.untaggedAll, Expr.layouts, Expr.layout_untagged e, Expr.layouts_untagged es,
      Expr.layouts]

/-- An argument is laid out as the one without kinds. -/
theorem Arg.layout_untagged :
    ∀ (a : Arg) (p : Nat) (m : LineMode), a.untagged.layout p m = a.layout p m
  | ⟨name, value⟩, p, m => by
    rw [Arg.untagged, Arg.layout, Expr.layout_untagged value, Arg.layout]

theorem Arg.layouts_untagged :
    ∀ (as : List Arg) (p : Nat) (m : LineMode),
      Arg.layouts (Arg.untaggedAll as) p m = Arg.layouts as p m
  | [], _, _ => rfl
  | a :: as, p, m => by
    rw [Arg.untaggedAll, Arg.layouts, Arg.layout_untagged a, Arg.layouts_untagged as, Arg.layouts]

/-- An entry is laid out as the one without kinds. -/
theorem Entry.layout_untagged :
    ∀ (e : Entry) (p : Nat) (m : LineMode), e.untagged.layout p m = e.layout p m
  | ⟨key, value⟩, p, m => by
    rw [Entry.untagged, Entry.layout, Expr.layout_untagged key, Expr.layout_untagged value,
      Entry.layout]

theorem Entry.layouts_untagged :
    ∀ (es : List Entry) (p : Nat) (m : LineMode),
      Entry.layouts (Entry.untaggedAll es) p m = Entry.layouts es p m
  | [], _, _ => rfl
  | e :: es, p, m => by
    rw [Entry.untaggedAll, Entry.layouts, Entry.layout_untagged e, Entry.layouts_untagged es,
      Entry.layouts]

/-- A comprehension's body is laid out as the one without kinds. -/
theorem Body.layout_untagged :
    ∀ (b : Body) (p : Nat) (m : LineMode), b.untagged.layout p m = b.layout p m
  | .element value, p, m => Expr.layout_untagged value p m
  | .entry e, p, m => Entry.layout_untagged e p m

/-- A clause is laid out as the one without kinds. -/
theorem Clause.layout_untagged :
    ∀ (c : Clause) (p : Nat) (m : LineMode), c.untagged.layout p m = c.layout p m
  | .loop targets iterable, p, m => by
    have nothing : (Expr.untaggedAll targets).isEmpty = targets.isEmpty := by
      rw [Expr.untaggedAll_eq_map, List.isEmpty_map]
    simp only [Clause.untagged, Clause.layout, nothing, Expr.layouts_untagged targets,
      Expr.layout_untagged iterable]
  | .guard condition, p, m => by
    rw [Clause.untagged, Clause.layout, Expr.layout_untagged condition, Clause.layout]

theorem Clause.layouts_untagged :
    ∀ (cs : List Clause) (p : Nat) (m : LineMode),
      Clause.layouts (Clause.untaggedAll cs) p m = Clause.layouts cs p m
  | [], _, _ => rfl
  | c :: cs, p, m => by
    rw [Clause.untaggedAll, Clause.layouts, Clause.layout_untagged c, Clause.layouts_untagged cs,
      Clause.layouts]

end

/-! ## Statements and files -/

namespace Statement

/-- The statement with nothing known about the kinds of its references and operations. -/
def untagged : Statement → Statement
  | .expression value => .expression value.untagged
  | .assignment name value => .assignment name value.untagged
  | .load imported => .load imported
  | .raw s => .raw s
  | .emptyLine => .emptyLine
  | .comment s => .comment s

/-- A statement is laid out as the one without kinds. -/
theorem layout_untagged (s : Statement) (p : Nat) (m : LineMode) :
    s.untagged.layout p m = s.layout p m := by
  cases s with
  | expression value => rw [untagged, layout, value.layout_untagged, layout]
  | assignment name value => rw [untagged, layout, value.layout_untagged, layout]
  | _ => rfl

/-- The blank line between two statements is asked for by what they are; of two expressions also by
what the second is. -/
theorem wantsBlankLine_untagged (previous current : Statement) :
    previous.untagged.wantsBlankLine current.untagged = previous.wantsBlankLine current := by
  cases current with
  | expression value =>
    cases previous with
    | expression before => exact congrArg (· == Construct.call) value.construct_untagged
    | _ => rfl
  | _ => cases previous <;> rfl

/-- Statements below each other are laid out as those without kinds: where blank lines go does not
depend on kinds either. -/
theorem layoutAfter_untagged (p : Nat) (m : LineMode) (previous : Statement)
    (rest : List Statement) :
    layoutAfter p m previous.untagged (rest.map untagged) = layoutAfter p m previous rest := by
  induction rest generalizing previous with
  | nil => rfl
  | cons s rest ih =>
    rw [List.map_cons, layoutAfter, wantsBlankLine_untagged, layout_untagged, ih, layoutAfter]

end Statement

/-- The layout of a file depends on its statements without their kinds, and on nothing else. -/
theorem File.layout_eq_untagged (f : File) (p : Nat) (m : LineMode) :
    f.layout p m = (File.mk .build "" (f.statements.map Statement.untagged)).layout p m := by
  obtain ⟨kind, name, statements⟩ := f
  cases statements with
  | nil => rfl
  | cons s rest =>
    simp only [layout, List.map_cons, s.layout_untagged, Statement.layoutAfter_untagged]

namespace Style

/-- Files whose statements are the same up to the kinds of references and operations are formatted
alike, whatever the files are and are called: to the same text, or with the same error. -/
theorem format_eq_of_untagged (style : Style) (f g : File)
    (same : f.statements.map Statement.untagged = g.statements.map Statement.untagged) :
    style.format f = style.format g := by
  have layouts : (Node.file f).layout 0 .newLine = (Node.file g).layout 0 .newLine := by
    show f.layout 0 .newLine = g.layout 0 .newLine
    rw [f.layout_eq_untagged, g.layout_eq_untagged, same]
  simp only [format, Printer.printNode_eq, layouts]

/-- A file with references and operations of the given kind: as an operand, as a receiver, in the
value of an argument and in a comprehension. -/
def kindedFile (kind : FileKind) (name : String) (values : ValueKind) : File :=
  ⟨kind, name, [
    .assignment "A" (.binary values (.reference ⟨"B", values⟩) .plus (.list [.none])),
    .expression (.call (some (.reference ⟨"m", values⟩)) "f" [
      ⟨none, .reference ⟨"A", values⟩⟩,
      ⟨some "k", .comprehension
        (.element (.binary values (.string "%s") .percent (.reference ⟨"x", values⟩)))
        [.loop [.reference ⟨"x", values⟩] (.reference ⟨"A", values⟩)]⟩])]⟩

/-- Two files with different kinds throughout, formatted to the same text. -/
theorem format_kindedFile_eq :
    (kindedFile .build "BUILD" .string).statements.map Statement.untagged =
        (kindedFile .bzl "a.bzl" .number).statements.map Statement.untagged ∧
      format ⟨2⟩ (kindedFile .bzl "a.bzl" .number) =
        .ok ("A = B + [None]\n\n"
          ++ "m.f(\n  A,\n  k = [\n    \"%s\" % x\n    for x in A\n  ],\n)\n") ∧
      format ⟨2⟩ (kindedFile .build "BUILD" .string) =
        format ⟨2⟩ (kindedFile .bzl "a.bzl" .number) := by
  have same : (kindedFile .build "BUILD" .string).statements.map Statement.untagged =
      (kindedFile .bzl "a.bzl" .number).statements.map Statement.untagged := rfl
  exact ⟨same, rfl, format_eq_of_untagged ⟨2⟩ _ _ same⟩

end Style

end StarlarkCode
