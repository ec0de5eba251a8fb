import StarlarkCode.Format
import StarlarkCode.Layout.Node

/-!
# Visits and layouts

A visit of a node changes the printer step by step: it fills the table of indentation texts, adds to
the sink, hands both from one part to the next, and may stop in the middle of a list of parts. The
layout of the node says all this at once and without a printer. Here the two are shown to agree, for
every sink, whether or not it is lawful: the visit writes the pieces of the layout one after the
other and stops at its error (`Node.print_eq`).

`PrintM.ofLayout` writes a finished layout. That it takes `++` to one after the other
(`PrintM.ofLayout_append`) is the reason why a layout drops all that stands behind an error.
-/

namespace StarlarkCode

/-! ## Writing a layout -/

namespace PrintM

variable {σ : Type}

@[simp] theorem onlyIf_true (work : PrintM σ Unit) : onlyIf true work = work := rfl

@[simp] theorem onlyIf_false (work : PrintM σ Unit) : onlyIf false work = pure () := rfl

variable [TextSink σ]

/-- Writes a layout: its pieces in order, and then its error, if any. -/
def ofLayout (l : Layout) : PrintM σ Unit := do
  l.pieces.forM emit
  match l.failure with
  | some e => throw e
  | none => pure ()

@[simp] theorem ofLayout_empty : (ofLayout .empty : PrintM σ Unit) = pure () := rfl

@[simp] theorem ofLayout_text (s : String) : (ofLayout (.text s) : PrintM σ Unit) = text s := rfl

@[simp] theorem ofLayout_newline : (ofLayout .newline : PrintM σ Unit) = newline := rfl

@[simp] theorem ofLayout_space : (ofLayout .space : PrintM σ Unit) = space := rfl

@[simp] theorem ofLayout_indent (level : Nat) :
    (ofLayout (.indent level) : PrintM σ Unit) = indent level := rfl

@[simp] theorem ofLayout_fail (e : LayoutError) :
    (ofLayout (.fail e) : PrintM σ Unit) = throw e := rfl

/-- One layout after the other. After an error nothing is written. -/
@[simp] theorem ofLayout_append (a b : Layout) :
    (ofLayout (a ++ b) : PrintM σ Unit) = (do ofLayout a; ofLayout b) := by
  obtain ⟨pieces, failure⟩ := a
  cases failure with
  | some e =>
    -- The layout has dropped `b`, and the work does not get to it.
    show (do pieces.forM emit; throw e) = (do (do pieces.forM emit; throw e); ofLayout b)
    rw [bind_assoc]
    rfl
  | none =>
    show (do (pieces ++ b.pieces).forM emit; _) = (do (do pieces.forM emit; pure ()); ofLayout b)
    rw [List.forM_eq_forM, List.forM_append, bind_assoc, bind_assoc]
    rfl

/-! ## Combinations -/

/-- A part that is laid out only in some cases is printed only in those. -/
theorem ofLayout_onlyIf (condition : Bool) (l : Layout) :
    (ofLayout (if condition then l else .empty) : PrintM σ Unit) =
      onlyIf condition (ofLayout l) := by
  cases condition <;> rfl

/-- A loop writes the layouts of its rounds one after the other. -/
theorem ofLayout_concat {α : Type} {xs : List α} {work : α → PrintM σ Unit} {layout : α → Layout}
    (round : ∀ x, ofLayout (layout x) = work x) :
    ofLayout (.concat (xs.map layout)) = xs.forM work := by
  induction xs with
  | nil => rfl
  | cons x xs ih =>
    show ofLayout (layout x ++ .concat (xs.map layout)) = (do work x; xs.forM work)
    rw [ofLayout_append, round, ih]

/-- Parts with a separator between each two are printed in a row. -/
theorem ofLayout_separated (separator : Layout) (items : List Layout) :
    (ofLayout (.separated separator items) : PrintM σ Unit) =
      separated (ofLayout separator) (items.map ofLayout) := by
  fun_induction Layout.separated separator items with
  | case1 => rfl
  | case2 item => rfl
  | case3 item items more ih =>
    cases items with
    | nil => exact absurd rfl more
    | cons next items =>
      rw [ofLayout_append, ofLayout_append, ih, bind_assoc]
      rfl

/-- Parts on lines of their own are printed line by line. -/
theorem ofLayout_stacked (position : Nat) (items : List Layout) :
    (ofLayout (.stacked position items) : PrintM σ Unit) =
      stacked position (items.map ofLayout) := by
  have lines : (ofLayout (.concat (items.map (· ++ .text "," ++ .newline))) : PrintM σ Unit) =
      ((items.map ofLayout).forM fun item => do item; text ","; newline) := by
    rw [List.forM_eq_forM, List.forM_map]
    refine ofLayout_concat fun item => ?_
    rw [ofLayout_append, ofLayout_append, bind_assoc]
    rfl
  rw [Layout.stacked, ofLayout_append, ofLayout_append, lines, bind_assoc]
  rfl

/-- Parts are printed on one line if they fit, and stacked otherwise. -/
theorem ofLayout_arranged (fits : Bool) (position : Nat)
    (items : Nat → LineMode → List Layout) :
    (ofLayout (.arranged fits position items) : PrintM σ Unit) =
      arranged fits position fun q n => (items q n).map ofLayout := by
  cases fits with
  | true => exact ofLayout_separated _ _
  | false => exact ofLayout_stacked position _

/-- Parts are printed between their brackets. -/
theorem ofLayout_bracketed (opening closing : String) (fits : Bool) (position : Nat)
    (items : Nat → LineMode → List Layout) :
    (ofLayout (.bracketed opening closing fits position items) : PrintM σ Unit) =
      bracketed opening closing fits position fun q n => (items q n).map ofLayout := by
  rw [Layout.bracketed, ofLayout_append, ofLayout_append, ofLayout_arranged, bind_assoc]
  rfl

/-- Single-line mode is refused with the same error. -/
@[simp] theorem ofLayout_refuseSingleLine (construct : Construct) (position : Nat)
    (mode : LineMode) :
    (ofLayout (.refuseSingleLine construct position mode) : PrintM σ Unit) =
      refuseSingleLine construct position mode := by
  cases mode <;> rfl

/-- A node is started as its layout is. -/
@[simp] theorem ofLayout_lead (construct : Construct) (position : Nat) (mode : LineMode) :
    (ofLayout (.lead construct position mode) : PrintM σ Unit) =
      lead construct position mode := by
  cases mode <;> rfl

/-- A line of a text block is printed as it is laid out. -/
@[simp] theorem ofLayout_blockLine (position : Nat) (line : String) :
    (ofLayout (.blockLine position line) : PrintM σ Unit) = blockLine position line := by
  rw [Layout.blockLine, blockLine]
  split
  · rfl
  · exact ofLayout_append _ _

/-- A string literal is printed as it is laid out, with a loop over the lines of a block. -/
@[simp] theorem ofLayout_quoted (position : Nat) (value : String) :
    (ofLayout (.quoted position value) : PrintM σ Unit) = quoted position value := by
  have block (lines : List String) :
      (ofLayout (.concat (lines.map fun line => .blockLine position line ++ .newline)) :
        PrintM σ Unit) = (lines.forM fun line => do blockLine position line; newline) :=
    ofLayout_concat fun line => by simp
  unfold Layout.quoted quoted
  rcases Text.lines value with _ | ⟨line, _ | ⟨next, lines⟩⟩ <;>
    simp only [ofLayout_append, ofLayout_text, ofLayout_newline, ofLayout_indent, block, bind_assoc]

/-- The name of an argument is printed as it is laid out. -/
@[simp] theorem ofLayout_argumentName (name : Option String) :
    (ofLayout (.argumentName name) : PrintM σ Unit) = argumentName name := by
  cases name with
  | none => rfl
  | some name =>
    rw [Layout.argumentName, argumentName]
    split
    · rfl
    · exact ofLayout_append _ _

@[simp] theorem ofLayout_bound (b : Option Int64) :
    (ofLayout (.bound b) : PrintM σ Unit) = bound b := by
  cases b <;> rfl

/-- The bounds of a slice are printed as they are laid out. -/
@[simp] theorem ofLayout_bounds (b : Bounds) :
    (ofLayout (.bounds b) : PrintM σ Unit) = bounds b := by
  obtain ⟨start, stop, step⟩ := b
  cases step with
  | none => simp [Layout.bounds, bounds]
  | some n => simp [Layout.bounds, bounds]

end PrintM

/-! ## Expressions -/

open PrintM

section

variable {σ : Type} [TextSink σ]

mutual

/-- The visit of an expression writes its layout. -/
theorem Expr.print_eq : (e : Expr) → (p : Nat) → (m : LineMode) →
    (e.print p m : PrintM σ Unit) = ofLayout (e.layout p m)
  | .string value, p, m => by simp [Expr.print, Expr.layout]
  | .integer value, p, m => by simp [Expr.print, Expr.layout]
  | .float value, p, m => by simp [Expr.print, Expr.layout]
  | .boolean value, p, m => by simp [Expr.print, Expr.layout]
  | .none, p, m => by simp [Expr.print, Expr.layout]
  | .reference target, p, m => by simp [Expr.print, Expr.layout]
  | .call receiver name args, p, m => by
    simp [Expr.print, Expr.layout, ofLayout_bracketed, Expr.printReceiver_eq receiver,
      Arg.prints_eq args]
  | .binary kind left op right, p, m => by
    simp [Expr.print, Expr.layout, Layout.operator, Expr.print_eq left, Expr.print_eq right]
  | .comprehension body clauses, p, m => by
    -- The clauses are visited in a loop, with a space or a line break in front of each.
    have rounds (separator : Layout) (q : Nat) (n : LineMode) :
        (ofLayout (.concat ((Clause.layouts clauses q n).map (separator ++ ·))) : PrintM σ Unit) =
          ((Clause.prints clauses q n).forM fun clause => do ofLayout separator; clause) := by
      rw [Clause.prints_eq clauses, List.forM_eq_forM, List.forM_map]
      exact ofLayout_concat fun clause => ofLayout_append separator clause
    rw [Expr.print, Expr.layout, ofLayout_append, ofLayout_lead]
    split
    next => rfl
    next =>
      split
      next => simp [rounds, Body.print_eq body]
      next => simp [rounds, Body.print_eq body]
  | .slice receiver bounds, p, m => by
    simp [Expr.print, Expr.layout, Expr.print_eq receiver]
  | .list items, p, m => by
    simp [Expr.print, Expr.layout, ofLayout_bracketed, Expr.prints_eq items]
  | .tuple items, p, m => by
    have comma : (ofLayout (if items.length = 1 then .text "," else .empty) : PrintM σ Unit) =
        onlyIf (items.length == 1) (text ",") := by
      rw [← ofLayout_text, ← ofLayout_onlyIf]
      simp only [beq_iff_eq]
    simp [Expr.print, Expr.layout, Layout.tupled, ofLayout_arranged, Expr.prints_eq items, comma]
  | .dictionary entries, p, m => by
    simp [Expr.print, Expr.layout, ofLayout_bracketed, Entry.prints_eq entries]
  | .raw s, p, m => by simp [Expr.print, Expr.layout]

theorem Expr.printReceiver_eq : (receiver : Option Expr) → (p : Nat) →
    (Expr.printReceiver receiver p : PrintM σ Unit) = ofLayout (Expr.receiverLayout receiver p)
  | Option.none, p => rfl
  | some receiver, p => by
    simp [Expr.printReceiver, Expr.receiverLayout, Expr.print_eq receiver]

theorem Expr.prints_eq : (es : List Expr) → (p : Nat) → (m : LineMode) →
    (Expr.prints es p m : List (PrintM σ Unit)) = (Expr.layouts es p m).map ofLayout
  | [], p, m => rfl
  | e :: es, p, m => by
    rw [Expr.prints, Expr.layouts, List.map_cons, Expr.print_eq e, Expr.prints_eq es]

/-- The visit of an argument writes its layout. -/
theorem Arg.print_eq : (a : Arg) → (p : Nat) → (m : LineMode) →
    (a.print p m : PrintM σ Unit) = ofLayout (a.layout p m)
  | ⟨name, value⟩, p, m => by simp [Arg.print, Arg.layout, Expr.print_eq value]

theorem Arg.prints_eq : (as : List Arg) → (p : Nat) → (m : LineMode) →
    (Arg.prints as p m : List (PrintM σ Unit)) = (Arg.layouts as p m).map ofLayout
  | [], p, m => rfl
  | a :: as, p, m => by
    rw [Arg.prints, Arg.layouts, List.map_cons, Arg.print_eq a, Arg.prints_eq as]

/-- The visit of an entry writes its layout. -/
theorem Entry.print_eq : (e : Entry) → (p : Nat) → (m : LineMode) →
    (e.print p m : PrintM σ Unit) = ofLayout (e.layout p m)
  | ⟨key, value⟩, p, m => by
    simp [Entry.print, Entry.layout, Expr.print_eq key, Expr.print_eq value]

theorem Entry.prints_eq : (es : List Entry) → (p : Nat) → (m : LineMode) →
    (Entry.prints es p m : List (PrintM σ Unit)) = (Entry.layouts es p m).map ofLayout
  | [], p, m => rfl
  | e :: es, p, m => by
    rw [Entry.prints, Entry.layouts, List.map_cons, Entry.print_eq e, Entry.prints_eq es]

/-- The visit of a body writes its layout. -/
theorem Body.print_eq : (b : Body) → (p : Nat) → (m : LineMode) →
    (b.print p m : PrintM σ Unit) = ofLayout (b.layout p m)
  | .element value, p, m => by rw [Body.print, Body.layout, Expr.print_eq value]
  | .entry e, p, m => by rw [Body.print, Body.layout, Entry.print_eq e]

/-- The visit of a clause writes its layout. -/
theorem Clause.print_eq : (c : Clause) → (p : Nat) → (m : LineMode) →
    (c.print p m : PrintM σ Unit) = ofLayout (c.layout p m)
  | .loop targets iterable, p, m => by
    rw [Clause.print, Clause.layout, ofLayout_append, ofLayout_lead]
    split
    next => rfl
    next =>
      simp [Layout.commaSeparated, commaSeparated, ofLayout_separated, Expr.prints_eq targets,
        Expr.print_eq iterable]
  | .guard condition, p, m => by
    simp [Clause.print, Clause.layout, Expr.print_eq condition]

theorem Clause.prints_eq : (cs : List Clause) → (p : Nat) → (m : LineMode) →
    (Clause.prints cs p m : List (PrintM σ Unit)) = (Clause.layouts cs p m).map ofLayout
  | [], p, m => rfl
  | c :: cs, p, m => by
    rw [Clause.prints, Clause.layouts, List.map_cons, Clause.print_eq c, Clause.prints_eq cs]

end

/-! ## Nodes -/

/-- The visit of a symbol writes its layout. -/
theorem Symbol.print_eq (s : Symbol) (p : Nat) (m : LineMode) :
    (s.print p m : PrintM σ Unit) = ofLayout (s.layout p m) := by
  obtain ⟨name, localName⟩ := s
  cases localName <;> simp [Symbol.print, Symbol.layout]

/-- The visit of a load writes its layout. -/
theorem Load.print_eq (l : Load) (p : Nat) (m : LineMode) :
    (l.print p m : PrintM σ Unit) = ofLayout (l.layout p m) := by
  rw [Load.print, Load.layout]
  split
  next => rfl
  next => simp [ofLayout_bracketed, Function.comp_def, Symbol.print_eq]

/-- A line of a comment is printed as it is laid out. -/
theorem PrintM.ofLayout_commentLine (position : Nat) (line : String) :
    (ofLayout (.commentLine position line) : PrintM σ Unit) = commentLine position line := by
  rw [Layout.commentLine, commentLine]
  split <;> simp

/-- The visit of a statement writes its layout. -/
theorem Statement.print_eq (s : Statement) (p : Nat) (m : LineMode) :
    (s.print p m : PrintM σ Unit) = ofLayout (s.layout p m) := by
  cases s with
  | expression value => simp [Statement.print, Statement.layout, Expr.print_eq]
  | assignment name value =>
    cases m <;>
      simp [Statement.print, Statement.layout, Expr.print_eq, assignmentMode, refuseSingleLine]
  | load imported => exact Load.print_eq imported p m
  | raw s => simp [Statement.print, Statement.layout, ofLayout_separated, Function.comp_def]
  | emptyLine => simp [Statement.print, Statement.layout]
  | comment s =>
    simp [Statement.print, Statement.layout, ofLayout_separated, Function.comp_def,
      PrintM.ofLayout_commentLine]

/-- The loop over the statements of a file, from any statement on. -/
theorem Statement.printAfter_eq (p : Nat) (m : LineMode) (previous : Statement)
    (rest : List Statement) :
    (Statement.printAfter p m (some previous) rest : PrintM σ Unit) =
      ofLayout (Statement.layoutAfter p m previous rest) := by
  induction rest generalizing previous with
  | nil => rfl
  | cons s rest ih =>
    rw [Statement.printAfter, ih, Statement.print_eq, Statement.layoutAfter]
    simp [ofLayout_onlyIf, Statement.wantsBlankLineAfter]

/-- The visit of a file writes its layout. -/
theorem File.print_eq (f : File) (p : Nat) (m : LineMode) :
    (f.print p m : PrintM σ Unit) = ofLayout (f.layout p m) := by
  obtain ⟨kind, name, statements⟩ := f
  cases statements with
  | nil => simp [File.print, File.layout, Statement.printAfter]
  | cons s rest =>
    simp [File.print, File.layout, Statement.printAfter, Statement.wantsBlankLineAfter,
      Statement.print_eq, Statement.printAfter_eq]

/-- The visit of a node writes its layout, with any sink. -/
theorem Node.print_eq (n : Node) (p : Nat) (m : LineMode) :
    (n.print p m : PrintM σ Unit) = ofLayout (n.layout p m) := by
  cases n with
  | file f => exact f.print_eq p m
  | statement s => exact s.print_eq p m
  | expression e => exact e.print_eq p m
  | clause c => exact c.print_eq p m
  | argument a => exact a.print_eq p m
  | symbol s => exact s.print_eq p m

/-! ## Printers -/

namespace Printer

/-- Writing a layout writes its pieces and gives its error. -/
theorem perform_ofLayout (printer : Printer σ) (l : Layout) :
    printer.perform (ofLayout l) = (l.pieces.foldl write printer, l.failure) := by
  obtain ⟨pieces, failure⟩ := l
  induction pieces generalizing printer with
  | nil => cases failure <;> rfl
  | cons piece pieces ih => exact ih (printer.write piece)

/-- What a printer does with a node: the pieces of its layout are written one after the other, and
the error is that of the layout. -/
theorem printNode_eq (printer : Printer σ) (node : Node) (position : Nat) (mode : LineMode) :
    printer.printNode node position mode =
      ((node.layout position mode).pieces.foldl write printer,
        (node.layout position mode).failure) := by
  rw [printNode, Node.print_eq, perform_ofLayout]

end Printer

end

end StarlarkCode
