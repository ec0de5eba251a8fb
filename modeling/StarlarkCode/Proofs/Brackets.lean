import StarlarkCode.Proofs.Faults
import StarlarkCode.Proofs.Numerals
import StarlarkCode.Proofs.Rendering

/-!
# Brackets and line breaks

A reader of the language joins the lines of an open bracket: a line break ends a statement only
outside all brackets. Formatted code relies on this. In a text formatted from one statement, or from
a node inside one, every bracket is closed by its partner and every line break stands inside a
bracket, provided that the names and texts of the tree bring no brackets and line breaks of their
own.

The argument is about layouts: what stands between two brackets may hold line breaks, what stands
anywhere else may not. `Layout.Keeps` says that reading a layout leaves the stack of open brackets
as it was, for the stacks of a given class: all of them, or those with an open bracket.
-/

namespace StarlarkCode

/-! ## Reading brackets -/

namespace Brackets

/-- The bracket that a closing bracket closes. -/
def partner? : Char → Option Char
  | ')' => some '('
  | ']' => some '['
  | '\x7d' => some '\x7b'
  | _ => none

/-- One of the three opening brackets. -/
def isOpening (c : Char) : Bool :=
  c == '(' || c == '[' || c == '\x7b'

/-- The open brackets after a character, the innermost first. There is no way on when a closing
bracket meets another bracket than its partner, or none, nor when a line break stands outside all
brackets. -/
def step (stack : List Char) (c : Char) : Option (List Char) :=
  if isOpening c then some (c :: stack)
  else match partner? c with
    | some opening => if stack.head? = some opening then some stack.tail else none
    | none => if c = '\n' ∧ stack = [] then none else some stack

/-- The open brackets after a text. -/
def read (stack : List Char) : List Char → Option (List Char)
  | [] => some stack
  | c :: cs => (step stack c).bind (read · cs)

/-- Reading goes on with the brackets that the first text leaves open. -/
theorem read_append (stack a b : List Char) :
    read stack (a ++ b) = (read stack a).bind (read · b) := by
  induction a generalizing stack with
  | nil => rfl
  | cons c a ih =>
    rw [List.cons_append, read, read, Option.bind_assoc]
    congr 1
    funext stack
    exact ih stack

/-- The characters that a reader of brackets acts on. -/
def special : List Char :=
  ['(', ')', '[', ']', '\x7b', '\x7d', '\n']

/-- A text without brackets and line breaks. -/
def Inert (text : List Char) : Prop :=
  ∀ c ∈ text, c ∉ special

instance (text : List Char) : Decidable (Inert text) :=
  Text.decidableForall text

/-- A character that is neither bracket nor break leaves the open brackets alone. -/
theorem step_of_not_special {c : Char} (h : c ∉ special) (stack : List Char) :
    step stack c = some stack := by
  simp only [special, List.mem_cons, List.not_mem_nil, or_false, not_or] at h
  have noPartner : partner? c = none := by
    unfold partner?
    split <;> simp_all
  simp [step, isOpening, noPartner, h]

/-- A text without brackets and breaks is read through with nothing opened or closed. -/
theorem Inert.read_eq {text : List Char} (inert : Inert text) (stack : List Char) :
    read stack text = some stack := by
  induction text with
  | nil => rfl
  | cons c text ih =>
    have rest := ih fun d mem => inert d (List.mem_cons_of_mem c mem)
    rw [read, step_of_not_special (inert c List.mem_cons_self), Option.bind_some, rest]

theorem Inert.append {a b : List Char} (inertFirst : Inert a) (inertNext : Inert b) :
    Inert (a ++ b) :=
  fun c mem => (List.mem_append.mp mem).elim (inertFirst c) (inertNext c)

/-! ## Numerals -/

/-- Numerals hold no brackets and no breaks. -/
theorem inert_of_numeral {text : List Char} (numeral : Text.Numeral text) : Inert text := by
  intro c mem special
  have isNumeral := numeral c mem
  simp only [Brackets.special, List.mem_cons, List.not_mem_nil, or_false] at special
  rcases special with rfl | rfl | rfl | rfl | rfl | rfl | rfl <;> cases isNumeral

/-- A float that is no number is written as a call, which closes its bracket. -/
theorem read_literal (x : Binary64) (stack : List Char) :
    read stack x.literal.toList = some stack := by
  unfold Binary64.literal
  split
  · rw [String.toList_append]
    refine Inert.read_eq (Inert.append ?_ (inert_of_numeral (Text.numeral_decimal x.decimal))) stack
    split <;> decide
  · split
    · rfl
    · split <;> rfl

/-- Where a text can be read to its end, every line break in it stands inside a bracket. -/
theorem open_at_newline {stack before after final : List Char}
    (h : read stack (before ++ '\n' :: after) = some final) :
    ∃ top rest, read stack before = some (top :: rest) := by
  rw [read_append] at h
  obtain ⟨stack', reached, h⟩ := Option.bind_eq_some_iff.mp h
  cases stack' with
  | nil => cases h
  | cons top rest => exact ⟨top, rest, reached⟩

end Brackets

open Brackets

/-! ## Layouts that keep the stack -/

namespace Layout

/-- Reading the text of a layout, if it has no failure, leaves a stack of this class as it was. -/
def Keeps (width : Nat) (P : List Char → Prop) (l : Layout) : Prop :=
  l.failure = none → ∀ stack, P stack → read stack (l.chars width) = some stack

/-- A layout that can stand anywhere. -/
def Balanced (width : Nat) (l : Layout) : Prop :=
  l.Keeps width fun _ => True

/-- A layout that can stand inside a bracket. -/
def Enclosed (width : Nat) (l : Layout) : Prop :=
  l.Keeps width (· ≠ [])

section

variable {width : Nat} {P : List Char → Prop}

/-- What can stand anywhere can stand inside brackets. -/
theorem Balanced.keeps {l : Layout} (h : l.Balanced width) : l.Keeps width P :=
  fun sound stack _ => h sound stack trivial

theorem keeps_empty : empty.Keeps width P := fun _ _ _ => rfl

/-- A failed layout promises nothing. -/
theorem keeps_fail (e : LayoutError) : (fail e).Keeps width P := by
  intro sound
  cases sound

/-- A text without brackets and breaks can stand anywhere. -/
theorem keeps_text {s : String} (inert : Inert s.toList) : (text s).Keeps width P := by
  intro _ stack _
  rw [chars_text]
  exact inert.read_eq stack

/-- Reading sees the text of a layout alone. -/
theorem SameText.keeps {a b : Layout} (same : a.SameText b) (h : b.Keeps width P) :
    a.Keeps width P := by
  intro sound stack inside
  rw [same.1] at sound
  rw [same.2]
  exact h sound stack inside

/-- So can an indentation. -/
theorem keeps_indent (level : Nat) : (indent level).Keeps width P := by
  intro _ stack _
  rw [chars_indent]
  refine Inert.read_eq (fun c mem => ?_) stack
  rw [List.eq_of_mem_replicate mem]
  decide

/-- A line break can stand inside brackets only. -/
theorem enclosed_newline : newline.Enclosed width := by
  intro _ stack inside
  cases stack with
  | nil => exact absurd rfl inside
  | cons top stack => rfl

/-- Two layouts that leave the open brackets alone do so one after the other. -/
theorem Keeps.append {a b : Layout} (keepsFirst : a.Keeps width P) (keepsNext : b.Keeps width P) :
    (a ++ b).Keeps width P := by
  intro sound stack inside
  rw [failure_append, Option.or_eq_none_iff] at sound
  rw [chars_append sound.1, read_append, keepsFirst sound.1 stack inside, Option.bind_some]
  exact keepsNext sound.2 stack inside

/-- The same for any number of layouts. -/
theorem keeps_concat {parts : List Layout} (keeps : ∀ part ∈ parts, part.Keeps width P) :
    (concat parts).Keeps width P := by
  induction parts with
  | nil => exact keeps_empty
  | cons part parts ih =>
    have first := keeps part List.mem_cons_self
    exact first.append (ih fun other mem => keeps other (List.mem_cons_of_mem part mem))

/-- The same with a separator between them. -/
theorem keeps_separated {separator : Layout} (between : separator.Keeps width P)
    {parts : List Layout} (keeps : ∀ part ∈ parts, part.Keeps width P) :
    (separated separator parts).Keeps width P := by
  fun_induction separated separator parts with
  | case1 => exact keeps_empty
  | case2 part => exact keeps part List.mem_cons_self
  | case3 part parts _ ih =>
    have first := keeps part List.mem_cons_self
    have others := ih fun other mem => keeps other (List.mem_cons_of_mem part mem)
    exact (first.append between).append others

/-- What stands before a node opens no bracket, in any line mode. -/
theorem keeps_lead (construct : Construct) (position : Nat) (mode : LineMode) :
    (lead construct position mode).Keeps width P := by
  cases mode with
  | newLine => exact keeps_indent position
  | continueLine => exact keeps_empty
  | singleLine => exact keeps_fail _

theorem keeps_refuseSingleLine (construct : Construct) (position : Nat) (mode : LineMode) :
    (refuseSingleLine construct position mode).Keeps width P := by
  cases mode with
  | singleLine => exact keeps_fail _
  | _ => exact keeps_empty

/-- A bracket and its partner around a layout that can stand inside them can stand anywhere. -/
theorem balanced_of_enclosed {opening closing : String} (bracket : Char) {l : Layout}
    (opens : ∀ stack, read stack opening.toList = some (bracket :: stack))
    (closes : ∀ stack, read (bracket :: stack) closing.toList = some stack)
    (inner : l.Enclosed width) : (text opening ++ l ++ text closing).Balanced width := by
  intro sound stack _
  simp only [failure_append, failure_text, Option.none_or, Option.or_none] at sound
  have open' : (text opening ++ l).failure = none := by
    rw [failure_append, failure_text, Option.none_or, sound]
  rw [chars_append open', chars_append (failure_text opening), chars_text, chars_text, read_append,
    read_append, opens, Option.bind_some, inner sound _ (List.cons_ne_nil _ _), Option.bind_some,
    closes]

/-- Items between brackets can stand anywhere, on one line or stacked: where they are stacked, the
line breaks are inside the brackets. -/
theorem balanced_bracketed {opening closing : String} (bracket : Char) {fits : Bool}
    {position : Nat} {items : Nat → LineMode → List Layout}
    (opens : ∀ stack, read stack opening.toList = some (bracket :: stack))
    (closes : ∀ stack, read (bracket :: stack) closing.toList = some stack)
    (balanced : ∀ q m, ∀ item ∈ items q m, item.Balanced width) :
    (bracketed opening closing fits position items).Balanced width := by
  refine balanced_of_enclosed bracket opens closes ?_
  cases fits with
  | true =>
    have inline : (commaSeparated (items position .continueLine)).Balanced width :=
      keeps_separated (keeps_text (by decide)) (balanced position .continueLine)
    exact inline.keeps
  | false =>
    have lines : ∀ line ∈ (items (position + 1) .newLine).map (· ++ text "," ++ newline),
        line.Enclosed width := by
      intro line mem
      obtain ⟨item, memItems, rfl⟩ := List.mem_map.mp mem
      have inItem : item.Enclosed width := (balanced _ _ item memItems).keeps
      exact (inItem.append (keeps_text (by decide))).append enclosed_newline
    exact (enclosed_newline.append (keeps_concat lines)).append (keeps_indent position)

end

end Layout

/-! ## Texts of the tree -/

/-- A text without brackets and without line breaks of any style. -/
def Text.IsPlain (s : String) : Prop :=
  Inert s.toList ∧ '\r' ∉ s.toList

instance (s : String) : Decidable (Text.IsPlain s) :=
  inferInstanceAs (Decidable (_ ∧ _))

/-- The names and texts of a tree are plain. -/
def Node.HasPlainTexts (n : Node) : Prop :=
  ∀ placed ∈ n.preorder, ∀ s ∈ placed.node.texts, Text.IsPlain s

/-- The texts of a tree are plain when those of the node and of its parts are. -/
theorem Node.hasPlainTexts_iff (n : Node) :
    n.HasPlainTexts ↔
      (∀ s ∈ n.texts, Text.IsPlain s) ∧ ∀ part ∈ n.parts, part.node.HasPlainTexts :=
  Node.forall_mem_preorder (P := fun n => ∀ s ∈ n.texts, Text.IsPlain s)

/-- Characters without a break of either style are one line. -/
theorem Text.lineChars_of_unbroken {cs : List Char} (h : ∀ c ∈ cs, c ≠ '\r' ∧ c ≠ '\n') :
    Text.lineChars cs = [cs] := by
  induction cs with
  | nil => rfl
  | cons c cs ih =>
    obtain ⟨noReturn, noFeed⟩ := h c List.mem_cons_self
    have rest := ih fun d mem => h d (List.mem_cons_of_mem c mem)
    rw [Text.lineChars.eq_5 _ _ (by simp_all) (by simp_all) (by simp_all), rest]
    rfl

/-- A text without a break of either style is one line. -/
theorem Text.lines_of_unbroken {s : String} (h : ∀ c ∈ s.toList, c ≠ '\r' ∧ c ≠ '\n') :
    Text.lines s = [s] := by
  rw [Text.lines, Text.lineChars_of_unbroken h, List.map_singleton, String.ofList_toList]

theorem Text.IsPlain.lines {s : String} (plain : Text.IsPlain s) : Text.lines s = [s] := by
  refine Text.lines_of_unbroken ?_
  intro c mem
  constructor
  · rintro rfl
    exact plain.2 mem
  · rintro rfl
    exact plain.1 _ mem (by decide)

namespace Layout

variable {width : Nat}

/-- A plain string literal stays on its line, between quotes. -/
theorem balanced_quoted (position : Nat) {s : String} (plain : Text.IsPlain s) :
    (quoted position s).Balanced width := by
  have quote {P : List Char → Prop} : (text "\"").Keeps width P := keeps_text (by decide)
  unfold quoted
  rw [plain.lines]
  exact (quote.append (keeps_text plain.1)).append quote

/-- The name of an argument, if it is plain, opens no bracket. -/
theorem balanced_argumentName {name : Option String} (plain : ∀ s ∈ name.toList, Text.IsPlain s) :
    (argumentName name).Balanced width := by
  cases name with
  | none => exact keeps_empty
  | some name =>
    have inert := (plain name List.mem_cons_self).1
    rw [argumentName]
    split
    · exact keeps_empty
    · exact Keeps.append (keeps_text inert) (keeps_text (by decide))

end Layout

/-! ## Nodes -/

/-- However it is placed, the layout of the node can stand anywhere. -/
def Node.Balanced (width : Nat) (n : Node) : Prop :=
  ∀ position mode, (n.layout position mode).Balanced width

section

variable {width : Nat}

open Layout

/-- An entry can stand anywhere if its key and its value can. -/
theorem Entry.balanced {e : Entry} (parts : ∀ x ∈ e.parts, (Node.expression x).Balanced width)
    (p : Nat) (m : LineMode) : (e.layout p m).Balanced width := by
  obtain ⟨key, value⟩ := e
  have inKey : (key.layout p m).Balanced width := parts key List.mem_cons_self p m
  have inValue : (value.layout p .continueLine).Balanced width :=
    parts value (List.mem_cons_of_mem _ List.mem_cons_self) p .continueLine
  exact (inKey.append (keeps_text (by decide))).append inValue

/-- The body of a comprehension can stand anywhere if its expressions can. -/
theorem Body.balanced {b : Body} (parts : ∀ x ∈ b.parts, (Node.expression x).Balanced width)
    (p : Nat) (m : LineMode) : (b.layout p m).Balanced width := by
  cases b with
  | element value => exact parts value List.mem_cons_self p m
  | entry e => exact Entry.balanced parts p m

theorem Expr.balanced_layouts {xs : List Expr}
    (balanced : ∀ x ∈ xs, (Node.expression x).Balanced width) (p : Nat) (m : LineMode) :
    ∀ item ∈ Expr.layouts xs p m, item.Balanced width := by
  rw [Expr.layouts_eq_map]
  exact List.forall_mem_map.mpr fun x mem => balanced x mem p m

/-- A receiver with its point can stand anywhere if the receiver can. -/
theorem Expr.balanced_receiver {receiver : Option Expr}
    (balanced : ∀ x ∈ receiver.toList, (Node.expression x).Balanced width) (p : Nat) :
    (Expr.receiverLayout receiver p).Balanced width := by
  cases receiver with
  | none => exact keeps_empty
  | some receiver =>
    have inReceiver : (receiver.layout p .continueLine).Balanced width :=
      balanced receiver List.mem_cons_self p .continueLine
    exact inReceiver.append (keeps_text (by decide))

/-- The body and the clauses of a comprehension stand inside its bracket, so each of them may go on
a line of its own. -/
theorem Expr.balanced_comprehension {body : Body} {clauses : List Clause}
    (inBody : ∀ x ∈ body.parts, (Node.expression x).Balanced width)
    (inClauses : ∀ c ∈ clauses, (Node.clause c).Balanced width) :
    (Node.expression (.comprehension body clauses)).Balanced width := by
  intro p m
  have bodyKeeps (q : Nat) (n : LineMode) : (body.layout q n).Enclosed width :=
    (Body.balanced inBody q n).keeps
  have clausesKeep (q : Nat) (n : LineMode) {separator : Layout}
      (between : separator.Enclosed width) :
      (concat ((Clause.layouts clauses q n).map (separator ++ ·))).Enclosed width := by
    rw [Clause.layouts_eq_map]
    refine keeps_concat (List.forall_mem_map.mpr (List.forall_mem_map.mpr fun c mem => ?_))
    exact between.append (inClauses c mem q n).keeps
  have enclose {l : Layout} (inner : l.Enclosed width) :
      (text body.kind.opening ++ l ++ text body.kind.closing).Balanced width := by
    cases body.kind with
    | list => exact balanced_of_enclosed '[' (fun _ => rfl) (fun _ => rfl) inner
    | dictionary => exact balanced_of_enclosed '\x7b' (fun _ => rfl) (fun _ => rfl) inner
  rw [Node.layout, Expr.layout]
  refine Keeps.append (keeps_lead _ p m) ?_
  split
  · exact keeps_fail _
  · refine enclose ?_
    -- Broken up, every line break stands inside the bracket; otherwise there is none.
    split
    · have lines := (enclosed_newline.append (bodyKeeps (p + 1) .newLine)).append
        (clausesKeep (p + 1) .newLine enclosed_newline)
      exact (lines.append enclosed_newline).append (keeps_indent p)
    · exact (bodyKeeps p .continueLine).append
        (clausesKeep p .continueLine (sameText_space.keeps (keeps_text (by decide))))

/-- An expression with plain texts can stand anywhere if its parts can. -/
theorem Expr.balanced {e : Expr} (plain : ∀ s ∈ e.texts, Text.IsPlain s)
    (parts : ∀ part ∈ e.parts, part.node.Balanced width) : (Node.expression e).Balanced width := by
  intro p m
  cases e with
  | string value =>
    exact (keeps_lead _ p m).append (balanced_quoted p (plain value List.mem_cons_self))
  | integer value =>
    have numeral := Text.numeral_ofInt value.toInt
    exact (keeps_lead _ p m).append (keeps_text (inert_of_numeral numeral))
  | float value =>
    refine (keeps_lead _ p m).append fun _ stack _ => ?_
    rw [chars_text]
    exact read_literal value stack
  | boolean value =>
    refine (keeps_lead _ p m).append (keeps_text ?_)
    cases value <;> decide
  | none => exact (keeps_lead _ p m).append (keeps_text (by decide))
  | reference target =>
    exact (keeps_lead _ p m).append (keeps_text (plain target.name List.mem_cons_self).1)
  | call receiver name args =>
    have inReceiver := Expr.balanced_receiver (fun x mem =>
      parts _ (List.mem_append_left _ (List.mem_map_of_mem (a := x) mem))) p
    have inName := (plain name List.mem_cons_self).1
    refine (((keeps_lead _ p m).append inReceiver).append (keeps_text inName)).append
      (balanced_bracketed '(' (fun _ => rfl) (fun _ => rfl) fun q n => ?_)
    rw [Arg.layouts_eq_map]
    refine List.forall_mem_map.mpr fun a mem => ?_
    exact parts _ (List.mem_append_right _ (List.mem_map_of_mem mem)) q n
  | binary kind left op right =>
    have inLeft : (left.layout p m).Balanced width := parts _ List.mem_cons_self p m
    have inRight : (right.layout p .continueLine).Balanced width :=
      parts _ (List.mem_cons_of_mem _ List.mem_cons_self) p .continueLine
    have inert : Inert (" " ++ op.text ++ " ").toList := by cases op <;> decide
    have start := (keeps_refuseSingleLine .binary p m).append inLeft
    exact (start.append ((sameText_operator op).keeps (keeps_text inert))).append inRight
  | comprehension body clauses =>
    exact Expr.balanced_comprehension
      (fun x mem => parts _ (List.mem_append_left _ (List.mem_map_of_mem mem)))
      (fun c mem => parts _ (List.mem_append_right _ (List.mem_map_of_mem mem))) p m
  | slice receiver bounds =>
    have inReceiver : (receiver.layout p .continueLine).Balanced width :=
      parts _ List.mem_cons_self p .continueLine
    refine ((keeps_lead _ p m).append inReceiver).append
      ((sameText_bounds bounds).keeps fun _ stack _ => ?_)
    rw [chars_text, String.toList_append, String.toList_append, read_append, read_append]
    have opened : read stack "[".toList = some ('[' :: stack) := rfl
    rw [opened, Option.bind_some, (inert_of_numeral (Text.numeral_bounds bounds)).read_eq]
    rfl
  | list items =>
    have inItems := Expr.balanced_layouts fun x mem => parts _ (List.mem_map_of_mem (a := x) mem)
    exact (keeps_lead _ p m).append
      (balanced_bracketed '[' (fun _ => rfl) (fun _ => rfl) inItems)
  | tuple items =>
    have inItems := Expr.balanced_layouts fun x mem => parts _ (List.mem_map_of_mem (a := x) mem)
    -- A tuple of one item has a comma before the closing bracket.
    have closes (stack : List Char) : read ('(' :: stack)
        (if items.length = 1 then ",)" else ")").toList = some stack := by
      split <;> rfl
    exact (keeps_lead _ p m).append
      ((sameText_tupled _ _ p _).keeps (balanced_bracketed '(' (fun _ => rfl) closes inItems))
  | dictionary entries =>
    refine (keeps_lead _ p m).append
      (balanced_bracketed '\x7b' (fun _ => rfl) (fun _ => rfl) fun q n => ?_)
    rw [Entry.layouts_eq_map]
    refine List.forall_mem_map.mpr fun e mem => Entry.balanced (fun x memEntry => ?_) q n
    exact parts _ (List.mem_map_of_mem (List.mem_flatMap.mpr ⟨e, mem, memEntry⟩))
  | raw s => exact (keeps_lead _ p m).append (keeps_text (plain s List.mem_cons_self).1)

/-- A clause can stand anywhere if its parts can. -/
theorem Clause.balanced {c : Clause} (parts : ∀ part ∈ c.parts, part.node.Balanced width) :
    (Node.clause c).Balanced width := by
  intro p m
  cases c with
  | loop targets iterable =>
    have inTargets := Expr.balanced_layouts (fun x mem =>
      parts _ (List.mem_append_left _ (List.mem_map_of_mem (a := x) mem))) p .continueLine
    have inIterable : (iterable.layout p .continueLine).Balanced width :=
      parts _ (List.mem_append_right _ List.mem_cons_self) p .continueLine
    rw [Node.layout, Clause.layout]
    refine Keeps.append (keeps_lead _ p m) ?_
    split
    · exact keeps_fail _
    · have inVariables : (commaSeparated (Expr.layouts targets p .continueLine)).Balanced width :=
        keeps_separated (keeps_text (by decide)) inTargets
      exact (((keeps_text (by decide)).append inVariables).append (keeps_text (by decide))).append
        inIterable
  | guard condition =>
    have inCondition : (condition.layout p .continueLine).Balanced width :=
      parts _ List.mem_cons_self p .continueLine
    exact ((keeps_lead _ p m).append (keeps_text (by decide))).append inCondition

/-- An argument with a plain name can stand anywhere if its value can. -/
theorem Arg.balanced {a : Arg} (plain : ∀ s ∈ a.name.toList, Text.IsPlain s)
    (inValue : (Node.expression a.value).Balanced width) : (Node.argument a).Balanced width := by
  intro p m
  obtain ⟨name, value⟩ := a
  exact ((keeps_lead _ p m).append (balanced_argumentName plain)).append (inValue p .continueLine)

/-- A symbol with plain names can stand anywhere. -/
theorem Symbol.balanced {s : Symbol} (plain : ∀ t ∈ s.name :: s.localName.toList, Text.IsPlain t) :
    (Node.symbol s).Balanced width := by
  intro p m
  obtain ⟨name, localName⟩ := s
  have inName : (quoted p name).Balanced width := balanced_quoted p (plain name List.mem_cons_self)
  cases localName with
  | none => exact ((keeps_lead _ p m).append keeps_empty).append inName
  | some localName =>
    have inLocal := (plain localName (List.mem_cons_of_mem _ List.mem_cons_self)).1
    exact ((keeps_lead _ p m).append
      ((keeps_text inLocal).append (keeps_text (by decide)))).append inName

end

/-- Nodes below statements can stand anywhere, if their texts are plain. -/
theorem Node.balanced (width : Nat) (n : Node) :
    n.isStatement = false → n.HasPlainTexts → n.Balanced width := by
  induction n using Node.induction with
  | step n ih =>
    intro inner plain
    obtain ⟨plainTexts, plainParts⟩ := n.hasPlainTexts_iff.mp plain
    have parts : ∀ part ∈ n.parts, part.node.Balanced width := by
      intro part mem
      refine ih part mem (Node.isStatement_of_mem_parts mem ?_) (plainParts part mem)
      rintro f rfl
      cases inner
    cases n with
    | file f => cases inner
    | statement s => cases inner
    | expression e => exact Expr.balanced plainTexts parts
    | clause c => exact Clause.balanced parts
    | argument a => exact Arg.balanced plainTexts (parts _ List.mem_cons_self)
    | symbol s => exact Symbol.balanced plainTexts

/-! ## Logical lines -/

/-- A node that is written as one logical line, or as a part of one: anything inside a statement,
and the statements whose text is not taken over line by line. -/
def Node.isLogicalLine : Node → Bool
  | .expression _ | .clause _ | .argument _ | .symbol _ => true
  | .statement (.expression _) | .statement (.assignment _ _) | .statement (.load _) => true
  | .file _ | .statement (.raw _) | .statement .emptyLine | .statement (.comment _) => false

section

variable {width : Nat}

open Layout

/-- A load can stand anywhere: its symbols are stacked inside its brackets. -/
theorem Load.balanced {l : Load} (plain : Text.IsPlain l.file)
    (symbols : ∀ s ∈ l.symbols, (Node.symbol s).Balanced width) :
    (Node.statement (.load l)).Balanced width := by
  intro p m
  have items (q : Nat) (n : LineMode) :
      ∀ item ∈ (lead .string q n ++ quoted q l.file) :: l.symbols.map (·.layout q n),
        item.Balanced width := by
    refine List.forall_mem_cons.mpr ⟨?_, List.forall_mem_map.mpr fun s mem => symbols s mem q n⟩
    exact (keeps_lead .string q n).append (balanced_quoted q plain)
  rw [Node.layout, Statement.layout, Load.layout]
  split
  · exact keeps_fail _
  · exact Keeps.append (keeps_lead _ p m)
      (balanced_bracketed '(' (fun _ => rfl) (fun _ => rfl) items)

/-- An assignment to a plain name can stand anywhere if its value can. -/
theorem Statement.balanced_assignment {name : String} {value : Expr} (plain : Text.IsPlain name)
    (inValue : (Node.expression value).Balanced width) :
    (Node.statement (.assignment name value)).Balanced width := by
  intro p m
  have allowed : (if m = .newLine then empty
      else fail (.misplacedStatement .assignment m p)).Balanced width := by
    split
    · exact keeps_empty
    · exact keeps_fail _
  have start := ((keeps_refuseSingleLine .assignment p m).append allowed).append (keeps_indent p)
  exact ((start.append (keeps_text plain.1)).append (keeps_text (by decide))).append
    (inValue p .continueLine)

end

/-- Nodes that make up one logical line leave no bracket open and break no line outside brackets. -/
theorem Node.balanced_of_isLogicalLine (width : Nat) {n : Node} (line : n.isLogicalLine = true)
    (plain : n.HasPlainTexts) : n.Balanced width := by
  obtain ⟨plainTexts, plainParts⟩ := n.hasPlainTexts_iff.mp plain
  cases n with
  | statement s =>
    cases s with
    | expression value =>
      have inValue := Node.balanced width (.expression value) rfl (plainParts _ List.mem_cons_self)
      exact fun p m => (Layout.keeps_refuseSingleLine _ p m).append (inValue p m)
    | assignment name value =>
      have inValue := Node.balanced width (.expression value) rfl (plainParts _ List.mem_cons_self)
      exact Statement.balanced_assignment (plainTexts name List.mem_cons_self) inValue
    | load imported =>
      refine Load.balanced (plainTexts _ List.mem_cons_self) fun s mem => ?_
      exact Node.balanced width (.symbol s) rfl (plainParts _ (List.mem_map_of_mem mem))
    | _ => cases line
  | file f => cases line
  | _ => exact Node.balanced width _ rfl plain

namespace Style

/-- A tree without faults, whose names and texts hold no brackets and line breaks, is formatted as
one logical line: in the text every bracket is closed by its partner, none stays open, and at each
line break at least one is open. -/
theorem formatNode_is_one_logical_line (style : Style) (node : Node) (position : Nat)
    (mode : LineMode) (multiline : mode = .newLine ∨ mode = .continueLine)
    (line : node.isLogicalLine = true)
    (sound : ∀ placed ∈ node.preorder, placed.node.fault? mode (position + placed.depth) = none)
    (plain : node.HasPlainTexts) :
    ∃ text, style.formatNode node position mode = .ok text ∧
      read [] text.toList = some [] ∧
      ∀ before after, text.toList = before ++ '\n' :: after →
        ∃ top rest, read [] before = some (top :: rest) := by
  have multiline := LineMode.ne_singleLine multiline
  have failure := (node.layout_sound_iff position multiline).mpr sound
  have balanced := Node.balanced_of_isLogicalLine style.indentWidth line plain position mode
    failure [] trivial
  refine ⟨_, style.formatNode_eq failure, ?_, ?_⟩
  · rw [String.toList_ofList]
    exact balanced
  · intro before after split
    rw [String.toList_ofList] at split
    rw [split] at balanced
    exact open_at_newline balanced

/-- An assignment over several lines, with a call and a comprehension that are broken up in turn. -/
def brokenAssignment : Node :=
  .statement (.assignment "deps" (.list [
    .call (some (.reference ⟨"native", .any⟩)) "glob"
      [⟨none, .string "a"⟩, ⟨some "exclude", .tuple [.integer (-1)]⟩],
    .comprehension (.entry ⟨.none, .binary .any (.float ⟨0⟩) .plus (.raw "x")⟩)
      [.loop [.reference ⟨"x", .any⟩] (.slice (.reference ⟨"xs", .list⟩) ⟨some 1, none, none⟩)]]))

/-- An assignment over several lines, each break inside its brackets. -/
theorem formatNode_brokenAssignment :
    (LineMode.newLine = .newLine ∨ LineMode.newLine = .continueLine) ∧
      brokenAssignment.isLogicalLine = true ∧
      (∀ placed ∈ brokenAssignment.preorder,
        placed.node.fault? .newLine (0 + placed.depth) = none) ∧
      brokenAssignment.HasPlainTexts ∧
      ∃ text, formatNode {} brokenAssignment 0 .newLine = .ok text ∧
        read [] text.toList = some [] ∧
        ∀ before after, text.toList = before ++ '\n' :: after →
          ∃ top rest, read [] before = some (top :: rest) := by
  have sound : ∀ placed ∈ brokenAssignment.preorder,
      placed.node.fault? .newLine (0 + placed.depth) = none :=
    (brokenAssignment.layout_sound_iff 0 LineMode.newLine_ne).mp rfl
  have plain : brokenAssignment.HasPlainTexts := by
    simp [brokenAssignment, Node.hasPlainTexts_iff (.statement _),
      Node.hasPlainTexts_iff (.expression _), Node.hasPlainTexts_iff (.argument _),
      Node.hasPlainTexts_iff (.clause _), Node.texts, Node.parts, Expr.texts, Expr.parts,
      Statement.texts, Statement.parts, Clause.parts, Body.parts, Entry.parts]
    decide
  exact ⟨.inl rfl, rfl, sound, plain,
    formatNode_is_one_logical_line {} _ _ _ (.inl rfl) rfl sound plain⟩

end Style

end StarlarkCode
