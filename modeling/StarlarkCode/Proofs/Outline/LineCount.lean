import StarlarkCode.Proofs.Outline.Nodes
import Mathlib.Algebra.Order.BigOperators.Group.List
import Mathlib.Algebra.Order.Ring.Nat

/-!
# How many lines a node takes

Line breaks come from single nodes: a collection or a call that does not stay on its line, a broken
up comprehension, a load of several symbols, a string of several lines. Each brings a number of
breaks that its own items decide, whatever is inside them, and a text has as many line breaks as all
nodes of the tree bring together.

The breaks of a text are the lines of its outline after the first. They are added up along the
outline (`Outline.breaks_append` and its companions) and along the tree (`Node.totalBreaks_eq`), and
an induction on trees compares the two.
-/

namespace StarlarkCode

/-! ## What a node brings -/

/-- Items that do not stay on a line: more than one, and more than five or one that is not simple.
-/
def Spread {α : Type} (isSimple : α → Bool) (items : List α) : Prop :=
  1 < items.length ∧ (5 < items.length ∨ ∃ x ∈ items, isSimple x = false)

instance {α : Type} (isSimple : α → Bool) (items : List α) : Decidable (Spread isSimple items) :=
  inferInstanceAs (Decidable (_ ∧ (_ ∨ _)))

/-- The line breaks between brackets: one behind each item that has a line of its own, and one
before the first. -/
def bracketBreaks {α : Type} (isSimple : α → Bool) (items : List α) : Nat :=
  if Spread isSimple items then items.length + 1 else 0

/-- The line breaks of a string literal, which is a block when it has two lines or more. -/
def quotedBreaks (value : String) : Nat :=
  if 2 ≤ (Text.lines value).length then (Text.lines value).length + 1 else 0

/-- What a comprehension computes, the value in an entry. -/
def Body.value : Body → Expr
  | .element value => value
  | .entry e => e.value

/-- The constructs that break up a comprehension around them. -/
def breakingConstructs : List Construct :=
  [.binary, .comprehension .list, .comprehension .dictionary, .call]

/-- The line breaks that an expression brings by itself. -/
def Expr.lineBreaks : Expr → Nat
  | .string value => quotedBreaks value
  | .call _ _ args => bracketBreaks (·.value.isSimple) args
  | .comprehension body clauses =>
    if body.value.construct ∈ breakingConstructs then clauses.length + 2 else 0
  | .list items | .tuple items => bracketBreaks Expr.isSimple items
  | .dictionary entries => bracketBreaks (fun e => e.key.isSimple && e.value.isSimple) entries
  | .integer _ | .float _ | .boolean _ | .none | .reference _ | .binary _ _ _ _ | .slice _ _
  | .raw _ => 0

/-- The line breaks of a load: those of its label, and those of its symbols if there are several. -/
def Load.lineBreaks (l : Load) : Nat :=
  quotedBreaks l.file + if 2 ≤ l.symbols.length then l.symbols.length + 2 else 0

/-- The line breaks that a node below statements, or a load, brings by itself. -/
def Node.lineBreaks : Node → Nat
  | .expression e => e.lineBreaks
  | .symbol s => quotedBreaks s.name
  | .statement (.load imported) => imported.lineBreaks
  | .file _ | .statement _ | .clause _ | .argument _ => 0

/-- The line breaks that all nodes of a tree bring together. -/
def Node.totalBreaks (n : Node) : Nat :=
  (n.preorder.map (·.node.lineBreaks)).sum

private theorem sum_flatMap {α : Type} (xs : List α) (f : α → List Nat) :
    (xs.flatMap f).sum = (xs.map fun x => (f x).sum).sum := by
  rw [List.flatMap, List.sum_flatten, List.map_map]
  rfl

/-- A tree has the breaks of its root and those of its parts. -/
theorem Node.totalBreaks_eq (n : Node) :
    n.totalBreaks = n.lineBreaks + (n.parts.map (·.node.totalBreaks)).sum := by
  rw [totalBreaks, preorder_eq, List.map_cons, List.sum_cons, List.map_flatMap, sum_flatMap]
  simp only [List.map_map]
  rfl

/-! ## Choices of layout -/

/-- Items that do not fit on a line are those that are spread. -/
theorem fitsBy_eq_false_iff {α : Type} {isSimple : α → Bool} {items : List α} :
    fitsBy isSimple items = false ↔ Spread isSimple items := by
  have many : isShort items.length = false ↔ 5 < items.length := by
    rw [isShort, decide_eq_false_iff_not, shortLimit, Nat.not_le]
  have several : atMostOne items.length = false ↔ 1 < items.length := by
    rw [atMostOne, decide_eq_false_iff_not, Nat.not_le]
  rw [fitsBy, Bool.or_eq_false_iff, Bool.and_eq_false_iff, several, many, List.all_eq_false, Spread]
  simp only [Bool.not_eq_true]

/-- Which comprehensions are broken up is decided by the construct of the value. -/
theorem Body.breaks_iff (b : Body) :
    b.breaks = true ↔ b.value.construct ∈ breakingConstructs := by
  have compound (e : Expr) : e.isCompound = true ↔ e.construct ∈ breakingConstructs := by
    cases e with
    | comprehension body clauses =>
      cases body <;> simp [Expr.isCompound, Expr.construct, Body.kind, breakingConstructs]
    | _ => simp [Expr.isCompound, Expr.construct, breakingConstructs]
  cases b with
  | element value => exact compound value
  | entry e => exact compound e.value

/-! ## Counting along an outline -/

namespace Outline

/-- The line breaks in an outline. -/
def breaks (o : Outline) : Nat :=
  o.rest.length

@[simp] theorem breaks_empty : empty.breaks = 0 := rfl

@[simp] theorem breaks_text (s : String) : (text s).breaks = 0 := rfl

/-- Line breaks add up. -/
@[simp] theorem breaks_append (a b : Outline) : (a ++ b).breaks = a.breaks + b.breaks := by
  have general : ∀ first lines, (extend b first lines).breaks = lines.length + b.breaks := by
    intro first lines
    induction lines generalizing first with
    | nil => simp [extend, breaks]
    | cons line lines ih =>
      have tail := ih line.text
      simp only [breaks, extend, List.length_cons] at tail ⊢
      omega
  exact general a.first a.rest

theorem breaks_concat (parts : List Outline) :
    (concat parts).breaks = (parts.map breaks).sum := by
  induction parts with
  | nil => rfl
  | cons part parts ih => rw [concat, List.foldr_cons, ← concat, breaks_append, ih]; rfl

/-- Items on one line have the line breaks that the items have. -/
theorem breaks_commaSeparated (parts : List Outline) :
    (commaSeparated parts).breaks = (parts.map breaks).sum := by
  induction parts with
  | nil => rfl
  | cons part parts ih =>
    cases parts with
    | nil => simp [commaSeparated]
    | cons next parts => simp [commaSeparated, ih]

/-- Stacking adds a line break before each part and one before the closing text. -/
theorem breaks_stacked (construct : Construct) (opening closing : String) (parts : List Outline) :
    (stacked construct opening closing parts).breaks =
      (parts.map breaks).sum + (parts.length + 1) := by
  have lines (o : Outline) : (linesWithin construct o).length = o.breaks + 1 := by
    simp [linesWithin, breaks]
  rw [breaks, stacked, List.length_append, List.length_flatMap]
  simp [lines, List.sum_map_add, Nat.add_assoc]

/-- Brackets add line breaks only where the items do not fit. -/
theorem breaks_bracketed (construct : Construct) (opening closing : String) (fits : Bool)
    (items : List Outline) :
    (bracketed construct opening closing fits items).breaks =
      (items.map breaks).sum + if fits then 0 else items.length + 1 := by
  cases fits <;> simp [bracketed, breaks_commaSeparated, breaks_stacked, Function.comp_def]

/-- A string literal has the line breaks that are counted for its value. -/
theorem breaks_quoted (value : String) : (quoted value).breaks = quotedBreaks value := by
  unfold quoted quotedBreaks
  split
  next line only => simp [only]
  next several =>
    have lines := Text.two_le_length_lines several
    simp [breaks, lines]

/-- The line breaks of an outline are the line breaks in its text. -/
theorem count_chars {o : Outline} (unbroken : o.Unbroken) (width position : Nat) :
    (o.chars width position).count '\n' = o.breaks := by
  have inLine : ∀ line ∈ o.rest, ('\n' :: line.chars width position).count '\n' = 1 := by
    intro line mem
    have none := Line.newline_not_mem_chars (unbroken.2 line mem) width position
    rw [List.count_cons_self, List.count_eq_zero_of_not_mem none]
  have each := List.map_congr_left inLine
  rw [chars, List.count_append, List.count_eq_zero_of_not_mem unbroken.1, List.count_flatMap,
    Function.comp_def, each]
  simp [breaks]

end Outline

/-! ## Counting along a tree -/

/-- The outline of a node, if it has one, has the line breaks of the whole tree. -/
def Node.Counted (n : Node) : Prop :=
  ∀ o, n.outline? = some o → o.breaks = n.totalBreaks

section

open Outline

variable {α : Type} {xs : List α} {outline : α → Outline} {total : α → Nat}

private theorem sum_breaks (counted : ∀ x ∈ xs, (outline x).breaks = total x) :
    ((xs.map outline).map breaks).sum = (xs.map total).sum := by
  rw [List.map_map]
  exact congrArg List.sum (List.map_congr_left counted)

/-- Items between brackets bring their own breaks and those of the brackets. -/
private theorem breaks_items (construct : Construct) (opening closing : String)
    (isSimple : α → Bool) (counted : ∀ x ∈ xs, (outline x).breaks = total x) :
    (bracketed construct opening closing (fitsBy isSimple xs) (xs.map outline)).breaks =
      bracketBreaks isSimple xs + (xs.map total).sum := by
  rw [breaks_bracketed, sum_breaks counted, List.length_map, Nat.add_comm, bracketBreaks]
  cases fits : fitsBy isSimple xs with
  | true =>
    have inline : ¬ Spread isSimple xs := by
      rw [← fitsBy_eq_false_iff, fits]
      exact Bool.noConfusion
    rw [if_pos rfl, if_neg inline]
  | false => rw [if_neg Bool.false_ne_true, if_pos (fitsBy_eq_false_iff.mp fits)]

private theorem breaks_entry {e : Entry} (parts : ∀ x ∈ e.parts, (Node.expression x).Counted) :
    e.outline.breaks = (e.parts.map fun x => (Node.expression x).totalBreaks).sum := by
  obtain ⟨key, value⟩ := e
  have inKey : key.outline.breaks = _ := parts key List.mem_cons_self _ rfl
  have inValue : value.outline.breaks = _ :=
    parts value (List.mem_cons_of_mem _ List.mem_cons_self) _ rfl
  simp [Entry.outline, Entry.parts, inKey, inValue]

private theorem breaks_body {b : Body} (parts : ∀ x ∈ b.parts, (Node.expression x).Counted) :
    b.outline.breaks = (b.parts.map fun x => (Node.expression x).totalBreaks).sum := by
  cases b with
  | element value =>
    have inValue : value.outline.breaks = _ := parts value List.mem_cons_self _ rfl
    simp [Body.outline, Body.parts, inValue]
  | entry e => exact breaks_entry parts

private theorem breaks_receiver {receiver : Option Expr}
    (counted : ∀ x ∈ receiver.toList, (Node.expression x).Counted) :
    (Expr.receiverOutline receiver).breaks =
      (receiver.toList.map fun x => (Node.expression x).totalBreaks).sum := by
  cases receiver with
  | none => rfl
  | some receiver =>
    have inReceiver : receiver.outline.breaks = _ := counted receiver List.mem_cons_self _ rfl
    simp [Expr.receiverOutline, inReceiver]

/-- Broken up, a comprehension has its body and each clause on lines of their own. -/
theorem Expr.counted_comprehension {body : Body} {clauses : List Clause}
    (inBody : ∀ x ∈ body.parts, (Node.expression x).Counted)
    (inClauses : ∀ c ∈ clauses, (Node.clause c).Counted) :
    (Expr.comprehension body clauses).outline.breaks =
      (Expr.comprehension body clauses).lineBreaks
        + ((body.parts.map fun x => (Node.expression x).totalBreaks).sum
          + (clauses.map fun c => (Node.clause c).totalBreaks).sum) := by
  have clausesCounted : ∀ c ∈ clauses, c.outline.breaks = (Node.clause c).totalBreaks :=
    fun c mem => inClauses c mem _ rfl
  have clauseSum := sum_breaks clausesCounted
  rw [Expr.outline, Expr.lineBreaks, Clause.outlines_eq_map]
  by_cases breaks : body.value.construct ∈ breakingConstructs
  · rw [if_pos (body.breaks_iff.mpr breaks), if_pos breaks, breaks_stacked, List.map_cons,
      List.sum_cons, breaks_body inBody, clauseSum, List.length_cons, List.length_map]
    omega
  · have spaced : ((clauses.map Clause.outline).map (text " " ++ ·)).map Outline.breaks =
        (clauses.map Clause.outline).map Outline.breaks := by
      simp
    rw [if_neg (mt body.breaks_iff.mp breaks), if_neg breaks]
    simp only [breaks_append, breaks_text, breaks_concat, spaced, clauseSum, breaks_body inBody,
      Nat.zero_add, Nat.add_zero]

/-- An expression has as many line breaks as are counted if its parts do. -/
theorem Expr.counted {e : Expr} (parts : ∀ part ∈ e.parts, part.node.Counted) :
    (Node.expression e).Counted := by
  intro o outlined
  cases outlined
  rw [Node.totalBreaks_eq, Node.lineBreaks, Node.parts]
  cases e with
  | string value => exact breaks_quoted value
  | call receiver name args =>
    have inReceiver := breaks_receiver fun x mem =>
      parts _ (List.mem_append_left _ (List.mem_map_of_mem (a := x) mem))
    have inArgs : ∀ a ∈ args, a.outline.breaks = (Node.argument a).totalBreaks :=
      fun a mem => parts _ (List.mem_append_right _ (List.mem_map_of_mem mem)) _ rfl
    rw [Expr.outline, Arg.outlines_eq_map, argsFit, breaks_append, breaks_append, breaks_text,
      breaks_items _ _ _ _ inArgs, inReceiver, Expr.parts, List.map_append, List.sum_append,
      List.map_map, List.map_map, Expr.lineBreaks]
    simp only [Function.comp_def, Placed.node_expression]
    omega
  | binary kind left op right =>
    have inLeft : left.outline.breaks = _ := parts _ List.mem_cons_self _ rfl
    have inRight : right.outline.breaks = _ :=
      parts _ (List.mem_cons_of_mem _ List.mem_cons_self) _ rfl
    simp [Expr.outline, Expr.lineBreaks, Expr.parts, inLeft, inRight]
  | comprehension body clauses =>
    have whole := Expr.counted_comprehension
      (fun x mem => parts _ (List.mem_append_left _ (List.mem_map_of_mem mem)))
      (fun c mem => parts _ (List.mem_append_right _ (List.mem_map_of_mem mem)))
    rw [whole, Expr.parts, List.map_append, List.sum_append, List.map_map, List.map_map]
    rfl
  | slice receiver bounds =>
    have inReceiver : receiver.outline.breaks = _ := parts _ List.mem_cons_self _ rfl
    simp [Expr.outline, Expr.lineBreaks, Expr.parts, inReceiver]
  | list items | tuple items =>
    have inItems : ∀ x ∈ items, x.outline.breaks = (Node.expression x).totalBreaks :=
      fun x mem => parts _ (List.mem_map_of_mem mem) _ rfl
    rw [Expr.outline, Expr.outlines_eq_map, itemsFit, breaks_items _ _ _ _ inItems, Expr.parts,
      List.map_map]
    rfl
  | dictionary entries =>
    have inEntries : ∀ e ∈ entries, e.outline.breaks =
        (e.parts.map fun x => (Node.expression x).totalBreaks).sum := fun e mem =>
      breaks_entry fun x memEntry =>
        parts _ (List.mem_map_of_mem (List.mem_flatMap.mpr ⟨e, mem, memEntry⟩))
    rw [Expr.outline, Entry.outlines_eq_map, entriesFit, breaks_items _ _ _ _ inEntries,
      Expr.parts, List.map_map, List.map_flatMap, sum_flatMap]
    rfl
  | _ => rfl

/-- So does a clause. -/
theorem Clause.counted {c : Clause} (parts : ∀ part ∈ c.parts, part.node.Counted) :
    (Node.clause c).Counted := by
  intro o outlined
  cases outlined
  rw [Node.totalBreaks_eq, Node.lineBreaks, Node.parts]
  cases c with
  | loop targets iterable =>
    have inTargets : ∀ x ∈ targets, x.outline.breaks = (Node.expression x).totalBreaks :=
      fun x mem => parts _ (List.mem_append_left _ (List.mem_map_of_mem mem)) _ rfl
    have inIterable : iterable.outline.breaks = _ :=
      parts _ (List.mem_append_right _ List.mem_cons_self) _ rfl
    rw [Clause.outline, Expr.outlines_eq_map, Clause.parts, List.map_append, List.map_map,
      List.sum_append]
    simp only [breaks_append, breaks_text, breaks_commaSeparated, sum_breaks inTargets, inIterable,
      Nat.zero_add, Nat.add_zero]
    rfl
  | guard condition =>
    have inCondition : condition.outline.breaks = _ := parts _ List.mem_cons_self _ rfl
    simp [Clause.outline, Clause.parts, inCondition]

/-- So does an argument. -/
theorem Arg.counted {a : Arg} (inValue : (Node.expression a.value).Counted) :
    (Node.argument a).Counted := by
  intro o outlined
  cases outlined
  obtain ⟨name, value⟩ := a
  have named : (argumentName name).breaks = 0 := by
    cases name with
    | none => rfl
    | some name =>
      rw [argumentName]
      split <;> rfl
  have valueBreaks : value.outline.breaks = _ := inValue _ rfl
  rw [Node.totalBreaks_eq, Node.lineBreaks, Node.parts]
  simp [Arg.outline, named, valueBreaks]

/-- So does a symbol. -/
theorem Symbol.counted (s : Symbol) : s.outline.breaks = (Node.symbol s).totalBreaks := by
  obtain ⟨name, localName⟩ := s
  rw [Node.totalBreaks_eq, Node.lineBreaks, Node.parts]
  cases localName <;> simp [Symbol.outline, breaks_quoted]

/-- A load without symbols is never formatted. Its outline is that of a stacked layout. -/
theorem Load.counted {l : Load} (some : l.symbols ≠ []) :
    l.outline.breaks = (Node.statement (.load l)).totalBreaks := by
  have inSymbols : ((l.symbols.map Symbol.outline).map breaks).sum =
      (l.symbols.map fun s => (Node.symbol s).totalBreaks).sum := sum_breaks fun s _ => s.counted
  have inBrackets : (if decide (l.symbols.length = 1) = true then 0
      else (quoted l.file :: l.symbols.map Symbol.outline).length + 1) =
        if 2 ≤ l.symbols.length then l.symbols.length + 2 else 0 := by
    have := List.length_pos_iff.mpr some
    simp only [decide_eq_true_eq, List.length_cons, List.length_map]
    split <;> split <;> omega
  rw [Node.totalBreaks_eq, Node.lineBreaks, Node.parts, Statement.parts, Load.outline,
    Load.lineBreaks, breaks_bracketed, List.map_cons, List.sum_cons, inSymbols, breaks_quoted,
    inBrackets, List.map_map, Nat.add_right_comm]
  rfl

end

/-- Nodes below statements bring the line breaks of their outlines. -/
theorem Node.counted (n : Node) : n.isStatement = false → n.Counted := by
  induction n using Node.induction with
  | step n ih =>
    intro inner
    have parts : ∀ part ∈ n.parts, part.node.Counted := by
      intro part mem
      refine ih part mem (Node.isStatement_of_mem_parts mem ?_)
      rintro f rfl
      cases inner
    cases n with
    | file f => cases inner
    | statement s => cases inner
    | expression e => exact Expr.counted parts
    | clause c => exact Clause.counted parts
    | argument a => exact Arg.counted (parts _ List.mem_cons_self)
    | symbol s =>
      intro o outlined
      cases outlined
      exact s.counted

/-- The outline of a node that can be formatted has the line breaks of its tree. -/
theorem Node.breaks_outline {n : Node} {o : Outline} (outlined : n.outline? = some o)
    {p : Nat} {mode : LineMode} (sound : (n.layout p mode).failure = none) :
    o.breaks = n.totalBreaks := by
  cases n with
  | file f => cases outlined
  | statement s =>
    cases s with
    | load imported =>
      cases outlined
      refine Load.counted fun none => ?_
      rw [Node.layout, Statement.layout, Load.layout, if_pos (List.isEmpty_iff.mpr none)] at sound
      cases sound
    | _ => cases outlined
  | _ => exact Node.counted _ rfl o outlined

/-! ## Counting in texts -/

namespace Style

/-- The text of a node has as many line breaks as the nodes of its tree bring together, at every
position and width of a level. So it is a single line exactly when none of them brings any. -/
theorem formatNode_count_newlines (style : Style) (node : Node) (position : Nat) (mode : LineMode)
    (multiline : mode = .newLine ∨ mode = .continueLine)
    (kind : node.isStatement = false ∨ ∃ imported, node = .statement (.load imported))
    (unbroken : node.HasUnbrokenNames) (text : String)
    (formatted : style.formatNode node position mode = .ok text) :
    text.toList.count '\n' = (node.preorder.map (·.node.lineBreaks)).sum ∧
      ('\n' ∉ text.toList ↔ ∀ placed ∈ node.preorder, placed.node.lineBreaks = 0) := by
  obtain ⟨outline, outlined⟩ := node.exists_outline kind
  have sound := formatNode_succeeds_iff.mp ⟨text, formatted⟩
  have several : mode ≠ .singleLine := by
    rcases multiline with rfl | rfl <;> exact LineMode.noConfusion
  have counted : text.toList.count '\n' = (node.preorder.map (·.node.lineBreaks)).sum := by
    have written := style.formatNode_eq sound
    have indented : (if mode = .newLine then List.replicate (style.indentWidth * position) ' '
        else []).count '\n' = 0 := by
      split <;> simp [List.count_replicate]
    rw [formatted, node.chars_layout outlined unbroken several sound] at written
    cases written
    rw [String.toList_ofList, List.count_append, indented, Nat.zero_add,
      Outline.count_chars (node.described unbroken outline outlined).unbroken,
      Node.breaks_outline outlined sound]
    rfl
  refine ⟨counted, ?_⟩
  rw [← List.count_eq_zero, counted, List.sum_eq_zero_iff, List.forall_mem_map]

/-- A call over several lines, with a block of text and a comprehension that is broken up by the
call in its body. The list inside stays on a line, although its item is not simple. -/
def brokenCall : Node :=
  .expression (.call none "f" [⟨none, .string "a\n\nb"⟩,
    ⟨some "xs", .comprehension (.element (.call none "g" []))
      [.loop [.reference ⟨"x", .any⟩] (.list [.dictionary [⟨.none, .boolean true⟩]])]⟩])

/-- Three line breaks from the call, four from the block of three lines, and three from the
comprehension. -/
theorem formatNode_count_newlines_brokenCall :
    brokenCall.isStatement = false ∧ brokenCall.HasUnbrokenNames ∧
      ∃ text, formatNode {} brokenCall 1 .newLine = .ok text ∧
        text.toList.count '\n' = 3 + 4 + 3 ∧ '\n' ∈ text.toList := by
  have unbroken : brokenCall.HasUnbrokenNames := by
    simp [brokenCall, Node.hasUnbrokenNames_iff (.expression _),
      Node.hasUnbrokenNames_iff (.argument _), Node.hasUnbrokenNames_iff (.clause _),
      Node.bareTexts, Expr.bareTexts, Node.parts, Expr.parts, Clause.parts, Body.parts, Entry.parts]
  have total : brokenCall.totalBreaks = 3 + 4 + 3 := by
    simp only [brokenCall, Node.totalBreaks_eq (.expression _), Node.totalBreaks_eq (.argument _),
      Node.totalBreaks_eq (.clause _), Node.parts, Expr.parts, Clause.parts, Body.parts,
      Entry.parts, Placed.node_expression, Option.toList, List.flatMap_cons, List.flatMap_nil,
      List.map_cons, List.map_nil, List.map_append]
    decide
  obtain ⟨text, formatted⟩ : ∃ text, formatNode {} brokenCall 1 .newLine = .ok text := ⟨_, rfl⟩
  obtain ⟨counted, single⟩ := formatNode_count_newlines {} brokenCall 1 .newLine (.inl rfl)
    (.inl rfl) unbroken text formatted
  refine ⟨rfl, unbroken, text, formatted, counted.trans total, ?_⟩
  by_contra only
  have noBreak := (Node.forall_mem_preorder (P := (·.lineBreaks = 0)).mp (single.mp only)).1
  exact absurd noBreak (by decide)

end Style

end StarlarkCode
