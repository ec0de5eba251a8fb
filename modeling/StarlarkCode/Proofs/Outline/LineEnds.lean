import StarlarkCode.Proofs.Outline.Nodes

/-!
# Where lines end

White space is written ahead of the text that it sets off: the space after a comma or before a
clause, the spaces around an operator, the indentation of a line. It ends no line if that text is
always there, on the same line, and does not end in white space itself.

An outline has ink when it starts with some text and no line of it ends in white space
(`Outline.Inked`). Other outlines, such as a comma with a space, only lead up to the next one; what
is asked of them is that ink after them gives ink (`Outline.Introduces`). Every outline of a node
has ink (`Node.inked`), provided that the texts which the node takes over leave no white space at
the end of a line.
-/

namespace StarlarkCode

/-! ## Texts -/

namespace Text

/-- The text is empty, or its last character is not white space. -/
def Trimmed (cs : List Char) : Prop :=
  ∀ c ∈ cs.getLast?, isWhiteSpace c = false

instance (cs : List Char) : Decidable (Trimmed cs) :=
  Option.decidableForallMem (p := fun c => isWhiteSpace c = false) cs.getLast?

/-- How a text ends does not depend on what stands before it. -/
theorem trimmed_append {cs : List Char} (some : cs ≠ []) (trimmed : Trimmed cs)
    (before : List Char) : Trimmed (before ++ cs) := by
  intro c last
  refine trimmed c ?_
  rw [List.getLast?_eq_some_getLast some]
  rwa [List.getLast?_append, List.getLast?_eq_some_getLast some, Option.some_or] at last

/-- Digits and the signs of numerals are no white space. -/
theorem not_isWhiteSpace_of_isNumeral {c : Char} (numeral : isNumeral c = true) :
    isWhiteSpace c = false := by
  simp only [isNumeral, Bool.or_eq_true, beq_iff_eq] at numeral
  rcases numeral with ((digit | rfl) | rfl) | rfl
  · have range : 48 ≤ c.toNat ∧ c.toNat ≤ 57 := Char.isDigit_iff_toNat.mp digit
    simp [isWhiteSpace, whiteSpaceRanges]
    omega
  · decide
  · decide
  · decide

/-- Numerals do not end in white space. -/
theorem Numeral.trimmed {cs : List Char} (numeral : Numeral cs) : Trimmed cs :=
  fun c last => not_isWhiteSpace_of_isNumeral (numeral c (List.mem_of_getLast? last))

/-- If the text has several lines, none of them ends in white space. -/
def BlockTrimmed (s : String) : Prop :=
  2 ≤ (lines s).length → ∀ line ∈ lines s, Trimmed line.toList

instance (s : String) : Decidable (BlockTrimmed s) :=
  inferInstanceAs (Decidable (_ → _))

end Text

/-- Float literals do not end in white space. -/
theorem Binary64.literal_trimmed (x : Binary64) :
    x.literal.toList ≠ [] ∧ Text.Trimmed x.literal.toList := by
  unfold literal
  split
  · have some := Text.decimal_ne_nil x.decimal
    rw [String.toList_append]
    exact ⟨List.append_ne_nil_of_right_ne_nil _ some,
      Text.trimmed_append some (Text.numeral_decimal x.decimal).trimmed _⟩
  · split
    · decide
    · split <;> decide

/-! ## Outlines -/

namespace Outline

variable {a b : Outline}

/-- The outline starts with some text, and none of its lines ends in white space. -/
structure Inked (o : Outline) : Prop where
  start : o.first ≠ []
  first : Text.Trimmed o.first
  rest : ∀ line ∈ o.rest, Text.Trimmed line.text

/-- Together with an outline that has ink, the outline has ink. -/
def Introduces (o : Outline) : Prop :=
  ∀ next : Outline, next.Inked → (o ++ next).Inked

/-- Putting outlines together is associative. -/
theorem append_assoc (a b c : Outline) : a ++ b ++ c = a ++ (b ++ c) := by
  -- Text in front of the first line stays there, whatever is added at the end.
  have ofFirst : ∀ (before first : List Char) (lines : List Line),
      extend c (before ++ first) lines =
        ⟨before ++ (extend c first lines).first, (extend c first lines).rest⟩ := by
    intro before first lines
    cases lines <;> simp [extend]
  have general : ∀ first lines,
      extend c (extend b first lines).first (extend b first lines).rest =
        extend (extend c b.first b.rest) first lines := by
    intro first lines
    induction lines generalizing first with
    | nil => exact ofFirst first b.first b.rest
    | cons line lines ih =>
      have tail := ih line.text
      simp only [extend, tail]
  exact general a.first a.rest

/-- A text that does not end in white space has ink. -/
theorem inked_text {s : String} (some : s.toList ≠ []) (trimmed : Text.Trimmed s.toList) :
    (text s).Inked :=
  ⟨some, trimmed, fun _ mem => absurd mem List.not_mem_nil⟩

/-- Any text may stand before something with ink, also one that ends in a space. -/
theorem introduces_text (s : String) : (text s).Introduces := by
  intro next inked
  exact ⟨List.append_ne_nil_of_right_ne_nil _ inked.start,
    Text.trimmed_append inked.start inked.first _, inked.rest⟩

theorem introduces_empty : empty.Introduces :=
  fun _ inked => inked

/-- Where two outlines meet, the line ends with text of the second. -/
theorem Inked.introduces (inked : a.Inked) : a.Introduces := by
  intro next inkedNext
  -- The induction goes down to the last line of the first outline, the only one that changes.
  have general : ∀ first lines, Text.Trimmed first → (∀ line ∈ lines, Text.Trimmed line.text) →
      Text.Trimmed (extend next first lines).first ∧
        ∀ line ∈ (extend next first lines).rest, Text.Trimmed line.text := by
    intro first lines trimmed others
    induction lines generalizing first with
    | nil => exact ⟨Text.trimmed_append inkedNext.start inkedNext.first first, inkedNext.rest⟩
    | cons line lines ih =>
      obtain ⟨second, more⟩ := List.forall_mem_cons.mp others
      exact ⟨trimmed, List.forall_mem_cons.mpr (ih line.text second more)⟩
  obtain ⟨first, rest⟩ := general a.first a.rest inked.first inked.rest
  exact ⟨first_append_ne_nil inked.start next, first, rest⟩

/-- What may stand before something with ink may do so one after the other. -/
theorem Introduces.append (introduces : a.Introduces) (next : b.Introduces) :
    (a ++ b).Introduces := by
  intro last inked
  rw [append_assoc]
  exact introduces _ (next last inked)

/-- Items on one line may stand before something with ink: the spaces between them are followed by
an item. -/
theorem introduces_commaSeparated {parts : List Outline} (inked : ∀ part ∈ parts, part.Inked) :
    (commaSeparated parts).Introduces := by
  induction parts with
  | nil => exact introduces_empty
  | cons part parts ih =>
    obtain ⟨first, others⟩ := List.forall_mem_cons.mp inked
    cases parts with
    | nil => exact first.introduces
    | cons next parts => exact (first.introduces.append (introduces_text ", ")).append (ih others)

/-- The same for outlines in a row. -/
theorem introduces_concat {parts : List Outline} (introduces : ∀ part ∈ parts, part.Introduces) :
    (concat parts).Introduces := by
  induction parts with
  | nil => exact introduces_empty
  | cons part parts ih =>
    obtain ⟨first, others⟩ := List.forall_mem_cons.mp introduces
    exact first.append (ih others)

/-- Lines between an opening and a closing text have ink if none of them ends in white space. -/
theorem inked_closed {opening closing : String} {lines : List Line}
    (opens : opening.toList ≠ [] ∧ Text.Trimmed opening.toList)
    (closes : Text.Trimmed closing.toList) (trimmed : ∀ line ∈ lines, Text.Trimmed line.text) :
    (⟨opening.toList, lines ++ [⟨[], closing.toList⟩]⟩ : Outline).Inked := by
  refine ⟨opens.1, opens.2, fun line mem => ?_⟩
  rcases List.mem_append.mp mem with mem | mem
  · exact trimmed line mem
  · rw [List.mem_singleton.mp mem]
    exact closes

/-- Parts on lines of their own have ink if all of them do. -/
theorem inked_stacked (construct : Construct) {opening closing : String} {parts : List Outline}
    (opens : opening.toList ≠ [] ∧ Text.Trimmed opening.toList)
    (closes : Text.Trimmed closing.toList) (inked : ∀ part ∈ parts, part.Inked) :
    (stacked construct opening closing parts).Inked := by
  refine inked_closed opens closes fun line mem => ?_
  obtain ⟨part, memParts, memLines⟩ := List.mem_flatMap.mp mem
  obtain ⟨inner, memPart, rfl⟩ := List.mem_map.mp memLines
  rcases List.mem_cons.mp memPart with rfl | memRest
  · exact (inked part memParts).first
  · exact (inked part memParts).rest inner memRest

/-- Items between brackets have ink if all of them do, on one line or stacked. -/
theorem inked_bracketed (construct : Construct) {opening closing : String} (fits : Bool)
    {items : List Outline} (opens : opening.toList ≠ [] ∧ Text.Trimmed opening.toList)
    (closes : closing.toList ≠ [] ∧ Text.Trimmed closing.toList)
    (inked : ∀ item ∈ items, item.Inked) :
    (bracketed construct opening closing fits items).Inked := by
  cases fits with
  | true =>
    exact ((introduces_text opening).append (introduces_commaSeparated inked)) _
      (inked_text closes.1 closes.2)
  | false =>
    refine inked_stacked construct opens closes.2 (List.forall_mem_map.mpr fun item mem => ?_)
    exact (inked item mem).introduces _ (inked_text (by decide) (by decide))

/-- A string literal has ink if it is on one line or no line of its block ends in white space. -/
theorem inked_quoted {value : String} (trimmed : Text.BlockTrimmed value) :
    (quoted value).Inked := by
  unfold quoted
  split
  next =>
    exact ((introduces_text "\"").append (introduces_text value)) _
      (inked_text (by decide) (by decide))
  next several =>
    have each := trimmed (Text.two_le_length_lines several)
    exact inked_closed (by decide) (by decide) (List.forall_mem_map.mpr each)

/-- The name of an argument, with the space behind its sign, may stand before a value. -/
theorem introduces_argumentName (name : Option String) : (argumentName name).Introduces := by
  cases name with
  | none => exact introduces_empty
  | some name =>
    rw [argumentName]
    split
    · exact introduces_empty
    · exact (introduces_text name).append (introduces_text " = ")

end Outline

/-! ## Nodes -/

/-- The texts that a node itself takes over end no line in white space. A reference and a raw text
stand where they are; the other names have something after them. -/
def Node.TextsTrimmed : Node → Prop
  | .expression (.reference target) => target.name ≠ "" ∧ Text.Trimmed target.name.toList
  | .expression (.raw s) => s ≠ "" ∧ Text.Trimmed s.toList
  | .expression (.string value) => Text.BlockTrimmed value
  | .symbol s => Text.BlockTrimmed s.name
  | .statement (.load imported) => Text.BlockTrimmed imported.file
  | .statement (.raw s) | .statement (.comment s) => ∀ line ∈ Text.lines s, Text.Trimmed line.toList
  | _ => True

/-- No text in the tree of a node ends a line in white space. -/
def Node.HasTrimmedTexts (n : Node) : Prop :=
  ∀ placed ∈ n.preorder, placed.node.TextsTrimmed

/-- The texts of a tree are trimmed when those of the node and of its parts are. -/
theorem Node.hasTrimmedTexts_iff (n : Node) :
    n.HasTrimmedTexts ↔ n.TextsTrimmed ∧ ∀ part ∈ n.parts, part.node.HasTrimmedTexts :=
  Node.forall_mem_preorder

/-- The outline of a node, if it has one, has ink. -/
def Node.Inked (n : Node) : Prop :=
  ∀ o, n.outline? = some o → o.Inked

section

open Outline

/-- An entry has ink if its expressions do. -/
theorem Entry.inked {e : Entry} (parts : ∀ x ∈ e.parts, (Node.expression x).Inked) :
    e.outline.Inked := by
  obtain ⟨key, value⟩ := e
  have inKey : key.outline.Inked := parts key List.mem_cons_self _ rfl
  have inValue : value.outline.Inked :=
    parts value (List.mem_cons_of_mem _ List.mem_cons_self) _ rfl
  exact (inKey.introduces.append (introduces_text ": ")) _ inValue

/-- A comprehension's body has ink if its expressions do. -/
theorem Body.inked {b : Body} (parts : ∀ x ∈ b.parts, (Node.expression x).Inked) :
    b.outline.Inked := by
  cases b with
  | element value => exact parts value List.mem_cons_self _ rfl
  | entry e => exact Entry.inked parts

/-- A receiver with its point may stand before a name. -/
theorem Expr.introduces_receiver {receiver : Option Expr}
    (inked : ∀ x ∈ receiver.toList, (Node.expression x).Inked) :
    (Expr.receiverOutline receiver).Introduces := by
  cases receiver with
  | none => exact introduces_empty
  | some receiver =>
    have inReceiver : receiver.outline.Inked := inked receiver List.mem_cons_self _ rfl
    exact inReceiver.introduces.append (introduces_text ".")

/-- A comprehension has ink if its body and clauses do. -/
theorem Expr.inked_comprehension {body : Body} {clauses : List Clause}
    (inBody : ∀ x ∈ body.parts, (Node.expression x).Inked)
    (inClauses : ∀ c ∈ clauses, (Node.clause c).Inked) :
    (Expr.comprehension body clauses).outline.Inked := by
  have bodyInked := Body.inked inBody
  have clausesInked : ∀ o ∈ clauses.map Clause.outline, o.Inked :=
    List.forall_mem_map.mpr fun c mem => inClauses c mem _ rfl
  have opens : body.kind.opening.toList ≠ [] ∧ Text.Trimmed body.kind.opening.toList := by
    cases body.kind <;> decide
  have closes : body.kind.closing.toList ≠ [] ∧ Text.Trimmed body.kind.closing.toList := by
    cases body.kind <;> decide
  rw [Expr.outline, Clause.outlines_eq_map]
  split
  · exact inked_stacked _ opens closes.2 (List.forall_mem_cons.mpr ⟨bodyInked, clausesInked⟩)
  · have spaced : (concat ((clauses.map Clause.outline).map (text " " ++ ·))).Introduces :=
      introduces_concat (List.forall_mem_map.mpr fun o mem =>
        (introduces_text " ").append (clausesInked o mem).introduces)
    exact (((introduces_text _).append bodyInked.introduces).append spaced) _
      (inked_text closes.1 closes.2)

/-- An expression with trimmed texts has ink if its parts do. -/
theorem Expr.inked {e : Expr} (texts : (Node.expression e).TextsTrimmed)
    (parts : ∀ part ∈ e.parts, part.node.Inked) : (Node.expression e).Inked := by
  intro o outlined
  cases outlined
  cases e with
  | string value => exact inked_quoted texts
  | integer value =>
    exact inked_text (Text.ofInt_ne_nil value.toInt) (Text.numeral_ofInt value.toInt).trimmed
  | float value => exact inked_text value.literal_trimmed.1 value.literal_trimmed.2
  | boolean value => cases value <;> exact inked_text (by decide) (by decide)
  | none => exact inked_text (by decide) (by decide)
  | reference target => exact inked_text (mt String.toList_eq_nil_iff.mp texts.1) texts.2
  | call receiver name args =>
    have inReceiver := Expr.introduces_receiver fun x mem =>
      parts _ (List.mem_append_left _ (List.mem_map_of_mem (a := x) mem))
    have inArgs : ∀ o ∈ args.map Arg.outline, o.Inked := List.forall_mem_map.mpr fun a mem =>
      parts _ (List.mem_append_right _ (List.mem_map_of_mem mem)) _ rfl
    rw [Expr.outline, Arg.outlines_eq_map]
    exact (inReceiver.append (introduces_text name)) _
      (inked_bracketed _ _ (by decide) (by decide) inArgs)
  | binary kind left op right =>
    have inLeft : left.outline.Inked := parts _ List.mem_cons_self _ rfl
    have inRight : right.outline.Inked :=
      parts _ (List.mem_cons_of_mem _ List.mem_cons_self) _ rfl
    exact (inLeft.introduces.append (introduces_text _)) _ inRight
  | comprehension body clauses =>
    exact Expr.inked_comprehension
      (fun x mem => parts _ (List.mem_append_left _ (List.mem_map_of_mem mem)))
      (fun c mem => parts _ (List.mem_append_right _ (List.mem_map_of_mem mem)))
  | slice receiver bounds =>
    have inReceiver : receiver.outline.Inked := parts _ List.mem_cons_self _ rfl
    have bracket : Text.Trimmed ("[" ++ bounds.text ++ "]").toList := by
      rw [String.toList_append]
      exact Text.trimmed_append (by decide) (by decide) _
    exact inReceiver.introduces _ (inked_text (by simp) bracket)
  | list items =>
    have inItems : ∀ o ∈ items.map Expr.outline, o.Inked := List.forall_mem_map.mpr fun x mem =>
      parts _ (List.mem_map_of_mem mem) _ rfl
    rw [Expr.outline, Expr.outlines_eq_map]
    exact inked_bracketed _ _ (by decide) (by decide) inItems
  | tuple items =>
    have inItems : ∀ o ∈ items.map Expr.outline, o.Inked := List.forall_mem_map.mpr fun x mem =>
      parts _ (List.mem_map_of_mem mem) _ rfl
    rw [Expr.outline, Expr.outlines_eq_map]
    refine inked_bracketed _ _ (by decide) ?_ inItems
    split <;> decide
  | dictionary entries =>
    have inEntries : ∀ o ∈ entries.map Entry.outline, o.Inked :=
      List.forall_mem_map.mpr fun e mem => Entry.inked fun x memEntry =>
        parts _ (List.mem_map_of_mem (List.mem_flatMap.mpr ⟨e, mem, memEntry⟩))
    rw [Expr.outline, Entry.outlines_eq_map]
    exact inked_bracketed _ _ (by decide) (by decide) inEntries
  | raw s => exact inked_text (mt String.toList_eq_nil_iff.mp texts.1) texts.2

/-- A clause has ink if its parts do. -/
theorem Clause.inked {c : Clause} (parts : ∀ part ∈ c.parts, part.node.Inked) :
    (Node.clause c).Inked := by
  intro o outlined
  cases outlined
  cases c with
  | loop targets iterable =>
    have inTargets : ∀ o ∈ targets.map Expr.outline, o.Inked :=
      List.forall_mem_map.mpr fun x mem =>
        parts _ (List.mem_append_left _ (List.mem_map_of_mem mem)) _ rfl
    have inIterable : iterable.outline.Inked :=
      parts _ (List.mem_append_right _ List.mem_cons_self) _ rfl
    rw [Clause.outline, Expr.outlines_eq_map]
    exact (((introduces_text "for ").append (introduces_commaSeparated inTargets)).append
      (introduces_text " in ")) _ inIterable
  | guard condition => exact introduces_text "if " _ (parts _ List.mem_cons_self _ rfl)

/-- A symbol with a trimmed name has ink. -/
theorem Symbol.inked {s : Symbol} (texts : Text.BlockTrimmed s.name) : s.outline.Inked := by
  obtain ⟨name, localName⟩ := s
  cases localName with
  | none => exact introduces_empty _ (inked_quoted texts)
  | some localName =>
    exact ((introduces_text localName).append (introduces_text " = ")) _ (inked_quoted texts)

end

/-- No outline of a node leaves white space at the end of a line. -/
theorem Node.inked (n : Node) : n.HasTrimmedTexts → n.Inked := by
  induction n using Node.induction with
  | step n ih =>
    intro trimmed
    obtain ⟨texts, inner⟩ := n.hasTrimmedTexts_iff.mp trimmed
    have parts : ∀ part ∈ n.parts, part.node.Inked := fun part mem => ih part mem (inner part mem)
    cases n with
    | file f => exact fun o outlined => by cases outlined
    | statement s =>
      intro o outlined
      cases s with
      | load imported =>
        cases outlined
        refine Outline.inked_bracketed _ _ (by decide) (by decide)
          (List.forall_mem_cons.mpr ⟨Outline.inked_quoted texts, ?_⟩)
        exact List.forall_mem_map.mpr fun s mem => parts _ (List.mem_map_of_mem mem) _ rfl
      | _ => cases outlined
    | expression e => exact Expr.inked texts parts
    | clause c => exact Clause.inked parts
    | argument a =>
      intro o outlined
      cases outlined
      obtain ⟨name, value⟩ := a
      exact Outline.introduces_argumentName name _ (parts _ List.mem_cons_self _ rfl)
    | symbol s =>
      intro o outlined
      cases outlined
      exact Symbol.inked texts

end StarlarkCode
