import StarlarkCode.Proofs.Brackets

/-!
# Content

What a text says, apart from how it is laid out. `Expr.flat` writes an expression without a thought
for lines: its parts in order, a comma between items, no spaces. Formatted text is this with spaces,
line breaks and trailing commas put in, so that no choice of layout adds, drops or moves anything
else.

White space is taken out of a text character by character. Commas are not, since whether one stays
depends on what comes after it: `Layout.Carries` therefore speaks of a text together with anything
that may follow.
-/

namespace StarlarkCode

/-! ## Taking the layout out of a text -/

namespace Text

open Brackets (isOpening partner?)

/-- A character that is not there for the layout alone. -/
def isVisible (c : Char) : Bool :=
  c != ' ' && c != '\n'

/-- One of the three closing brackets. -/
def isClosing (c : Char) : Bool :=
  (partner? c).isSome

/-- The characters without the commas directly before a closing bracket. -/
def dropTrailingCommas : List Char → List Char
  | [] => []
  | c :: cs =>
    if c = ',' ∧ cs.head?.any isClosing then dropTrailingCommas cs else c :: dropTrailingCommas cs

/-- A text without spaces and line breaks, and then without the commas before closing brackets. -/
def content (cs : List Char) : List Char :=
  dropTrailingCommas (cs.filter isVisible)

/-- Items with commas between them. -/
def joined (items : List (List Char)) : List Char :=
  [','].intercalate items

/-- A text that starts with something else than a closing bracket. -/
def StartsOpen (cs : List Char) : Prop :=
  ∃ c ∈ cs.head?, isClosing c = false

/-- There are three closing brackets. -/
theorem eq_of_isClosing {c : Char} (closes : isClosing c = true) :
    c = ')' ∨ c = ']' ∨ c = '\x7d' := by
  unfold isClosing partner? at closes
  split at closes <;> simp_all

theorem isVisible_of_isClosing {c : Char} (closes : isClosing c = true) : isVisible c = true := by
  rcases eq_of_isClosing closes with rfl | rfl | rfl <;> rfl

/-- What starts open starts open with more behind it. -/
theorem StartsOpen.append {cs : List Char} (starts : StartsOpen cs) (more : List Char) :
    StartsOpen (cs ++ more) := by
  obtain ⟨c, first, opens⟩ := starts
  exact ⟨c, by rw [List.head?_append, first]; rfl, opens⟩

/-- A text starts open if its first character closes nothing. -/
theorem startsOpen_cons {c : Char} (opens : isClosing c = false) (cs : List Char) :
    StartsOpen (c :: cs) :=
  ⟨c, rfl, opens⟩

/-- Only commas are dropped. -/
theorem dropTrailingCommas_cons_of_ne {c : Char} (other : c ≠ ',') (cs : List Char) :
    dropTrailingCommas (c :: cs) = c :: dropTrailingCommas cs :=
  if_neg fun comma => other comma.1

/-- A text without commas in it is passed by. -/
theorem dropTrailingCommas_append {cs : List Char} (none : ',' ∉ cs) (rest : List Char) :
    dropTrailingCommas (cs ++ rest) = cs ++ dropTrailingCommas rest := by
  induction cs with
  | nil => rfl
  | cons c cs ih =>
    rw [List.mem_cons, not_or] at none
    rw [List.cons_append, dropTrailingCommas_cons_of_ne (Ne.symm none.1), ih none.2,
      List.cons_append]

/-- A closing bracket is kept. -/
theorem dropTrailingCommas_closing {c : Char} (closes : isClosing c = true) (cs : List Char) :
    dropTrailingCommas (c :: cs) = c :: dropTrailingCommas cs := by
  refine dropTrailingCommas_cons_of_ne ?_ cs
  rintro rfl
  cases closes

/-- A comma in front of a closing bracket is dropped. -/
theorem dropTrailingCommas_comma_closing {c : Char} (closes : isClosing c = true) (cs : List Char) :
    dropTrailingCommas (',' :: c :: cs) = dropTrailingCommas (c :: cs) :=
  if_pos ⟨rfl, closes⟩

/-- A comma stays in front of a text that starts with something else than a closing bracket, even if
some commas of that text are dropped in turn. -/
theorem dropTrailingCommas_comma {cs : List Char} (starts : StartsOpen (dropTrailingCommas cs)) :
    dropTrailingCommas (',' :: cs) = ',' :: dropTrailingCommas cs := by
  refine if_neg fun ⟨_, closes⟩ => ?_
  cases cs with
  | nil => cases closes
  | cons c cs =>
    have closing : isClosing c = true := closes
    obtain ⟨d, first, opens⟩ := starts
    rw [dropTrailingCommas_closing closing] at first
    cases first
    rw [closing] at opens
    cases opens

/-- Characters that all stay when the layout is taken out. -/
def Solid (cs : List Char) : Prop :=
  ∀ c ∈ cs, isVisible c = true ∧ c ≠ ','

instance (cs : List Char) : Decidable (Solid cs) :=
  Text.decidableForall cs

theorem Solid.append {a b : List Char} (first : Solid a) (next : Solid b) : Solid (a ++ b) :=
  fun c mem => (List.mem_append.mp mem).elim (first c) (next c)

/-- There is a comma between two items. -/
theorem joined_cons_cons (a b : List Char) (items : List (List Char)) :
    joined (a :: b :: items) = a ++ ',' :: joined (b :: items) := by
  rw [joined, List.intercalate_cons_cons, List.append_assoc]
  rfl

/-- Items in a row start as the first of them does. -/
theorem startsOpen_joined {a : List Char} (starts : StartsOpen a) (items : List (List Char)) :
    StartsOpen (joined (a :: items)) := by
  cases items with
  | nil =>
    rw [joined, List.intercalate_singleton]
    exact starts
  | cons b items =>
    rw [joined_cons_cons]
    exact starts.append _

end Text

open Text

/-! ## Flat texts -/

mutual

/-- An expression without layout. -/
def Expr.flat : Expr → List Char
  | .string value => '"' :: (value.toList ++ ['"'])
  | .integer value => (Text.ofInt value.toInt).toList
  | .float value => value.literal.toList
  | .boolean value => (if value then "True" else "False").toList
  | .none => "None".toList
  | .reference target => target.name.toList
  | .call receiver name args =>
    Expr.receiverFlat receiver ++ name.toList ++ ('(' :: (joined (Arg.flats args) ++ [')']))
  | .binary _ left op right => left.flat ++ op.text.toList ++ right.flat
  | .comprehension body clauses =>
    body.kind.opening.toList ++ (body.flat ++ (Clause.flats clauses).flatten)
      ++ body.kind.closing.toList
  | .slice receiver bounds => receiver.flat ++ '[' :: (bounds.text.toList ++ [']'])
  | .list items => '[' :: (joined (Expr.flats items) ++ [']'])
  | .tuple items => '(' :: (joined (Expr.flats items) ++ [')'])
  | .dictionary entries => '\x7b' :: (joined (Entry.flats entries) ++ ['\x7d'])
  | .raw s => s.toList

/-- A receiver with the point after it. -/
def Expr.receiverFlat : Option Expr → List Char
  | Option.none => []
  | some receiver => receiver.flat ++ ['.']

def Expr.flats : List Expr → List (List Char)
  | [] => []
  | e :: es => e.flat :: Expr.flats es

/-- An argument without layout; a blank name is left out. -/
def Arg.flat : Arg → List Char
  | ⟨some name, value⟩ =>
    if Text.isBlank name then value.flat else name.toList ++ '=' :: value.flat
  | ⟨Option.none, value⟩ => value.flat

def Arg.flats : List Arg → List (List Char)
  | [] => []
  | a :: as => a.flat :: Arg.flats as

/-- An entry without layout. -/
def Entry.flat : Entry → List Char
  | ⟨key, value⟩ => key.flat ++ ':' :: value.flat

def Entry.flats : List Entry → List (List Char)
  | [] => []
  | e :: es => e.flat :: Entry.flats es

/-- A comprehension's body without layout. -/
def Body.flat : Body → List Char
  | .element value => value.flat
  | .entry e => e.flat

/-- A clause without layout. -/
def Clause.flat : Clause → List Char
  | .loop targets iterable =>
    "for".toList ++ joined (Expr.flats targets) ++ "in".toList ++ iterable.flat
  | .guard condition => "if".toList ++ condition.flat

def Clause.flats : List Clause → List (List Char)
  | [] => []
  | c :: cs => c.flat :: Clause.flats cs

end

theorem Expr.flats_eq_map (es : List Expr) : Expr.flats es = es.map Expr.flat := by
  induction es with
  | nil => rfl
  | cons e es ih => rw [Expr.flats, ih, List.map_cons]

theorem Arg.flats_eq_map (as : List Arg) : Arg.flats as = as.map Arg.flat := by
  induction as with
  | nil => rfl
  | cons a as ih => rw [Arg.flats, ih, List.map_cons]

theorem Entry.flats_eq_map (es : List Entry) : Entry.flats es = es.map Entry.flat := by
  induction es with
  | nil => rfl
  | cons e es ih => rw [Entry.flats, ih, List.map_cons]

theorem Clause.flats_eq_map (cs : List Clause) : Clause.flats cs = cs.map Clause.flat := by
  induction cs with
  | nil => rfl
  | cons c cs ih => rw [Clause.flats, ih, List.map_cons]

/-! ## Layouts that carry a content -/

namespace Layout

/-- The layout, if it has no failure, says this and nothing else, whatever stands after it. -/
def Carries (width : Nat) (l : Layout) (said : List Char) : Prop :=
  l.failure = none → ∀ rest,
    dropTrailingCommas ((l.chars width).filter isVisible ++ rest) = said ++ dropTrailingCommas rest

section

variable {width : Nat} {a b l : Layout} {said saidFirst saidNext : List Char}

/-- What a layout says is read off its text alone. -/
theorem SameText.carries (same : a.SameText b) (h : b.Carries width said) :
    a.Carries width said := by
  intro sound rest
  rw [same.1] at sound
  rw [same.2]
  exact h sound rest

theorem carries_empty : empty.Carries width [] := fun _ _ => rfl

/-- A failed layout may be said to say anything. -/
theorem carries_fail (e : LayoutError) (said : List Char) : (fail e).Carries width said := by
  intro sound
  cases sound

/-- A line break says nothing. -/
theorem carries_newline : newline.Carries width [] := fun _ _ => rfl

/-- An indentation says nothing. -/
theorem carries_indent (level : Nat) : (indent level).Carries width [] := by
  intro _ rest
  have spaces : (List.replicate (width * level) ' ').filter isVisible = [] := by
    rw [List.filter_replicate_of_neg (by decide)]
  rw [chars_indent, spaces]
  rfl

/-- A text without commas says what is visible of it. -/
theorem carries_text (s : String) (none : ',' ∉ s.toList) :
    (text s).Carries width (s.toList.filter isVisible) := by
  intro _ rest
  rw [chars_text]
  exact dropTrailingCommas_append (fun mem => none (List.mem_filter.mp mem).1) rest

/-- A text of visible characters without commas says itself. -/
theorem carries_solid {s : String} (solid : Solid s.toList) : (text s).Carries width s.toList := by
  have visible : s.toList.filter isVisible = s.toList :=
    List.filter_eq_self.mpr fun c mem => (solid c mem).1
  have carries : (text s).Carries width (s.toList.filter isVisible) :=
    carries_text s fun mem => (solid ',' mem).2 rfl
  rw [visible] at carries
  exact carries

/-- What two layouts say is said one after the other. -/
theorem Carries.append (first : a.Carries width saidFirst) (next : b.Carries width saidNext) :
    (a ++ b).Carries width (saidFirst ++ saidNext) := by
  intro sound rest
  rw [failure_append, Option.or_eq_none_iff] at sound
  rw [chars_append sound.1, List.filter_append, List.append_assoc, first sound.1, next sound.2,
    List.append_assoc]

/-- What stands before a node says nothing, in any line mode. -/
theorem carries_lead (construct : Construct) (position : Nat) (mode : LineMode) :
    (lead construct position mode).Carries width [] := by
  cases mode with
  | newLine => exact carries_indent position
  | continueLine => exact carries_empty
  | singleLine => exact carries_fail _ []

theorem carries_refuseSingleLine (construct : Construct) (position : Nat) (mode : LineMode) :
    (refuseSingleLine construct position mode).Carries width [] := by
  cases mode with
  | singleLine => exact carries_fail _ []
  | _ => exact carries_empty

/-- A comma in front of an item is kept. -/
theorem Carries.comma (carries : l.Carries width said) (starts : StartsOpen said)
    {separator : Layout} (sound : separator.failure = none)
    (visible : (separator.chars width).filter isVisible = [',']) :
    (separator ++ l).Carries width (',' :: said) := by
  intro soundBoth rest
  have soundItem : l.failure = none := by simpa [sound] using soundBoth
  have item := carries soundItem rest
  have stays : StartsOpen (dropTrailingCommas ((l.chars width).filter isVisible ++ rest)) := by
    rw [item]
    exact starts.append _
  rw [chars_append sound, List.filter_append, visible, List.append_assoc, List.singleton_append,
    dropTrailingCommas_comma stays, item, List.cons_append]

/-- Of an indented closing bracket the bracket is visible. -/
private theorem visible_closing {closing : String} {bracket : Char}
    (single : closing.toList = [bracket]) (closes : isClosing bracket = true) (position : Nat) :
    ((indent position ++ text closing).chars width).filter isVisible = [bracket] := by
  rw [chars_append rfl, chars_indent, chars_text, single, List.filter_append,
    List.filter_replicate_of_neg (by decide),
    List.filter_cons_of_pos (isVisible_of_isClosing closes)]
  rfl

/-- The closing bracket of stacked items. -/
theorem carries_closing {closing : String} {bracket : Char} (single : closing.toList = [bracket])
    (closes : isClosing bracket = true) (position : Nat) :
    (indent position ++ text closing).Carries width [bracket] := by
  intro _ rest
  rw [visible_closing single closes]
  exact dropTrailingCommas_closing closes rest

/-- The comma in front of the closing bracket of stacked items is dropped. -/
theorem carries_trailing {closing : String} {bracket : Char} (single : closing.toList = [bracket])
    (closes : isClosing bracket = true) (position : Nat) :
    (text "," ++ newline ++ (indent position ++ text closing)).Carries width [bracket] := by
  intro _ rest
  rw [chars_append rfl, List.filter_append, visible_closing single closes]
  show dropTrailingCommas (',' :: bracket :: rest) = bracket :: dropTrailingCommas rest
  rw [dropTrailingCommas_comma_closing closes, dropTrailingCommas_closing closes]

section

variable {α : Type} {xs : List α} {layout : α → Layout} {content : α → List Char}

/-- Layouts in a row say what they say in a row. -/
theorem carries_concat (carries : ∀ x ∈ xs, (layout x).Carries width (content x)) :
    (concat (xs.map layout)).Carries width (xs.map content).flatten := by
  induction xs with
  | nil => exact carries_empty
  | cons x xs ih =>
    have first := carries x List.mem_cons_self
    exact first.append (ih fun y mem => carries y (List.mem_cons_of_mem x mem))

/-- Items on one line are said with commas between them; none of these commas is dropped, because no
item starts with a closing bracket. -/
theorem carries_commaSeparated
    (carries : ∀ x ∈ xs, (layout x).Carries width (content x) ∧ StartsOpen (content x)) :
    (commaSeparated (xs.map layout)).Carries width (joined (xs.map content)) := by
  induction xs with
  | nil => exact carries_empty
  | cons x xs ih =>
    obtain ⟨first, -⟩ := carries x List.mem_cons_self
    have others := ih fun y mem => carries y (List.mem_cons_of_mem x mem)
    cases xs with
    | nil =>
      rw [List.map_singleton, List.map_singleton, joined, List.intercalate_singleton]
      exact first
    | cons y ys =>
      have starts := (carries y (List.mem_cons_of_mem x List.mem_cons_self)).2
      have next := others.comma (startsOpen_joined starts _) (failure_text ", ") rfl
      show (layout x ++ text ", " ++ commaSeparated ((y :: ys).map layout)).Carries width _
      have items : joined ((x :: y :: ys).map content) =
          content x ++ ',' :: joined ((y :: ys).map content) := joined_cons_cons _ _ _
      rw [append_assoc, items]
      exact first.append next

/-- Stacked items and the closing bracket after them. The comma after the last item is dropped. -/
theorem carries_stack {closing : String} {bracket : Char} (single : closing.toList = [bracket])
    (closes : isClosing bracket = true) (position : Nat)
    (carries : ∀ x ∈ xs, (layout x).Carries width (content x) ∧ StartsOpen (content x)) :
    (concat ((xs.map layout).map (· ++ text "," ++ newline))
        ++ (indent position ++ text closing)).Carries width
      (joined (xs.map content) ++ [bracket]) := by
  induction xs with
  | nil => exact carries_closing single closes position
  | cons x xs ih =>
    obtain ⟨first, -⟩ := carries x List.mem_cons_self
    have others := ih fun y mem => carries y (List.mem_cons_of_mem x mem)
    rw [List.map_cons, List.map_cons, concat, List.foldr_cons, ← concat, append_assoc,
      append_assoc (layout x), append_assoc (layout x)]
    cases xs with
    | nil =>
      rw [List.map_singleton, joined, List.intercalate_singleton]
      exact first.append (carries_trailing single closes position)
    | cons y ys =>
      have starts := (carries y (List.mem_cons_of_mem x List.mem_cons_self)).2
      have more := (startsOpen_joined starts (ys.map content)).append [bracket]
      have next := others.comma more (failure_append (text ",") newline) rfl
      have items : joined ((x :: y :: ys).map content) =
          content x ++ ',' :: joined ((y :: ys).map content) := joined_cons_cons _ _ _
      rw [items, List.append_assoc]
      exact first.append next

end

/-- Items between brackets. The closing text may have a comma in it where the items stay on one
line. -/
theorem carries_bracketed {α : Type} {xs : List α} {layout : α → Nat → LineMode → Layout}
    {content : α → List Char} {opening closing : String} {opener bracket : Char} {fits : Bool}
    (position : Nat) (opens : (text opening).Carries width [opener])
    (closes : (text closing).Carries width [bracket])
    (single : fits = false → closing.toList = [bracket] ∧ isClosing bracket = true)
    (carries : ∀ x ∈ xs, ∀ q m, (layout x q m).Carries width (content x) ∧ StartsOpen (content x)) :
    (bracketed opening closing fits position fun q m => xs.map (layout · q m)).Carries width
      (opener :: (joined (xs.map content) ++ [bracket])) := by
  cases fits with
  | true =>
    have items := carries_commaSeparated fun x mem => carries x mem position .continueLine
    exact (opens.append items).append closes
  | false =>
    obtain ⟨single, closing⟩ := single rfl
    have items := carries_stack single closing position
      fun x mem => carries x mem (position + 1) .newLine
    rw [bracketed, arranged, if_neg Bool.false_ne_true, stacked, append_assoc, append_assoc,
      append_assoc]
    exact opens.append (carries_newline.append items)

end

end Layout

/-! ## Numerals -/

namespace Text

/-- Numerals are visible and have no commas in them. -/
theorem Numeral.solid {cs : List Char} (numeral : Numeral cs) : Solid cs := by
  intro c mem
  have isNumeral := numeral c mem
  rw [isVisible, Bool.and_eq_true, bne_iff_ne, bne_iff_ne]
  refine ⟨⟨?_, ?_⟩, ?_⟩ <;> rintro rfl <;> cases isNumeral

/-- A numeral does not start with a closing bracket. -/
theorem Numeral.startsOpen {cs : List Char} (numeral : Numeral cs) (some : cs ≠ []) :
    StartsOpen cs := by
  cases cs with
  | nil => exact absurd rfl some
  | cons c cs =>
    have isNumeral := numeral c List.mem_cons_self
    refine startsOpen_cons (Bool.eq_false_iff.mpr fun closes => ?_) cs
    rcases eq_of_isClosing closes with rfl | rfl | rfl <;> cases isNumeral

end Text

/-! ## Texts of the tree -/

/-- A text without white space, commas and brackets. -/
def Text.IsSeamless (s : String) : Prop :=
  ∀ c ∈ s.toList,
    isWhiteSpace c = false ∧ c ≠ ',' ∧ Brackets.isOpening c = false ∧ isClosing c = false

instance (s : String) : Decidable (Text.IsSeamless s) :=
  Text.decidableForall s.toList

namespace Text.IsSeamless

variable {s : String}

/-- A seamless text is visible and has no commas in it. -/
theorem solid (seamless : IsSeamless s) : Solid s.toList := by
  intro c mem
  obtain ⟨noSpace, noComma, -⟩ := seamless c mem
  refine ⟨?_, noComma⟩
  rw [isVisible, Bool.and_eq_true, bne_iff_ne, bne_iff_ne]
  constructor
  · rintro rfl
    cases noSpace
  · rintro rfl
    cases noSpace

/-- A seamless text does not start with a closing bracket. -/
theorem startsOpen (seamless : IsSeamless s) (some : s ≠ "") : StartsOpen s.toList := by
  cases chars : s.toList with
  | nil => exact absurd (String.toList_eq_nil_iff.mp chars) some
  | cons c cs => exact startsOpen_cons (seamless c (chars ▸ List.mem_cons_self)).2.2.2 cs

/-- A text without white space is on one line. -/
theorem lines (seamless : IsSeamless s) : Text.lines s = [s] := by
  refine lines_of_unbroken ?_
  intro c mem
  obtain ⟨solid, -⟩ := seamless c mem
  constructor
  · rintro rfl
    cases solid
  · rintro rfl
    cases solid

end Text.IsSeamless

/-- A reference or a raw text of no characters. -/
def Node.isVoid : Node → Bool
  | .expression (.reference target) => target.name.isEmpty
  | .expression (.raw s) => s.isEmpty
  | _ => false

/-- The names and texts of a tree are seamless, and no reference or raw text is empty. -/
def Node.HasSeamlessTexts (n : Node) : Prop :=
  ∀ placed ∈ n.preorder,
    (∀ s ∈ placed.node.texts, Text.IsSeamless s) ∧ placed.node.isVoid = false

/-- The texts of a tree are seamless when those of the node and of its parts are, and no name or
text is missing. -/
theorem Node.hasSeamlessTexts_iff (n : Node) :
    n.HasSeamlessTexts ↔
      ((∀ s ∈ n.texts, Text.IsSeamless s) ∧ n.isVoid = false) ∧
        ∀ part ∈ n.parts, part.node.HasSeamlessTexts :=
  Node.forall_mem_preorder (P := fun n => (∀ s ∈ n.texts, Text.IsSeamless s) ∧ n.isVoid = false)

/-! ## Nodes -/

/-- Wherever the node is placed, its layout says what its flat text says. What can be an item does
not start with a closing bracket. -/
def Node.Carried (width : Nat) : Node → Prop
  | .expression e => ∀ p m, (e.layout p m).Carries width e.flat ∧ StartsOpen e.flat
  | .argument a => ∀ p m, (a.layout p m).Carries width a.flat ∧ StartsOpen a.flat
  | .clause c => ∀ p m, (c.layout p m).Carries width c.flat
  | .file _ | .statement _ | .symbol _ => True

section

variable {width : Nat}

open Layout

/-- A seamless string literal says its text between quotes. -/
theorem Layout.carries_quoted (position : Nat) {s : String} (seamless : Text.IsSeamless s) :
    (quoted position s).Carries width ('"' :: (s.toList ++ ['"'])) := by
  have quote : (text "\"").Carries width ['"'] := carries_solid (by decide)
  unfold quoted
  rw [seamless.lines]
  exact (quote.append (carries_solid seamless.solid)).append quote

/-- Float literals are visible and have no commas in them, also those for the values that are no
numbers. -/
theorem Binary64.solid_literal (x : Binary64) : Solid x.literal.toList := by
  have sign : Solid (if x.isNegative then "-" else "").toList := by split <;> decide
  unfold literal
  split
  · rw [String.toList_append]
    exact sign.append (Text.numeral_decimal x.decimal).solid
  · split
    · decide
    · split <;> decide

/-- A float literal does not start with a closing bracket. -/
theorem Binary64.startsOpen_literal (x : Binary64) : StartsOpen x.literal.toList := by
  have sign : Text.Numeral (if x.isNegative then "-" else "").toList := by split <;> decide
  unfold literal
  split
  · rw [String.toList_append]
    exact (sign.append (Text.numeral_decimal x.decimal)).startsOpen
      (List.append_ne_nil_of_right_ne_nil _ (Text.decimal_ne_nil x.decimal))
  · split
    · exact startsOpen_cons (by decide) _
    · split <;> exact startsOpen_cons (by decide) _

/-- An entry says its flat form if its expressions do. -/
theorem Entry.carried {e : Entry} (parts : ∀ x ∈ e.parts, (Node.expression x).Carried width)
    (p : Nat) (m : LineMode) : (e.layout p m).Carries width e.flat ∧ StartsOpen e.flat := by
  obtain ⟨key, value⟩ := e
  obtain ⟨inKey, starts⟩ := parts key List.mem_cons_self p m
  obtain ⟨inValue, -⟩ := parts value (List.mem_cons_of_mem _ List.mem_cons_self) p .continueLine
  have colon : (text ": ").Carries width [':'] := carries_text ": " (by decide)
  rw [Entry.flat, ← List.singleton_append, ← List.append_assoc]
  exact ⟨(inKey.append colon).append inValue, (starts.append _).append _⟩

/-- The body of a comprehension says its flat form if its expressions do. -/
theorem Body.carried {b : Body} (parts : ∀ x ∈ b.parts, (Node.expression x).Carried width)
    (p : Nat) (m : LineMode) : (b.layout p m).Carries width b.flat := by
  cases b with
  | element value => exact (parts value List.mem_cons_self p m).1
  | entry e => exact (Entry.carried parts p m).1

/-- A receiver with its point says its flat form if the receiver does. -/
theorem Expr.carried_receiver {receiver : Option Expr}
    (carried : ∀ x ∈ receiver.toList, (Node.expression x).Carried width) (p : Nat) :
    (Expr.receiverLayout receiver p).Carries width (Expr.receiverFlat receiver) ∧
      (receiver.isSome → StartsOpen (Expr.receiverFlat receiver)) := by
  cases receiver with
  | none => exact ⟨carries_empty, fun some => by cases some⟩
  | some receiver =>
    obtain ⟨inReceiver, starts⟩ := carried receiver List.mem_cons_self p .continueLine
    exact ⟨inReceiver.append (carries_solid (by decide)), fun _ => starts.append _⟩

/-- A comprehension says its flat form, whether its clauses follow on the line or stand below each
other. -/
theorem Expr.carried_comprehension {body : Body} {clauses : List Clause}
    (inBody : ∀ x ∈ body.parts, (Node.expression x).Carried width)
    (inClauses : ∀ c ∈ clauses, (Node.clause c).Carried width) :
    (Node.expression (.comprehension body clauses)).Carried width := by
  intro p m
  have opens : (text body.kind.opening).Carries width body.kind.opening.toList :=
    carries_solid (by cases body.kind <;> decide)
  have closes : (text body.kind.closing).Carries width body.kind.closing.toList :=
    carries_solid (by cases body.kind <;> decide)
  have starts : StartsOpen body.kind.opening.toList := by
    cases body.kind <;> exact startsOpen_cons (by decide) _
  have behind (q : Nat) (n : LineMode) {separator : Layout} (blank : separator.Carries width []) :
      (concat ((Clause.layouts clauses q n).map (separator ++ ·))).Carries width
        (Clause.flats clauses).flatten := by
    rw [Clause.layouts_eq_map, Clause.flats_eq_map, List.map_map]
    exact carries_concat fun c mem => blank.append (inClauses c mem q n)
  rw [Expr.layout, Expr.flat]
  refine ⟨(carries_lead _ p m).append ?_, (starts.append _).append _⟩
  split
  · exact carries_fail _ _
  · refine (opens.append ?_).append closes
    split
    · have lines := (carries_newline.append (Body.carried inBody (p + 1) .newLine)).append
        (behind (p + 1) .newLine carries_newline)
      have whole := (lines.append carries_newline).append (carries_indent p)
      simpa using whole
    · have blank : Layout.space.Carries width [] :=
        sameText_space.carries (carries_text " " (by decide))
      exact (Body.carried inBody p .continueLine).append (behind p .continueLine blank)

/-- The end of a tuple. After a single item it has a comma in it, which is dropped. -/
theorem Layout.carries_tupleEnd (count : Nat) :
    (text (if count = 1 then ",)" else ")")).Carries width [')'] := by
  split
  · exact fun _ _ => rfl
  · exact carries_solid (by decide)

/-- A tuple whose items are stacked has more than one of them, and so no comma of its own. -/
theorem tupleEnd_of_stacked (items : List Expr) (stacked : itemsFit items = false) :
    (if items.length = 1 then ",)" else ")").toList = [')'] ∧ isClosing ')' = true := by
  refine ⟨?_, rfl⟩
  split
  next one => simp [itemsFit, fitsBy, atMostOne, one] at stacked
  next => rfl

/-- Bracketed expressions say their flat form, on one line or stacked. -/
theorem Expr.carried_items {items : List Expr} {opening closing : String} {opener bracket : Char}
    {fits : Bool} (carried : ∀ x ∈ items, (Node.expression x).Carried width) (p : Nat)
    (opens : (text opening).Carries width [opener])
    (closes : (text closing).Carries width [bracket])
    (single : fits = false → closing.toList = [bracket] ∧ isClosing bracket = true) :
    (bracketed opening closing fits p fun q m => Expr.layouts items q m).Carries width
      (opener :: (joined (Expr.flats items) ++ [bracket])) := by
  have inItems := carries_bracketed p opens closes single carried
  rw [Expr.flats_eq_map]
  simp only [Expr.layouts_eq_map]
  exact inItems

/-- An expression with seamless texts says its flat form if its parts do. -/
theorem Expr.carried {e : Expr} (texts : ∀ s ∈ e.texts, Text.IsSeamless s)
    (some : (Node.expression e).isVoid = false)
    (parts : ∀ part ∈ e.parts, part.node.Carried width) : (Node.expression e).Carried width := by
  intro p m
  cases e with
  | string value =>
    have seamless := texts value List.mem_cons_self
    exact ⟨(carries_lead _ p m).append (carries_quoted p seamless), startsOpen_cons (by decide) _⟩
  | integer value =>
    have numeral := Text.numeral_ofInt value.toInt
    exact ⟨(carries_lead _ p m).append (carries_solid numeral.solid),
      numeral.startsOpen (Text.ofInt_ne_nil value.toInt)⟩
  | float value =>
    exact ⟨(carries_lead _ p m).append (carries_solid value.solid_literal),
      value.startsOpen_literal⟩
  | boolean value =>
    refine ⟨(carries_lead _ p m).append (carries_solid ?_), ?_⟩
    · cases value <;> decide
    · cases value <;> exact startsOpen_cons (by decide) _
  | none =>
    exact ⟨(carries_lead _ p m).append (carries_solid (by decide)), startsOpen_cons (by decide) _⟩
  | reference target =>
    have seamless := texts target.name List.mem_cons_self
    have named : target.name ≠ "" := String.isEmpty_eq_false_iff.mp some
    exact ⟨(carries_lead _ p m).append (carries_solid seamless.solid), seamless.startsOpen named⟩
  | call receiver name args =>
    obtain ⟨inReceiver, startsReceiver⟩ := Expr.carried_receiver (fun x mem =>
      parts _ (List.mem_append_left _ (List.mem_map_of_mem (a := x) mem))) p
    have inArgs (a : Arg) (mem : a ∈ args) :=
      parts _ (List.mem_append_right _ (List.mem_map_of_mem (a := a) mem))
    have seamless := texts name List.mem_cons_self
    have inBrackets := carries_bracketed p (carries_solid (s := "(") (by decide))
      (carries_solid (s := ")") (by decide))
      (fun (_ : argsFit args = false) => ⟨rfl, rfl⟩) inArgs
    rw [Expr.layout, Expr.flat, Arg.flats_eq_map]
    simp only [Arg.layouts_eq_map]
    refine ⟨(((carries_lead _ p m).append inReceiver).append
      (carries_solid seamless.solid)).append inBrackets, ?_⟩
    cases receiver with
    | some receiver => exact ((startsReceiver rfl).append _).append _
    | none =>
      by_cases named : name = ""
      · rw [named]
        exact startsOpen_cons (by decide) _
      · exact (seamless.startsOpen named).append _
  | binary kind left op right =>
    obtain ⟨inLeft, starts⟩ := parts _ List.mem_cons_self p m
    obtain ⟨inRight, -⟩ := parts _ (List.mem_cons_of_mem _ List.mem_cons_self) p .continueLine
    have operator : (text (" " ++ op.text ++ " ")).Carries width op.text.toList := by
      cases op <;> exact carries_text _ (by decide)
    have start := (carries_refuseSingleLine .binary p m).append inLeft
    exact ⟨(start.append ((sameText_operator op).carries operator)).append inRight,
      (starts.append _).append _⟩
  | comprehension body clauses =>
    exact Expr.carried_comprehension
      (fun x mem => parts _ (List.mem_append_left _ (List.mem_map_of_mem mem)))
      (fun c mem => parts _ (List.mem_append_right _ (List.mem_map_of_mem mem))) p m
  | slice receiver bounds =>
    obtain ⟨inReceiver, starts⟩ := parts _ List.mem_cons_self p .continueLine
    have solid : Solid ("[" ++ bounds.text ++ "]").toList := by
      rw [String.toList_append, String.toList_append]
      exact (Solid.append (by decide) (Text.numeral_bounds bounds).solid).append (by decide)
    have inBounds : (text ("[" ++ bounds.text ++ "]")).Carries width _ := carries_solid solid
    rw [String.toList_append, String.toList_append, List.append_assoc] at inBounds
    exact ⟨((carries_lead _ p m).append inReceiver).append
      ((sameText_bounds bounds).carries inBounds), starts.append _⟩
  | list items =>
    have inItems := Expr.carried_items (fun x mem => parts _ (List.mem_map_of_mem mem)) p
      (carries_solid (s := "[") (by decide)) (carries_solid (s := "]") (by decide))
      (fun (_ : itemsFit items = false) => ⟨rfl, rfl⟩)
    exact ⟨(carries_lead _ p m).append inItems, startsOpen_cons (by decide) _⟩
  | tuple items =>
    have inItems := Expr.carried_items (fun x mem => parts _ (List.mem_map_of_mem mem)) p
      (carries_solid (s := "(") (by decide)) (carries_tupleEnd items.length)
      (tupleEnd_of_stacked items)
    exact ⟨(carries_lead _ p m).append ((sameText_tupled _ _ p _).carries inItems),
      startsOpen_cons (by decide) _⟩
  | dictionary entries =>
    have inEntries (e : Entry) (mem : e ∈ entries) := Entry.carried fun x memEntry =>
      parts _ (List.mem_map_of_mem (List.mem_flatMap.mpr ⟨e, mem, memEntry⟩))
    have inBrackets := carries_bracketed p (carries_solid (s := "\x7b") (by decide))
      (carries_solid (s := "\x7d") (by decide))
      (fun (_ : entriesFit entries = false) => ⟨rfl, rfl⟩) inEntries
    rw [Expr.layout, Expr.flat, Entry.flats_eq_map]
    simp only [Entry.layouts_eq_map]
    exact ⟨(carries_lead _ p m).append inBrackets, startsOpen_cons (by decide) _⟩
  | raw s =>
    have seamless := texts s List.mem_cons_self
    have named : s ≠ "" := String.isEmpty_eq_false_iff.mp some
    exact ⟨(carries_lead _ p m).append (carries_solid seamless.solid), seamless.startsOpen named⟩

/-- A clause says its flat form if its parts do. -/
theorem Clause.carried {c : Clause} (parts : ∀ part ∈ c.parts, part.node.Carried width) :
    (Node.clause c).Carried width := by
  intro p m
  cases c with
  | loop targets iterable =>
    have inTargets := carries_commaSeparated fun x mem =>
      parts _ (List.mem_append_left _ (List.mem_map_of_mem (a := x) mem)) p .continueLine
    obtain ⟨inIterable, -⟩ :=
      parts _ (List.mem_append_right _ List.mem_cons_self) p .continueLine
    have loop : (text "for ").Carries width "for".toList := carries_text "for " (by decide)
    have within : (text " in ").Carries width "in".toList := carries_text " in " (by decide)
    rw [Clause.layout, Clause.flat, Expr.layouts_eq_map, Expr.flats_eq_map]
    refine (carries_lead _ p m).append ?_
    split
    · exact carries_fail _ _
    · exact ((loop.append inTargets).append within).append inIterable
  | guard condition =>
    obtain ⟨inCondition, -⟩ := parts _ List.mem_cons_self p .continueLine
    have guard : (text "if ").Carries width "if".toList := carries_text "if " (by decide)
    exact ((carries_lead _ p m).append guard).append inCondition

/-- An argument with a seamless name says its flat form if its value does. -/
theorem Arg.carried {a : Arg} (texts : ∀ s ∈ a.name.toList, Text.IsSeamless s)
    (inValue : (Node.expression a.value).Carried width) : (Node.argument a).Carried width := by
  intro p m
  obtain ⟨name, value⟩ := a
  obtain ⟨carries, starts⟩ := inValue p .continueLine
  cases name with
  | none => exact ⟨((carries_lead _ p m).append carries_empty).append carries, starts⟩
  | some name =>
    have seamless := texts name List.mem_cons_self
    rw [Arg.layout, Layout.argumentName, Arg.flat]
    split
    next => exact ⟨((carries_lead _ p m).append carries_empty).append carries, starts⟩
    next named =>
      have sign : (text " = ").Carries width ['='] := carries_text " = " (by decide)
      have some : name ≠ "" := by
        rintro rfl
        exact named rfl
      have label := (carries_solid seamless.solid).append sign
      have whole := ((carries_lead .argument p m).append label).append carries
      rw [List.nil_append, List.append_assoc] at whole
      exact ⟨whole, (seamless.startsOpen some).append _⟩

end

/-- Every node with seamless texts says its flat form. -/
theorem Node.carried (width : Nat) (n : Node) : n.HasSeamlessTexts → n.Carried width := by
  induction n using Node.induction with
  | step n ih =>
    intro seamless
    obtain ⟨⟨texts, some⟩, inParts⟩ := n.hasSeamlessTexts_iff.mp seamless
    have parts : ∀ part ∈ n.parts, part.node.Carried width := fun part mem =>
      ih part mem (inParts part mem)
    cases n with
    | expression e => exact Expr.carried texts some parts
    | clause c => exact Clause.carried parts
    | argument a => exact Arg.carried texts (parts _ List.mem_cons_self)
    | _ => trivial

namespace Style

/-- Formatted text and the flat text of an expression differ by layout alone: without its spaces and
line breaks, and then without the commas before closing brackets, the one is the other. -/
theorem formatNode_content_eq_flat (style : Style) (e : Expr) (position : Nat) (mode : LineMode)
    (multiline : mode = .newLine ∨ mode = .continueLine)
    (sound : ∀ placed ∈ (Node.expression e).preorder,
      placed.node.fault? mode (position + placed.depth) = none)
    (seamless : (Node.expression e).HasSeamlessTexts) :
    ∃ text, style.formatNode (.expression e) position mode = .ok text ∧
      Text.content text.toList = e.flat := by
  have failure := ((Node.expression e).layout_sound_iff position
    (LineMode.ne_singleLine multiline)).mpr sound
  have carries := ((Node.expression e).carried style.indentWidth seamless position mode).1
  refine ⟨_, style.formatNode_eq failure, ?_⟩
  have whole := carries failure []
  rw [List.append_nil, dropTrailingCommas, List.append_nil] at whole
  rw [String.toList_ofList]
  exact whole

/-- A list over several lines: a method call with a blank argument name and a tuple of one item, and
a comprehension that is broken up. -/
def mixedLayouts : Expr :=
  .list [
    .call (some (.reference ⟨"a", .any⟩)) "f"
      [⟨some "", .tuple [.integer (-1)]⟩, ⟨some "k", .string "x"⟩],
    .comprehension (.element (.binary .any (.reference ⟨"x", .any⟩) .plus (.raw "y")))
      [.loop [.reference ⟨"x", .any⟩, .reference ⟨"y", .any⟩]
        (.slice (.reference ⟨"xs", .list⟩) ⟨some 1, none, none⟩), .guard (.dictionary [])]]

/-- The content of a list over several lines, with a tuple of one item and a comprehension in it. -/
theorem formatNode_mixedLayouts :
    (LineMode.newLine = .newLine ∨ LineMode.newLine = .continueLine) ∧
      (∀ placed ∈ (Node.expression mixedLayouts).preorder,
        placed.node.fault? .newLine (1 + placed.depth) = none) ∧
      (Node.expression mixedLayouts).HasSeamlessTexts ∧
      ∃ text, formatNode {} (.expression mixedLayouts) 1 .newLine = .ok text ∧
        Text.content text.toList = "[a.f((-1),k=\"x\"),[x+yforx,yinxs[1:]if\x7b\x7d]]".toList := by
  have sound : ∀ placed ∈ (Node.expression mixedLayouts).preorder,
      placed.node.fault? .newLine (1 + placed.depth) = none :=
    ((Node.expression mixedLayouts).layout_sound_iff 1 LineMode.newLine_ne).mp rfl
  have seamless : (Node.expression mixedLayouts).HasSeamlessTexts := by
    simp [mixedLayouts, Node.hasSeamlessTexts_iff (.expression _),
      Node.hasSeamlessTexts_iff (.argument _), Node.hasSeamlessTexts_iff (.clause _), Node.texts,
      Node.isVoid, Node.parts, Expr.texts, Expr.parts, Clause.parts, Body.parts]
    decide
  exact ⟨.inl rfl, sound, seamless,
    formatNode_content_eq_flat {} mixedLayouts 1 .newLine (.inl rfl) sound seamless⟩

end Style

end StarlarkCode
