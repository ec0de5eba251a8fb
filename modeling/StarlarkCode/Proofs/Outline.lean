import StarlarkCode.Proofs.Brackets

/-!
# Outlines

Formatted code looks the same wherever it stands: the width of a level and the position of a node
decide how far its lines are moved to the right, and nothing else. An outline is what is left when
both are taken away. It has a first line, which goes on where the text before it ends, and lines
after it, each with the stacked layouts that are open at it; the number of these is the number of
levels by which the line is indented further than the node.

Outlines are defined by recursion on trees, with no position in sight. `Outline.Describes` compares
them with layouts at all positions. The one thing to look out for is that indentation is written
only in front of a text, so a line must be known to hold some before more is added to it.
-/

namespace StarlarkCode

/-! ## Lines -/

/-- A line after the first: the stacked layouts that are open at it, the outermost first, and its
text. A line that starts with the closing bracket of a layout stands outside that layout. -/
structure Line where
  inside : List Construct
  text : List Char
deriving DecidableEq, Repr

namespace Line

/-- The levels by which a line is deeper than the node it belongs to. -/
def depth (line : Line) : Nat :=
  line.inside.length

/-- The line as a line of a stacked layout. -/
def within (outer : Construct) (line : Line) : Line :=
  ⟨outer :: line.inside, line.text⟩

/-- The line as it is written for a node at a position; an empty one is not indented. -/
def chars (width position : Nat) (line : Line) : List Char :=
  if line.text = [] then []
  else List.replicate (width * (position + line.depth)) ' ' ++ line.text

/-- A line without text is left empty and not indented. -/
theorem chars_of_blank (width position : Nat) (line : Line) (blank : line.text = []) :
    line.chars width position = [] :=
  if_pos blank

/-- A line with text is indented by its depth below the position of the node. -/
theorem chars_of_full (width position : Nat) (line : Line) (full : line.text ≠ []) :
    line.chars width position =
      List.replicate (width * (position + line.depth)) ' ' ++ line.text :=
  if_neg full

/-- A line stays one line with its indentation. -/
theorem newline_not_mem_chars {line : Line} (unbroken : '\n' ∉ line.text) (width position : Nat) :
    '\n' ∉ line.chars width position := by
  unfold chars
  split <;> simp [unbroken]

/-- Inside one more construct a line is one level deeper. -/
theorem chars_within (outer : Construct) (line : Line) (width position : Nat) :
    (line.within outer).chars width position = line.chars width (position + 1) := by
  have levels : position + (line.within outer).depth = position + 1 + line.depth := by
    rw [depth, within, List.length_cons, depth]
    omega
  rw [chars, chars, levels]
  rfl

end Line

/-! ## Outlines -/

/-- The first line of a text and the lines after it. -/
structure Outline where
  first : List Char
  rest : List Line
deriving DecidableEq, Repr

namespace Outline

/-- No text. -/
def empty : Outline := ⟨[], []⟩

/-- A text on one line. -/
def text (s : String) : Outline := ⟨s.toList, []⟩

/-- An outline that goes on after a first line and more lines, where the last of them ends. -/
def extend (next : Outline) : List Char → List Line → Outline
  | first, [] => ⟨first ++ next.first, next.rest⟩
  | first, line :: lines =>
    ⟨first,
      ⟨line.inside, (extend next line.text lines).first⟩ :: (extend next line.text lines).rest⟩

/-- The first outline and then the second, which goes on where the first ends. -/
instance : Append Outline := ⟨fun a b => extend b a.first a.rest⟩

/-- Outlines one after the other. -/
def concat (parts : List Outline) : Outline :=
  parts.foldr (· ++ ·) empty

/-- Outlines with commas between neighbours. -/
def commaSeparated : List Outline → Outline
  | [] => empty
  | [part] => part
  | part :: parts => part ++ text ", " ++ commaSeparated parts

/-- The lines of an outline that starts a line of its own in a stacked layout. -/
def linesWithin (outer : Construct) (o : Outline) : List Line :=
  (⟨[], o.first⟩ :: o.rest).map (Line.within outer)

/-- Parts on lines of their own between two brackets; the closing bracket starts a line. -/
def stacked (construct : Construct) (opening closing : String) (parts : List Outline) : Outline :=
  ⟨opening.toList, parts.flatMap (linesWithin construct) ++ [⟨[], closing.toList⟩]⟩

/-- Items between brackets, on one line or stacked with a comma after each. -/
def bracketed (construct : Construct) (opening closing : String) (fits : Bool)
    (items : List Outline) : Outline :=
  if fits then text opening ++ commaSeparated items ++ text closing
  else stacked construct opening closing (items.map (· ++ text ","))

/-- A string literal; the lines of a block open no layout. -/
def quoted (value : String) : Outline :=
  match Text.lines value with
  | [_] => text "\"" ++ text value ++ text "\""
  | lines => ⟨"\"\"\"".toList, lines.map (⟨[], ·.toList⟩) ++ [⟨[], "\"\"\"".toList⟩]⟩

/-- The name of an argument and the sign after it; a blank name is left out. -/
def argumentName : Option String → Outline
  | some name => if Text.isBlank name then empty else text name ++ text " = "
  | none => empty

/-- The text of an outline for a width of a level and a position: the first line, and each line
after it behind a line break and its indentation. -/
def chars (width position : Nat) (o : Outline) : List Char :=
  o.first ++ o.rest.flatMap fun line => '\n' :: line.chars width position

/-- No line holds a line break. -/
def Unbroken (o : Outline) : Prop :=
  '\n' ∉ o.first ∧ ∀ line ∈ o.rest, '\n' ∉ line.text

instance (o : Outline) : Decidable o.Unbroken :=
  inferInstanceAs (Decidable (_ ∧ _))

end Outline

/-! ## Outlines of nodes -/

open Outline in
mutual

/-- The outline of an expression. -/
def Expr.outline : Expr → Outline
  | .string value => quoted value
  | .integer value => text (Text.ofInt value.toInt)
  | .float value => text value.literal
  | .boolean value => text (if value then "True" else "False")
  | .none => text "None"
  | .reference target => text target.name
  | .call receiver name args =>
    Expr.receiverOutline receiver ++ text name
      ++ bracketed .call "(" ")" (argsFit args) (Arg.outlines args)
  | .binary _ left op right => left.outline ++ text (" " ++ op.text ++ " ") ++ right.outline
  | .comprehension body clauses =>
    if body.breaks then
      stacked (.comprehension body.kind) body.kind.opening body.kind.closing
        (body.outline :: Clause.outlines clauses)
    else
      text body.kind.opening ++ body.outline
        ++ concat ((Clause.outlines clauses).map (text " " ++ ·)) ++ text body.kind.closing
  | .slice receiver bounds => receiver.outline ++ text ("[" ++ bounds.text ++ "]")
  | .list items => bracketed .list "[" "]" (itemsFit items) (Expr.outlines items)
  | .tuple items =>
    bracketed .tuple "(" (if items.length = 1 then ",)" else ")") (itemsFit items)
      (Expr.outlines items)
  | .dictionary entries =>
    bracketed .dictionary "\x7b" "\x7d" (entriesFit entries) (Entry.outlines entries)
  | .raw s => text s

/-- The outline of a receiver with the point after it. -/
def Expr.receiverOutline : Option Expr → Outline
  | Option.none => empty
  | some receiver => receiver.outline ++ text "."

def Expr.outlines : List Expr → List Outline
  | [] => []
  | e :: es => e.outline :: Expr.outlines es

/-- The outline of an argument. -/
def Arg.outline : Arg → Outline
  | ⟨name, value⟩ => argumentName name ++ value.outline

def Arg.outlines : List Arg → List Outline
  | [] => []
  | a :: as => a.outline :: Arg.outlines as

/-- The outline of an entry. -/
def Entry.outline : Entry → Outline
  | ⟨key, value⟩ => key.outline ++ text ": " ++ value.outline

def Entry.outlines : List Entry → List Outline
  | [] => []
  | e :: es => e.outline :: Entry.outlines es

/-- The outline of a comprehension's body. -/
def Body.outline : Body → Outline
  | .element value => value.outline
  | .entry e => e.outline

/-- The outline of a clause. -/
def Clause.outline : Clause → Outline
  | .loop targets iterable =>
    text "for " ++ commaSeparated (Expr.outlines targets) ++ text " in " ++ iterable.outline
  | .guard condition => text "if " ++ condition.outline

def Clause.outlines : List Clause → List Outline
  | [] => []
  | c :: cs => c.outline :: Clause.outlines cs

end

open Outline

/-- The outline of a symbol in a load. -/
def Symbol.outline (symbol : Symbol) : Outline :=
  (match symbol.localName with
    | some name => text name ++ text " = "
    | none => empty)
    ++ quoted symbol.name

/-- The outline of a load. -/
def Load.outline (load : Load) : Outline :=
  bracketed .load "load(" ")" (load.symbols.length = 1)
    (quoted load.file :: load.symbols.map Symbol.outline)

/-- The outline of a node that is or stands inside a single statement. Files have none, nor have the
statements that cannot continue a line or are taken over line by line; a statement that is an
expression looks like the expression. -/
def Node.outline? : Node → Option Outline
  | .expression e => some e.outline
  | .clause c => some c.outline
  | .argument a => some a.outline
  | .symbol s => some s.outline
  | .statement (.load imported) => some imported.outline
  | .file _ | .statement _ => none

/-- Everything below statements has an outline, and so have loads. -/
theorem Node.exists_outline (n : Node)
    (kind : n.isStatement = false ∨ ∃ imported, n = .statement (.load imported)) :
    ∃ outline, n.outline? = some outline := by
  rcases kind with inner | ⟨imported, rfl⟩
  · cases n with
    | file f => cases inner
    | statement s => cases inner
    | _ => exact ⟨_, rfl⟩
  · exact ⟨_, rfl⟩

theorem Expr.outlines_eq_map (es : List Expr) : Expr.outlines es = es.map Expr.outline := by
  induction es with
  | nil => rfl
  | cons e es ih => rw [Expr.outlines, ih, List.map_cons]

theorem Arg.outlines_eq_map (as : List Arg) : Arg.outlines as = as.map Arg.outline := by
  induction as with
  | nil => rfl
  | cons a as ih => rw [Arg.outlines, ih, List.map_cons]

theorem Entry.outlines_eq_map (es : List Entry) : Entry.outlines es = es.map Entry.outline := by
  induction es with
  | nil => rfl
  | cons e es ih => rw [Entry.outlines, ih, List.map_cons]

theorem Clause.outlines_eq_map (cs : List Clause) : Clause.outlines cs = cs.map Clause.outline := by
  induction cs with
  | nil => rfl
  | cons c cs ih => rw [Clause.outlines, ih, List.map_cons]

/-! ## Lines of texts -/

namespace Text

/-- The breaks of a text are in none of its lines, whatever their style. -/
theorem unbroken_lineChars (cs : List Char) :
    ∀ line ∈ lineChars cs, ∀ c ∈ line, c ≠ '\r' ∧ c ≠ '\n' := by
  fun_induction lineChars cs with
  | case1 => simp
  | case2 cs ih => simpa using ih
  | case3 cs _ ih => simpa using ih
  | case4 cs ih => simpa using ih
  | case5 c cs _ noReturn noFeed ih =>
    have head : c ≠ '\r' ∧ c ≠ '\n' := ⟨noReturn, noFeed⟩
    cases lines : lineChars cs with
    | nil => simpa [consFirst] using head
    | cons line more =>
      rw [lines] at ih
      obtain ⟨first, rest⟩ := List.forall_mem_cons.mp ih
      exact List.forall_mem_cons.mpr ⟨List.forall_mem_cons.mpr ⟨head, first⟩, rest⟩

/-- The lines of a text have no line feed in them. -/
theorem newline_not_mem_lineChars (cs : List Char) : ∀ line ∈ lineChars cs, '\n' ∉ line :=
  fun line mem feed => (unbroken_lineChars cs line mem '\n' feed).2 rfl

/-- Every text has a line, if only an empty one. -/
theorem lineChars_ne_nil (cs : List Char) : lineChars cs ≠ [] := by
  fun_cases lineChars cs with
  | case5 c cs =>
    cases h : lineChars cs with
    | nil => exact List.cons_ne_nil _ _
    | cons => exact List.cons_ne_nil _ _
  | _ => exact List.cons_ne_nil _ _

/-- A text of one line is that line. -/
theorem eq_of_lineChars {cs line : List Char} (h : lineChars cs = [line]) : cs = line := by
  fun_induction lineChars cs generalizing line with
  | case1 => simpa using h
  | case2 cs => exact absurd (List.cons.inj h).2 (lineChars_ne_nil cs)
  | case3 cs => exact absurd (List.cons.inj h).2 (lineChars_ne_nil cs)
  | case4 cs => exact absurd (List.cons.inj h).2 (lineChars_ne_nil cs)
  | case5 c cs _ _ _ ih =>
    cases lines : lineChars cs with
    | nil => exact absurd lines (lineChars_ne_nil cs)
    | cons first more =>
      rw [lines] at h ih
      obtain ⟨rfl, rfl⟩ := List.cons.inj h
      rw [ih rfl]

/-- What is one line holds no line break. -/
theorem two_le_length_lines {s : String} (several : ∀ line, lines s ≠ [line]) :
    2 ≤ (lines s).length := by
  cases eq : lines s with
  | nil => exact absurd (List.map_eq_nil_iff.mp eq) (lineChars_ne_nil _)
  | cons line more =>
    cases more with
    | nil => exact absurd eq (several line)
    | cons => simp

/-- A text of one line has no line feed in it. -/
theorem newline_not_mem_of_lines {s line : String} (h : lines s = [line]) : '\n' ∉ s.toList := by
  obtain ⟨cs, single, -⟩ := List.map_eq_singleton_iff.mp h
  rw [eq_of_lineChars single]
  exact newline_not_mem_lineChars _ cs (single ▸ List.mem_singleton_self cs)

end Text

/-! ## Outlines one after the other -/

namespace Outline

variable {a b : Outline}

/-- More text can be added at the end without moving anything: the last line is not empty, nor is
the first where there are others. -/
structure Full (o : Outline) : Prop where
  first : o.rest ≠ [] → o.first ≠ []
  last : ∀ line ∈ o.rest.getLast?, line.text ≠ []

/-- An outline of one line is full. -/
theorem full_text (s : String) : (text s).Full :=
  ⟨fun more => absurd rfl more, fun _ mem => by cases mem⟩

/-- An outline is full if it has text on its first and last lines. -/
theorem full_of_last {first : List Char} (lines : List Line) {last : Line} (start : first ≠ [])
    (full : last.text ≠ []) : (⟨first, lines ++ [last]⟩ : Outline).Full := by
  refine ⟨fun _ => start, fun line mem => ?_⟩
  rw [List.getLast?_concat, Option.mem_some_iff] at mem
  rw [← mem]
  exact full

/-- What is added goes on the first line if there is no other. -/
theorem first_extend (next : Outline) (first : List Char) (lines : List Line) :
    (extend next first lines).first = first ++ if lines = [] then next.first else [] := by
  cases lines with
  | nil => rfl
  | cons line lines => exact (List.append_nil first).symm

/-- A first line with text keeps it when something is added. -/
theorem first_append_ne_nil (start : a.first ≠ []) (b : Outline) : (a ++ b).first ≠ [] := by
  have eq := first_extend b a.first a.rest
  intro none
  exact start (List.append_eq_nil_iff.mp (eq.symm.trans none)).1

/-- Text that is added ends up on the first line, or something is on the first line already. -/
theorem first_append_ne_nil_of_next (starts : a.rest ≠ [] → a.first ≠ []) (next : b.first ≠ []) :
    (a ++ b).first ≠ [] := by
  have eq := first_extend b a.first a.rest
  intro none
  obtain ⟨start, more⟩ := List.append_eq_nil_iff.mp (eq.symm.trans none)
  by_cases only : a.rest = []
  · rw [if_pos only] at more
    exact next more
  · exact starts only start

/-- If the whole starts with text before a break, so does its front. -/
theorem starts_of_append (starts : (a ++ b).rest ≠ [] → (a ++ b).first ≠ []) :
    a.rest ≠ [] → a.first ≠ [] := by
  intro more
  obtain ⟨first, lines⟩ := a
  cases lines with
  | nil => exact absurd rfl more
  | cons line lines => exact starts (List.cons_ne_nil _ _)

/-- The last line of some lines is the last line of their tail. -/
private theorem last_tail {line : Line} {lines : List Line}
    (last : ∀ l ∈ (line :: lines).getLast?, l.text ≠ []) : ∀ l ∈ lines.getLast?, l.text ≠ [] := by
  intro l mem
  refine last l ?_
  rw [List.getLast?_cons, Option.mem_def.mp mem]
  rfl

/-- With a full outline added, the last line has text. -/
private theorem last_extend {next : Outline} (full : next.Full) (first : List Char)
    {lines : List Line} (last : ∀ l ∈ lines.getLast?, l.text ≠ []) :
    ∀ l ∈ (extend next first lines).rest.getLast?, l.text ≠ [] := by
  induction lines generalizing first with
  | nil => exact full.last
  | cons line lines ih =>
    intro l mem
    have inTail := ih line.text (last_tail last)
    rw [extend, List.getLast?_cons, Option.mem_some_iff] at mem
    cases found : (extend next line.text lines).rest.getLast? with
    | some other =>
      rw [found] at mem
      exact inTail l (found.trans (congrArg some mem))
    | none =>
      -- The line is the last one, so it was not empty before the text was added.
      rw [found] at mem
      have only : lines = [] := by
        cases lines with
        | nil => rfl
        | cons => simp [extend] at found
      subst only
      rw [← mem]
      exact List.append_ne_nil_of_left_ne_nil (last line rfl) next.first

/-- Full outlines are full when put together. -/
theorem Full.append (full : a.Full) (next : b.Full) : (a ++ b).Full := by
  refine ⟨fun more => ?_, last_extend next a.first full.last⟩
  by_cases only : a.rest = []
  · refine first_append_ne_nil_of_next full.first (next.first fun none => more ?_)
    show (extend b a.first a.rest).rest = []
    rw [only]
    exact none
  · exact first_append_ne_nil (full.first only) b

/-- Adding to the last line is adding to the text, since that line has text and so its indentation.
-/
theorem chars_extend (next : Outline) (first : List Char) {lines : List Line}
    (last : ∀ l ∈ lines.getLast?, l.text ≠ []) (width position : Nat) :
    (extend next first lines).chars width position =
      (⟨first, lines⟩ : Outline).chars width position ++ next.chars width position := by
  induction lines generalizing first with
  | nil => simp [extend, chars]
  | cons line lines ih =>
    have tail := ih line.text (last_tail last)
    have start := first_extend next line.text lines
    rw [extend]
    generalize extend next line.text lines = joined at tail start ⊢
    simp only [chars, List.append_assoc] at tail
    -- The indentation in front of the line depends on whether there is something on it.
    by_cases blank : line.text = []
    · have more : lines ≠ [] := by
        rintro rfl
        exact last line rfl blank
      rw [if_neg more, blank, List.append_nil] at start
      rw [start, blank, List.nil_append, List.nil_append] at tail
      simp [chars, tail, Line.chars_of_blank width position line blank,
        Line.chars_of_blank width position ⟨line.inside, joined.first⟩ start]
    · have full : joined.first ≠ [] := by
        rw [start]
        exact List.append_ne_nil_of_left_ne_nil blank _
      simp [chars, tail, Line.depth, Line.chars_of_full width position line blank,
        Line.chars_of_full width position ⟨line.inside, joined.first⟩ full]

/-- Outlines put together have their texts put together. -/
theorem chars_append (full : a.Full) (b : Outline) (width position : Nat) :
    (a ++ b).chars width position = a.chars width position ++ b.chars width position :=
  chars_extend b a.first full.last width position

/-- No line of two outlines put together has a break in it. -/
theorem Unbroken.append (unbroken : a.Unbroken) (next : b.Unbroken) : (a ++ b).Unbroken := by
  have general : ∀ first lines, '\n' ∉ first → (∀ l ∈ lines, '\n' ∉ l.text) →
      (extend b first lines).Unbroken := by
    intro first lines inFirst inLines
    induction lines generalizing first with
    | nil => exact ⟨fun mem => (List.mem_append.mp mem).elim inFirst next.1, next.2⟩
    | cons line lines ih =>
      obtain ⟨inLine, inTail⟩ := List.forall_mem_cons.mp inLines
      obtain ⟨tailFirst, tailRest⟩ := ih line.text inLine inTail
      exact ⟨inFirst, List.forall_mem_cons.mpr ⟨tailFirst, tailRest⟩⟩
  exact general a.first a.rest unbroken.1 unbroken.2

/-! ## Outlines and layouts -/

/-- The layouts of something at all positions have this outline, as far as they have no failure. -/
structure Describes (o : Outline) (layout : Nat → Layout) : Prop where
  chars_eq : ∀ width position, (layout position).failure = none →
    (layout position).chars width = o.chars width position
  full : o.Full
  unbroken : o.Unbroken

/-- What describes a layout describes one that is the same unless it has a failure. -/
theorem Describes.of_sound {o : Outline} {layout layout' : Nat → Layout}
    (describes : o.Describes layout)
    (same : ∀ position, (layout' position).failure = none → layout' position = layout position) :
    o.Describes layout' := by
  refine ⟨fun width position sound => ?_, describes.full, describes.unbroken⟩
  have eq := same position sound
  rw [eq] at sound ⊢
  exact describes.chars_eq width position sound

theorem Describes.congr {o : Outline} {layout layout' : Nat → Layout}
    (describes : o.Describes layout)
    (same : ∀ position, layout' position = layout position) : o.Describes layout' :=
  describes.of_sound fun position _ => same position

/-- What describes a layout describes every other with its text. -/
theorem Describes.of_sameText {o : Outline} {layout layout' : Nat → Layout}
    (describes : o.Describes layout)
    (same : ∀ position, (layout' position).SameText (layout position)) : o.Describes layout' := by
  refine ⟨fun width position sound => ?_, describes.full, describes.unbroken⟩
  rw [(same position).1] at sound
  rw [(same position).2]
  exact describes.chars_eq width position sound

/-- A text without breaks is its own outline. -/
theorem describes_text {s : String} (unbroken : '\n' ∉ s.toList) :
    (text s).Describes fun _ => Layout.text s := by
  refine ⟨fun width position _ => ?_, full_text s, unbroken, fun line mem => by cases mem⟩
  rw [Layout.chars_text]
  exact (List.append_nil _).symm

theorem describes_empty : empty.Describes fun _ => Layout.empty where
  chars_eq _ _ _ := rfl
  full := ⟨fun more => absurd rfl more, fun _ mem => by cases mem⟩
  unbroken := by decide

/-- Outlines put together describe layouts put together. -/
theorem Describes.append {first next : Nat → Layout} (describesFirst : a.Describes first)
    (describesNext : b.Describes next) :
    (a ++ b).Describes fun position => first position ++ next position := by
  refine ⟨fun width position sound => ?_, describesFirst.full.append describesNext.full,
    describesFirst.unbroken.append describesNext.unbroken⟩
  rw [Layout.failure_append, Option.or_eq_none_iff] at sound
  rw [Layout.chars_append sound.1, chars_append describesFirst.full,
    describesFirst.chars_eq width position sound.1, describesNext.chars_eq width position sound.2]

/-- Lines between two brackets, the second of which starts a line. -/
theorem describes_closed {lines : List Line} {layout : Nat → Layout} {opening closing : String}
    (opens : opening.toList ≠ [] ∧ '\n' ∉ opening.toList)
    (closes : closing.toList ≠ [] ∧ '\n' ∉ closing.toList)
    (chars_eq : ∀ width position, (layout position).failure = none →
      (layout position).chars width = lines.flatMap fun line => '\n' :: line.chars width position)
    (unbroken : ∀ line ∈ lines, '\n' ∉ line.text) :
    (⟨opening.toList, lines ++ [⟨[], closing.toList⟩]⟩ : Outline).Describes fun position =>
      Layout.text opening ++ layout position ++ Layout.newline ++ Layout.indent position
        ++ Layout.text closing where
  chars_eq width position sound := by
    simp only [Layout.failure_append, Layout.failure_text, Layout.failure_newline,
      Layout.failure_indent, Option.none_or, Option.or_none] at sound
    have inner := chars_eq width position sound
    have last := Line.chars_of_full width position ⟨[], closing.toList⟩ closes.1
    simp [Layout.chars_append, Layout.chars_append (Layout.failure_text opening), sound, inner,
      chars, last, Line.depth]
  full := full_of_last lines opens.1 closes.1
  unbroken := by
    refine ⟨opens.2, fun line mem => ?_⟩
    rcases List.mem_append.mp mem with mem | mem
    · exact unbroken line mem
    · rw [List.mem_singleton] at mem
      rw [mem]
      exact closes.2

section

variable {α : Type} {xs : List α} {outline : α → Outline} {layout : α → Nat → Layout}

/-- The same for any number of outlines and layouts. -/
theorem describes_concat (describes : ∀ x ∈ xs, (outline x).Describes (layout x)) :
    (concat (xs.map outline)).Describes fun position =>
      Layout.concat (xs.map (layout · position)) := by
  induction xs with
  | nil => exact describes_empty
  | cons x xs ih =>
    have first := describes x List.mem_cons_self
    exact first.append (ih fun y mem => describes y (List.mem_cons_of_mem x mem))

/-- The same with commas between them. -/
theorem describes_commaSeparated (describes : ∀ x ∈ xs, (outline x).Describes (layout x)) :
    (commaSeparated (xs.map outline)).Describes fun position =>
      Layout.commaSeparated (xs.map (layout · position)) := by
  induction xs with
  | nil => exact describes_empty
  | cons x xs ih =>
    have first := describes x List.mem_cons_self
    have others := ih fun y mem => describes y (List.mem_cons_of_mem x mem)
    cases xs with
    | nil => exact first
    | cons y ys => exact (first.append (describes_text (by decide))).append others

/-- The lines of a part that starts a line one level deeper. -/
theorem chars_linesWithin (construct : Construct) {o : Outline} (start : o.first ≠ [])
    (width position : Nat) :
    ((o.linesWithin construct).flatMap fun line => '\n' :: line.chars width position) =
      '\n' :: (List.replicate (width * (position + 1)) ' ' ++ o.chars width (position + 1)) := by
  have indented := Line.chars_of_full width (position + 1) ⟨[], o.first⟩ start
  simp only [linesWithin, List.flatMap_map, List.flatMap_cons, Line.chars_within, indented, chars,
    Line.depth, List.length_nil, Nat.add_zero, List.append_assoc, List.cons_append]

/-- Parts on lines of their own are written as the lines of their outlines, one level deeper. -/
private theorem chars_parts (construct : Construct)
    (describes : ∀ x ∈ xs, (outline x).Describes (layout x))
    (start : ∀ x ∈ xs, (outline x).first ≠ []) (width position : Nat)
    (sound : (Layout.concat (xs.map fun x => Layout.newline ++ Layout.indent (position + 1)
      ++ layout x (position + 1))).failure = none) :
    (Layout.concat (xs.map fun x => Layout.newline ++ Layout.indent (position + 1)
        ++ layout x (position + 1))).chars width =
      ((xs.map outline).flatMap (linesWithin construct)).flatMap
        fun line => '\n' :: line.chars width position := by
  induction xs with
  | nil => rfl
  | cons x xs ih =>
    rw [List.map_cons, Layout.concat, List.foldr_cons, ← Layout.concat] at sound ⊢
    simp only [Layout.failure_append, Layout.failure_newline, Layout.failure_indent,
      Option.none_or, Option.or_eq_none_iff] at sound
    have first := (describes x List.mem_cons_self).chars_eq width (position + 1) sound.1
    have others := ih (fun y mem => describes y (List.mem_cons_of_mem x mem))
      (fun y mem => start y (List.mem_cons_of_mem x mem)) sound.2
    have lines := chars_linesWithin construct (start x List.mem_cons_self) width position
    rw [List.map_cons, List.flatMap_cons, List.flatMap_append, lines, Layout.chars_append, others,
      Layout.chars_append rfl, Layout.chars_append rfl, first]
    · simp
    · simpa using sound.1

/-- Parts on lines of their own, with the line break in front of each. -/
theorem describes_stacked (construct : Construct) {opening closing : String}
    (opens : opening.toList ≠ [] ∧ '\n' ∉ opening.toList)
    (closes : closing.toList ≠ [] ∧ '\n' ∉ closing.toList)
    (describes : ∀ x ∈ xs, (outline x).Describes (layout x))
    (start : ∀ x ∈ xs, (outline x).first ≠ []) :
    (stacked construct opening closing (xs.map outline)).Describes fun position =>
      Layout.text opening
        ++ Layout.concat (xs.map fun x =>
          Layout.newline ++ Layout.indent (position + 1) ++ layout x (position + 1))
        ++ Layout.newline ++ Layout.indent position ++ Layout.text closing := by
  refine describes_closed opens closes (chars_parts construct describes start) fun line mem => ?_
  obtain ⟨o, memParts, mem⟩ := List.mem_flatMap.mp mem
  obtain ⟨x, memItems, rfl⟩ := List.mem_map.mp memParts
  obtain ⟨inner, memLines, rfl⟩ := List.mem_map.mp mem
  obtain ⟨inFirst, inRest⟩ := (describes x memItems).unbroken
  rcases List.mem_cons.mp memLines with rfl | memRest
  · exact inFirst
  · exact inRest inner memRest

end

end Outline

/-- Line breaks after the parts and one in front are line breaks in front of the parts and one after
them. -/
theorem Layout.newline_concat (parts : List Layout) :
    newline ++ concat (parts.map (· ++ newline)) =
      concat (parts.map (newline ++ ·)) ++ newline := by
  induction parts with
  | nil => rfl
  | cons part parts ih =>
    rw [List.map_cons, List.map_cons, concat, concat, List.foldr_cons, List.foldr_cons, ← concat,
      ← concat, append_assoc, append_assoc, append_assoc, ← ih]

/-- Layouts in a row that do not fail have their texts in a row. -/
theorem Layout.chars_concat {parts : List Layout} (sound : ∀ part ∈ parts, part.failure = none)
    (width : Nat) : (concat parts).chars width = parts.flatMap (chars width) := by
  induction parts with
  | nil => rfl
  | cons part parts ih =>
    obtain ⟨first, others⟩ := List.forall_mem_cons.mp sound
    rw [concat, List.foldr_cons, ← concat, chars_append first, ih others, List.flatMap_cons]

/-- With a separator between them, their texts have its text between them. -/
theorem Layout.chars_separated {separator : Layout} (joins : separator.failure = none)
    {parts : List Layout} (sound : ∀ part ∈ parts, part.failure = none) (width : Nat) :
    (separated separator parts).chars width =
      (separator.chars width).intercalate (parts.map (chars width)) := by
  fun_induction separated separator parts with
  | case1 => rfl
  | case2 part => simp
  | case3 part parts more ih =>
    obtain ⟨first, others⟩ := List.forall_mem_cons.mp sound
    cases parts with
    | nil => exact absurd rfl more
    | cons next parts => simp [chars_append, joins, first, ih others]

/-- A line of a text block is a line at the position of the block. -/
theorem Layout.chars_blockLine (position : Nat) (line : String) (width : Nat) :
    (blockLine position line).chars width = (⟨[], line.toList⟩ : Line).chars width position := by
  by_cases blank : line = ""
  · rw [blank]
    rfl
  · rw [blockLine, if_neg (mt String.isEmpty_iff.mp blank),
      Line.chars_of_full width position _ (mt String.toList_eq_nil_iff.mp blank), chars_append rfl,
      chars_indent, chars_text]
    rfl

/-- A line of a comment is indented and has its sign even when it is empty. -/
theorem Layout.chars_commentLine (position : Nat) (line : String) (width : Nat) :
    (commentLine position line).chars width = List.replicate (width * position) ' '
      ++ if line.isEmpty then ['#'] else '#' :: ' ' :: line.toList := by
  rw [commentLine, chars_append (failure_indent position), chars_indent]
  split <;> simp [chars_append (failure_text _)]

/-- A text that is laid out line by line is what is written for its lines, joined by line breaks. -/
theorem Layout.chars_separated_lines {layout : String → Layout}
    (sound : ∀ line, (layout line).failure = none) {width : Nat} {write : List Char → List Char}
    (writes : ∀ cs, (layout (String.ofList cs)).chars width = write cs) (s : String) :
    (separated newline ((Text.lines s).map layout)).chars width =
      ['\n'].intercalate ((Text.lineChars s.toList).map write) := by
  have parts : ∀ part ∈ (Text.lines s).map layout, part.failure = none :=
    List.forall_mem_map.mpr fun line _ => sound line
  rw [chars_separated failure_newline parts, chars_newline, Text.lines, List.map_map, List.map_map]
  exact congrArg _ (List.map_congr_left fun cs _ => writes cs)

/-- The text of an outline is its lines, joined by line breaks. -/
theorem Outline.chars_eq_intercalate (o : Outline) (width position : Nat) :
    o.chars width position =
      ['\n'].intercalate (o.first :: o.rest.map (Line.chars width position)) := by
  have general : ∀ (first : List Char) (lines : List Line),
      (⟨first, lines⟩ : Outline).chars width position =
        ['\n'].intercalate (first :: lines.map (Line.chars width position)) := by
    intro first lines
    induction lines generalizing first with
    | nil => simp [chars]
    | cons line lines ih =>
      have tail := ih (line.chars width position)
      rw [List.map_cons, List.intercalate_cons_cons, ← tail]
      simp [chars]
  exact general o.first o.rest

namespace Outline

/-- The outline of items between brackets describes their layout, on one line or stacked. -/
theorem describes_bracketed {α : Type} {xs : List α} {outline : α → Outline}
    {layout : α → Nat → LineMode → Layout} (construct : Construct) {opening closing : String}
    (opens : opening.toList ≠ [] ∧ '\n' ∉ opening.toList)
    (closes : closing.toList ≠ [] ∧ '\n' ∉ closing.toList) (fits : Bool)
    (describes : ∀ x ∈ xs, (outline x).Describes (layout x · .continueLine))
    (starts : ∀ x ∈ xs, ∀ q, layout x q .newLine = Layout.indent q ++ layout x q .continueLine) :
    (bracketed construct opening closing fits (xs.map outline)).Describes fun position =>
      Layout.bracketed opening closing fits position fun q m => xs.map (layout · q m) := by
  cases fits with
  | true =>
    exact ((describes_text opens.2).append (describes_commaSeparated describes)).append
      (describes_text closes.2)
  | false =>
    have comma {x : α} (mem : x ∈ xs) : (outline x ++ text ",").Describes
        fun q => layout x q .continueLine ++ Layout.text "," :=
      (describes x mem).append (describes_text (by decide))
    have start {x : α} (mem : x ∈ xs) : (outline x ++ text ",").first ≠ [] :=
      first_append_ne_nil_of_next (describes x mem).full.first (by decide)
    have lines := describes_stacked construct opens closes (fun _ => comma) (fun _ => start)
    rw [bracketed, if_neg Bool.false_ne_true, List.map_map]
    refine lines.congr fun position => ?_
    have items : xs.map (fun x => Layout.newline ++ Layout.indent (position + 1)
          ++ (layout x (position + 1) .continueLine ++ Layout.text ",")) =
        (xs.map (layout · (position + 1) .newLine ++ Layout.text ",")).map
          (Layout.newline ++ ·) := by
      rw [List.map_map]
      refine List.map_congr_left fun x mem => ?_
      rw [Function.comp, starts x mem, Layout.append_assoc, Layout.append_assoc]
    rw [items, Layout.append_assoc (Layout.text opening), ← Layout.newline_concat, List.map_map,
      Layout.bracketed, Layout.arranged, if_neg Bool.false_ne_true, Layout.stacked, List.map_map]
    simp only [Layout.append_assoc, Function.comp_def]

/-- The lines of a string between triple quotes. -/
theorem describes_block (lines : List String) (unbroken : ∀ line ∈ lines, '\n' ∉ line.toList) :
    (⟨"\"\"\"".toList, lines.map (⟨[], ·.toList⟩) ++ [⟨[], "\"\"\"".toList⟩]⟩ : Outline).Describes
      fun position =>
        Layout.text "\"\"\"" ++ Layout.newline
          ++ Layout.concat (lines.map fun line => Layout.blockLine position line ++ Layout.newline)
          ++ Layout.indent position ++ Layout.text "\"\"\"" := by
  have chars_line (width position : Nat) (line : String) :
      (Layout.newline ++ Layout.blockLine position line).chars width =
        '\n' :: (⟨[], line.toList⟩ : Line).chars width position := by
    rw [Layout.chars_append rfl, Layout.chars_blockLine]
    rfl
  have inner (width position : Nat) : (Layout.concat (lines.map fun line =>
        Layout.newline ++ Layout.blockLine position line)).chars width =
      (lines.map fun line => (⟨[], line.toList⟩ : Line)).flatMap
        fun line => '\n' :: line.chars width position := by
    have sound : ∀ part ∈ lines.map fun line => Layout.newline ++ Layout.blockLine position line,
        part.failure = none :=
      List.forall_mem_map.mpr fun line _ => by simp [Layout.failure_blockLine]
    rw [Layout.chars_concat sound, List.flatMap_map, List.flatMap_map]
    simp only [chars_line]
  have quotes : "\"\"\"".toList ≠ [] ∧ '\n' ∉ "\"\"\"".toList := by decide
  have block := describes_closed quotes quotes (fun width position _ => inner width position)
    (List.forall_mem_map.mpr unbroken)
  refine block.congr fun position => ?_
  have rotated := Layout.newline_concat (lines.map (Layout.blockLine position))
  simp only [List.map_map, Function.comp_def] at rotated
  rw [Layout.append_assoc (Layout.text _), rotated]
  simp only [Layout.append_assoc]

/-- The outline of a string literal describes its layout, on one line or as a block. -/
theorem describes_quoted (value : String) :
    (quoted value).Describes fun position => Layout.quoted position value := by
  have unbroken : ∀ line ∈ Text.lines value, '\n' ∉ line.toList := by
    intro line mem
    obtain ⟨cs, memChars, rfl⟩ := List.mem_map.mp mem
    rw [String.toList_ofList]
    exact Text.newline_not_mem_lineChars _ cs memChars
  unfold quoted Layout.quoted
  cases lines : Text.lines value with
  | nil => exact describes_block [] (lines ▸ unbroken)
  | cons line more =>
    cases more with
    | nil =>
      have quote : (text "\"").Describes fun _ => Layout.text "\"" := describes_text (by decide)
      exact (quote.append (describes_text (Text.newline_not_mem_of_lines lines))).append quote
    | cons next more => exact describes_block (line :: next :: more) (lines ▸ unbroken)

end Outline

end StarlarkCode
