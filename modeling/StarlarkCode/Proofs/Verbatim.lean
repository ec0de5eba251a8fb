import StarlarkCode.Proofs.Outline
import Mathlib.Data.List.Basic

/-!
# Texts taken over line by line

A comment, a raw statement and a string literal hold any text, and take it over one line at a time.
Of the text they lose the style of its line breaks and nothing else: two texts are written alike
exactly when they have the same lines (`Style.formatNode_verbatim_eq_iff`).

What is written is a row of lines again (`Verbatim.written`). No break of the text is left in them,
so the row is told from the written text (`Text.splitOnP_intercalate`), and the lines of the text
from the row (`Verbatim.written_injective`): what is written for an empty line is shorter than what
is written for any other, and a block between quotes has lines that a string on one line lacks. For
a comment this means that no part of it gets out of the comment.
-/

namespace StarlarkCode

namespace Text

/-! ## Rows of lines -/

/-- A carriage return or a line feed. -/
def isBreak (c : Char) : Bool :=
  c == '\r' || c == '\n'

/-- The characters stay on one line: there is no break of any style among them. -/
def IsLine (cs : List Char) : Prop :=
  ∀ c ∈ cs, isBreak c = false

/-- The lines of a text have no line breaks. -/
theorem isLine_of_mem_lineChars {cs line : List Char} (mem : line ∈ lineChars cs) :
    IsLine line := by
  intro c memLine
  simpa [isBreak] using unbroken_lineChars cs line mem c memLine

theorem IsLine.append {a b : List Char} (left : IsLine a) (right : IsLine b) : IsLine (a ++ b) :=
  List.forall_mem_append.mpr ⟨left, right⟩

theorem isLine_spaces (count : Nat) : IsLine (List.replicate count ' ') := by
  intro c mem
  rw [List.eq_of_mem_replicate mem]
  rfl

/-- Lines are told from the text that joins them. -/
theorem splitOnP_intercalate {lines : List (List Char)} (nonempty : lines ≠ [])
    (unbroken : ∀ line ∈ lines, IsLine line) :
    (['\n'].intercalate lines).splitOnP isBreak = lines := by
  induction lines with
  | nil => exact absurd rfl nonempty
  | cons line lines ih =>
    obtain ⟨first, others⟩ := List.forall_mem_cons.mp unbroken
    cases lines with
    | nil =>
      rw [List.intercalate_singleton]
      exact List.splitOnP_eq_singleton first
    | cons next lines =>
      rw [List.intercalate_cons_cons, List.append_assoc, List.singleton_append,
        List.splitOnP_append_cons_of_forall_mem first _ rfl, ih (List.cons_ne_nil _ _) others]

/-- A text before lines belongs to the first of them. -/
theorem append_intercalate (front line : List Char) (lines : List (List Char)) :
    front ++ ['\n'].intercalate (line :: lines) =
      ['\n'].intercalate ((front ++ line) :: lines) := by
  cases lines <;> simp

/-! ## Single lines -/

/-- A line behind the text that goes before each line; for an empty line there is a text of its own.
-/
def writtenLine (front blank line : List Char) : List Char :=
  if line = [] then blank else front ++ line

section

variable {front blank : List Char}

/-- A line written behind a front can be told from any other, if what stands for a blank line is no
longer than the front. -/
theorem writtenLine_injective (shorter : blank.length ≤ front.length) :
    Function.Injective (writtenLine front blank) := by
  have longer (c : Char) (line : List Char) : blank ≠ front ++ c :: line := by
    intro same
    have lengths := congrArg List.length same
    rw [List.length_append, List.length_cons] at lengths
    omega
  intro a b same
  cases a with
  | nil =>
    cases b with
    | nil => rfl
    | cons c b => exact absurd same (longer c b)
  | cons c a =>
    cases b with
    | nil => exact absurd same.symm (longer c a)
    | cons d b => exact List.append_cancel_left same

/-- A line stays one line. -/
theorem isLine_writtenLine (before : IsLine front) (instead : IsLine blank) {line : List Char}
    (unbroken : IsLine line) : IsLine (writtenLine front blank line) := by
  unfold writtenLine
  split
  · exact instead
  · exact before.append unbroken

end

/-! ## Lines between quotes -/

/-- Three quotes. -/
def quotes : List Char := ['"', '"', '"']

/-- A row of lines between quotes, which stand on lines of their own. -/
def quotedBlock (indent : List Char) (lines : List (List Char)) : List (List Char) :=
  (indent ++ quotes) :: (lines.map (writtenLine indent []) ++ [indent ++ quotes])

/-- A line between quotes, or any other number of lines as a block. -/
def quotedLines (indent : List Char) : List (List Char) → List (List Char)
  | [line] => [indent ++ '"' :: (line ++ ['"'])]
  | lines => quotedBlock indent lines

section

variable (indent : List Char)

/-- Blocks of different lines differ. -/
theorem quotedBlock_injective : Function.Injective (quotedBlock indent) := by
  intro a b same
  have inner := List.append_cancel_right (List.cons.inj same).2
  exact List.map_injective_iff.mpr (writtenLine_injective (Nat.zero_le _)) inner

/-- A block has several lines. -/
theorem quotedBlock_ne_singleton (lines : List (List Char)) (line : List Char) :
    quotedBlock indent lines ≠ [line] := by
  intro single
  simp [quotedBlock] at single

/-- Several lines are quoted as a block. -/
theorem quotedLines_of_several {lines : List (List Char)} (several : ∀ line, lines ≠ [line]) :
    quotedLines indent lines = quotedBlock indent lines := by
  unfold quotedLines
  split
  next line => exact absurd rfl (several line)
  next => rfl

/-- There is always a line to quote. -/
theorem quotedLines_ne_nil (lines : List (List Char)) : quotedLines indent lines ≠ [] := by
  unfold quotedLines
  split <;> exact List.cons_ne_nil _ _

/-- Different lines are quoted differently: a block is never taken for a single line. -/
theorem quotedLines_injective : Function.Injective (quotedLines indent) := by
  intro a b same
  by_cases single : ∃ line, a = [line] <;> by_cases single' : ∃ line, b = [line]
  · obtain ⟨line, rfl⟩ := single
    obtain ⟨line', rfl⟩ := single'
    simpa [quotedLines] using same
  · obtain ⟨line, rfl⟩ := single
    rw [quotedLines_of_several indent (not_exists.mp single')] at same
    exact absurd same.symm (quotedBlock_ne_singleton indent b _)
  · obtain ⟨line', rfl⟩ := single'
    rw [quotedLines_of_several indent (not_exists.mp single)] at same
    exact absurd same (quotedBlock_ne_singleton indent a _)
  · rw [quotedLines_of_several indent (not_exists.mp single),
      quotedLines_of_several indent (not_exists.mp single')] at same
    exact quotedBlock_injective indent same

variable {indent}

/-- No line of a quoted text has a line break in it. -/
theorem isLine_of_mem_quotedLines (before : IsLine indent) {lines : List (List Char)}
    (unbroken : ∀ line ∈ lines, IsLine line) : ∀ line ∈ quotedLines indent lines, IsLine line := by
  have quote : IsLine ['"'] := by simp [IsLine, isBreak]
  have atQuotes : IsLine (indent ++ quotes) := before.append (quote.append (quote.append quote))
  unfold quotedLines
  split
  next line =>
    have inner := unbroken line (List.mem_singleton_self line)
    exact List.forall_mem_singleton.mpr (before.append (quote.append (inner.append quote)))
  next =>
    refine List.forall_mem_cons.mpr ⟨atQuotes, List.forall_mem_append.mpr
      ⟨List.forall_mem_map.mpr fun line mem => ?_, List.forall_mem_singleton.mpr atQuotes⟩⟩
    exact isLine_writtenLine before (fun c none => by cases none) (unbroken line mem)

end

end Text

open Text

/-! ## Nodes that are a text -/

/-- A node that holds a text and nothing else. -/
inductive Verbatim where
  | comment
  | raw
  | string
deriving DecidableEq, Repr

namespace Verbatim

/-- The node with a text. -/
def node : Verbatim → String → Node
  | .comment, s => .statement (.comment s)
  | .raw, s => .statement (.raw s)
  | .string, s => .expression (.string s)

/-- The lines that are written for the lines of a text. -/
def written (indent : List Char) : Verbatim → List (List Char) → List (List Char)
  | .comment, lines => lines.map (writtenLine (indent ++ ['#', ' ']) (indent ++ ['#']))
  | .raw, lines => lines.map (writtenLine indent [])
  | .string, lines => quotedLines indent lines

/-- Verbatim texts of different lines are written differently. -/
theorem written_injective (indent : List Char) (v : Verbatim) :
    Function.Injective (v.written indent) := by
  cases v with
  | comment => exact List.map_injective_iff.mpr (writtenLine_injective (by simp))
  | raw => exact List.map_injective_iff.mpr (writtenLine_injective (Nat.zero_le _))
  | string => exact quotedLines_injective indent

/-- A text with a line is written with a line. -/
theorem written_ne_nil (indent : List Char) (v : Verbatim) {lines : List (List Char)}
    (nonempty : lines ≠ []) : v.written indent lines ≠ [] := by
  cases v with
  | comment => simpa [written] using nonempty
  | raw => simpa [written] using nonempty
  | string => exact quotedLines_ne_nil indent lines

/-- Nothing that is added to the lines of a text breaks them. -/
theorem isLine_of_mem_written {indent : List Char} (before : IsLine indent) (v : Verbatim)
    {lines : List (List Char)} (unbroken : ∀ line ∈ lines, IsLine line) :
    ∀ line ∈ v.written indent lines, IsLine line := by
  cases v with
  | comment =>
    have sign : IsLine ['#'] := by simp [IsLine, isBreak]
    have space : IsLine [' '] := by simp [IsLine, isBreak]
    exact List.forall_mem_map.mpr fun line mem =>
      isLine_writtenLine (before.append (sign.append space)) (before.append sign)
        (unbroken line mem)
  | raw =>
    exact List.forall_mem_map.mpr fun line mem =>
      isLine_writtenLine before (fun c none => by cases none) (unbroken line mem)
  | string => exact isLine_of_mem_quotedLines before unbroken

/-- A string literal that starts a line is its lines between quotes. -/
theorem chars_quoted (s : String) (width position : Nat) :
    (Layout.indent position ++ Layout.quoted position s).chars width =
      ['\n'].intercalate
        (quotedLines (List.replicate (width * position) ' ') (lineChars s.toList)) := by
  have outlined := (Outline.describes_quoted s).chars_eq width position
    (Layout.failure_quoted position s)
  rw [Layout.chars_append (Layout.failure_indent position), Layout.chars_indent, outlined,
    Outline.chars_eq_intercalate, append_intercalate]
  refine congrArg _ ?_
  cases lines : lineChars s.toList with
  | nil => exact absurd lines (lineChars_ne_nil s.toList)
  | cons line more =>
    cases more with
    | nil =>
      have only : Text.lines s = [String.ofList line] := by
        rw [Text.lines, lines]
        rfl
      rw [Outline.quoted, only, ← eq_of_lineChars lines]
      show [_ ++ (['"'] ++ s.toList ++ ['"'])] = _
      simp [quotedLines]
    | cons next more =>
      have several : Text.lines s =
          String.ofList line :: String.ofList next :: more.map String.ofList := by
        rw [Text.lines, lines]
        rfl
      have chars (cs : List Char) : (⟨[], cs⟩ : Line).chars width position =
          writtenLine (List.replicate (width * position) ' ') [] cs := rfl
      rw [Outline.quoted, several]
      simp [quotedLines, quotedBlock, quotes, chars, writtenLine, Function.comp_def]

/-- The text of the node is its written lines, joined by line breaks. -/
theorem chars_node (v : Verbatim) (s : String) (width position : Nat) :
    ((v.node s).layout position .newLine).chars width =
      ['\n'].intercalate
        (v.written (List.replicate (width * position) ' ') (lineChars s.toList)) := by
  cases v with
  | comment =>
    refine Layout.chars_separated_lines (Layout.failure_commentLine position) (fun cs => ?_) s
    rw [Layout.chars_commentLine, writtenLine]
    cases cs <;> simp
  | raw =>
    refine Layout.chars_separated_lines (Layout.failure_blockLine position) (fun cs => ?_) s
    rw [Layout.chars_blockLine, String.toList_ofList]
    rfl
  | string => exact chars_quoted s width position

/-- Verbatim texts can be written at every position. -/
theorem failure_node (v : Verbatim) (s : String) (position : Nat) :
    ((v.node s).layout position .newLine).failure = none := by
  cases v with
  | string => exact Layout.failure_quoted position s
  | comment =>
    simp [node, Node.layout, Statement.layout, Layout.refuseSingleLine, Layout.failure_commentLine,
      Layout.failure_separated Layout.failure_newline]
  | raw =>
    simp [node, Node.layout, Statement.layout, Layout.refuseSingleLine, Layout.failure_blockLine,
      Layout.failure_separated Layout.failure_newline]

end Verbatim

/-- Texts have the same lines when their characters do. -/
theorem Text.lines_eq_iff (a b : String) :
    Text.lines a = Text.lines b ↔ lineChars a.toList = lineChars b.toList := by
  have chars : Function.Injective String.ofList := fun _ _ => String.ofList_inj.mp
  exact (List.map_injective_iff.mpr chars).eq_iff

namespace Style

/-- A verbatim text is formatted as its written lines, indented to its position. -/
theorem formatNode_verbatim (style : Style) (v : Verbatim) (s : String) (position : Nat) :
    style.formatNode (v.node s) position .newLine =
      .ok (String.ofList (['\n'].intercalate
        (v.written (List.replicate (style.indentWidth * position) ' ') (lineChars s.toList)))) := by
  rw [style.formatNode_eq (v.failure_node s position), v.chars_node]

/-- The written lines are told from the text of the node. -/
theorem splitOnP_formatted {style : Style} {v : Verbatim} {s text : String} {position : Nat}
    (formatted : style.formatNode (v.node s) position .newLine = .ok text) :
    text.toList.splitOnP isBreak =
      v.written (List.replicate (style.indentWidth * position) ' ') (lineChars s.toList) := by
  rw [formatNode_verbatim] at formatted
  cases formatted
  rw [String.toList_ofList]
  refine splitOnP_intercalate (v.written_ne_nil _ (lineChars_ne_nil _)) ?_
  exact v.isLine_of_mem_written (isLine_spaces _) fun line mem => isLine_of_mem_lineChars mem

/-- Comments, raw statements and string literals can always be formatted, and keep all of their text
but the style of its line breaks: two texts come out the same exactly when they have the same lines.
Every line of a comment, wherever its text is broken, has the sign of a comment behind its
indentation. -/
theorem formatNode_verbatim_eq_iff (style : Style) (position : Nat) :
    (∀ (v : Verbatim) (a b : String),
        (∃ text, style.formatNode (v.node a) position .newLine = .ok text) ∧
        (style.formatNode (v.node a) position .newLine =
            style.formatNode (v.node b) position .newLine ↔ Text.lines a = Text.lines b)) ∧
      ∀ s text, style.formatNode (.statement (.comment s)) position .newLine = .ok text →
        ∀ line ∈ text.toList.splitOnP isBreak,
          List.replicate (style.indentWidth * position) ' ' ++ ['#'] <+: line := by
  refine ⟨fun v a b => ⟨⟨_, formatNode_verbatim style v a position⟩, ?_⟩, ?_⟩
  · rw [Text.lines_eq_iff]
    constructor
    · intro same
      have row := splitOnP_formatted (formatNode_verbatim style v a position)
      have row' := splitOnP_formatted (same ▸ formatNode_verbatim style v a position)
      exact v.written_injective _ (row.symm.trans row')
    · intro same
      rw [formatNode_verbatim, formatNode_verbatim, same]
  · intro s text formatted line mem
    have row : text.toList.splitOnP isBreak = Verbatim.written _ .comment _ :=
      splitOnP_formatted formatted
    rw [row] at mem
    obtain ⟨cs, -, rfl⟩ := List.mem_map.mp mem
    unfold writtenLine
    split
    · exact List.prefix_rfl
    · simp

/-- Breaks of all styles give the same lines; a break at the end gives one more. In a comment the
line behind a lone carriage return is a comment as well. -/
theorem formatNode_verbatim_mixedBreaks :
    formatNode ⟨2⟩ (.expression (.string "a\r\n\rb")) 1 .newLine =
        formatNode ⟨2⟩ (.expression (.string "a\n\nb")) 1 .newLine ∧
      formatNode ⟨2⟩ (.statement (.raw "a\r")) 1 .newLine ≠
        formatNode ⟨2⟩ (.statement (.raw "a")) 1 .newLine ∧
      formatNode ⟨2⟩ (.statement (.comment "a\rb")) 1 .newLine = .ok "  # a\n  # b" ∧
      ∀ line ∈ "  # a\n  # b".toList.splitOnP isBreak, List.replicate 2 ' ' ++ ['#'] <+: line := by
  obtain ⟨texts, comments⟩ := formatNode_verbatim_eq_iff ⟨2⟩ 1
  have formatted : formatNode ⟨2⟩ (.statement (.comment "a\rb")) 1 .newLine =
      .ok "  # a\n  # b" := rfl
  exact ⟨(texts .string _ _).2.mpr (by decide), mt (texts .raw _ _).2.mp (by decide), formatted,
    comments _ _ formatted⟩

end Style

end StarlarkCode
