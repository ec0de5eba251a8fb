import StarlarkCode.Proofs.Files
import StarlarkCode.Proofs.Outline.LineEnds

/-!
# Line ends of a file

No line of a formatted file ends in white space. The statements that follow an outline have this
from `Node.inked`, and the lines of comments and raw text from the texts themselves. Line breaks
between statements split the text of the file into those of the statements, and to drop the breaks
at the end leaves the lines before them alone.
-/

namespace StarlarkCode

/-! ## Lines of a text -/

namespace Text

/-- No line of the text ends in white space. -/
def LinesTrimmed (cs : List Char) : Prop :=
  ∀ line ∈ cs.splitOn '\n', Trimmed line

/-- Lines are trimmed on both sides of a line break or on neither. -/
theorem linesTrimmed_append_newline (a b : List Char) :
    LinesTrimmed (a ++ '\n' :: b) ↔ LinesTrimmed a ∧ LinesTrimmed b := by
  simp only [LinesTrimmed, List.splitOn_eq_splitOnP]
  rw [List.splitOnP_append_cons (p := (· == '\n')) a b rfl, List.forall_mem_append]

theorem linesTrimmed_nil : LinesTrimmed [] := by
  intro line mem
  rw [List.splitOn_nil, List.mem_singleton] at mem
  rw [mem]
  decide

/-- Lines that do not end in white space make up a text whose lines do not. -/
theorem linesTrimmed_intercalate {lines : List (List Char)} (some : lines ≠ [])
    (unbroken : ∀ line ∈ lines, '\n' ∉ line) (trimmed : ∀ line ∈ lines, Trimmed line) :
    LinesTrimmed (['\n'].intercalate lines) := by
  rw [LinesTrimmed, List.splitOn_intercalate '\n' unbroken some]
  exact trimmed

/-- Without the line breaks at its end, a text has fewer lines. -/
theorem LinesTrimmed.rdropWhile {cs : List Char} (trimmed : LinesTrimmed cs) :
    LinesTrimmed (cs.rdropWhile (· == '\n')) := by
  induction cs using List.reverseRecOn with
  | nil => exact linesTrimmed_nil
  | append_singleton cs c ih =>
    rw [List.rdropWhile_concat]
    split
    next isBreak =>
      rw [beq_iff_eq.mp isBreak] at trimmed
      exact ih ((linesTrimmed_append_newline cs []).mp trimmed).1
    next => exact trimmed

end Text

open Text (LinesTrimmed linesTrimmed_append_newline linesTrimmed_intercalate linesTrimmed_nil)

/-- Indentation stands before text only, so it ends no line. -/
theorem Outline.linesTrimmed_chars {o : Outline} (inked : o.Inked) (unbroken : o.Unbroken)
    (width position : Nat) : LinesTrimmed (o.chars width position) := by
  have trimmedLine (line : Line) (trimmed : Text.Trimmed line.text) :
      Text.Trimmed (line.chars width position) := by
    unfold Line.chars
    split
    · decide
    next some => exact Text.trimmed_append some trimmed _
  rw [o.chars_eq_intercalate]
  refine linesTrimmed_intercalate (List.cons_ne_nil _ _) ?_ ?_
  · refine List.forall_mem_cons.mpr ⟨unbroken.1, List.forall_mem_map.mpr fun line mem => ?_⟩
    exact Line.newline_not_mem_chars (unbroken.2 line mem) width position
  · refine List.forall_mem_cons.mpr ⟨inked.first, List.forall_mem_map.mpr fun line mem => ?_⟩
    exact trimmedLine line (inked.rest line mem)

/-! ## Statements -/

/-- No line of an outlined node ends in white space if the texts in it do not. -/
theorem Node.linesTrimmed_chars {n : Node} {o : Outline} (outlined : n.outline? = some o)
    (unbroken : n.HasUnbrokenNames) (trimmed : n.HasTrimmedTexts)
    (sound : (n.layout 0 .newLine).failure = none) (width : Nat) :
    LinesTrimmed ((n.layout 0 .newLine).chars width) := by
  rw [n.chars_layout outlined unbroken (by decide) sound, if_pos rfl, Nat.mul_zero]
  exact Outline.linesTrimmed_chars (n.inked trimmed o outlined)
    (n.described unbroken o outlined).unbroken width 0

namespace Statement

/-- No line of a raw statement ends in white space if those of its text do not. -/
theorem linesTrimmed_chars_raw {s : String}
    (trimmed : ∀ line ∈ Text.lines s, Text.Trimmed line.toList) (width : Nat) :
    LinesTrimmed ((Statement.raw s).chars width) := by
  have each : ∀ cs ∈ Text.lineChars s.toList, Text.Trimmed cs := by
    simpa [Text.lines] using trimmed
  rw [chars_raw]
  exact linesTrimmed_intercalate (Text.lineChars_ne_nil _) (Text.newline_not_mem_lineChars _) each

/-- The space after the sign of a comment is left out where the line is empty. -/
theorem linesTrimmed_chars_comment {s : String}
    (trimmed : ∀ line ∈ Text.lines s, Text.Trimmed line.toList) (width : Nat) :
    LinesTrimmed ((Statement.comment s).chars width) := by
  have each : ∀ cs ∈ Text.lineChars s.toList, Text.Trimmed cs := by
    simpa [Text.lines] using trimmed
  have written (cs : List Char) : (Layout.commentLine 0 (String.ofList cs)).chars width =
      if cs = [] then ['#'] else '#' :: ' ' :: cs := by
    rw [Layout.chars_commentLine]
    simp
  rw [chars, layout, Layout.refuseSingleLine, Layout.empty_append,
    Layout.chars_separated_lines (Layout.failure_commentLine 0) written]
  refine linesTrimmed_intercalate (by simp [Text.lineChars_ne_nil]) ?_ ?_
  · refine List.forall_mem_map.mpr fun cs mem => ?_
    split <;> simp [Text.newline_not_mem_lineChars s.toList cs mem]
  · refine List.forall_mem_map.mpr fun cs mem => ?_
    split
    next => decide
    next full => exact Text.trimmed_append full (each cs mem) ['#', ' ']

/-- No line of an assignment ends in white space if the texts in its value do not. -/
theorem linesTrimmed_chars_assignment {name : String} {value : Expr} (unbroken : '\n' ∉ name.toList)
    (names : (Node.expression value).HasUnbrokenNames)
    (trimmed : (Node.expression value).HasTrimmedTexts)
    (sound : ((Statement.assignment name value).layout 0 .newLine).failure = none) (width : Nat) :
    LinesTrimmed ((Statement.assignment name value).chars width) := by
  have inValue : value.outline.Describes (value.layout · .continueLine) :=
    (Node.expression value).described names _ rfl
  have described := ((Outline.describes_text unbroken).append
    (Outline.describes_text (s := " = ") (by decide))).append inValue
  have inked := ((Outline.introduces_text name).append (Outline.introduces_text " = ")) _
    ((Node.expression value).inked trimmed _ rfl)
  have unindented : (Statement.assignment name value).chars width =
      (Layout.text name ++ Layout.text " = " ++ value.layout 0 .continueLine).chars width := by
    rw [chars, layout, Layout.refuseSingleLine, if_pos rfl, Layout.empty_append,
      Layout.empty_append, Layout.append_assoc (Layout.indent 0), Layout.append_assoc,
      Layout.chars_append (Layout.failure_indent 0), Layout.chars_indent]
    rfl
  have soundValue : (value.layout 0 .continueLine).failure = none := by
    simpa [layout, Layout.refuseSingleLine] using sound
  rw [unindented, described.chars_eq width 0 (by simp [soundValue])]
  exact Outline.linesTrimmed_chars inked described.unbroken width 0

/-- No line of a statement ends in white space if the texts in it do not. -/
theorem linesTrimmed_chars {s : Statement}
    (assigned : ∀ name value, s = .assignment name value → '\n' ∉ name.toList)
    (names : (Node.statement s).HasUnbrokenNames) (trimmed : (Node.statement s).HasTrimmedTexts)
    (sound : (s.layout 0 .newLine).failure = none) (width : Nat) :
    LinesTrimmed (s.chars width) := by
  obtain ⟨texts, partTexts⟩ := (Node.hasTrimmedTexts_iff _).mp trimmed
  obtain ⟨-, partNames⟩ := (Node.hasUnbrokenNames_iff _).mp names
  cases s with
  | expression value =>
    rw [layout, Layout.refuseSingleLine, Layout.empty_append] at sound
    rw [chars, layout, Layout.refuseSingleLine, Layout.empty_append]
    exact Node.linesTrimmed_chars (n := .expression value) rfl (partNames _ List.mem_cons_self)
      (partTexts _ List.mem_cons_self) sound width
  | assignment name value =>
    exact linesTrimmed_chars_assignment (assigned name value rfl) (partNames _ List.mem_cons_self)
      (partTexts _ List.mem_cons_self) sound width
  | load imported =>
    exact Node.linesTrimmed_chars (n := .statement (.load imported)) rfl names trimmed sound width
  | raw s => exact linesTrimmed_chars_raw texts width
  | emptyLine => exact linesTrimmed_nil
  | comment s => exact linesTrimmed_chars_comment texts width

/-- The line breaks between statements end the lines before them. -/
theorem linesTrimmed_charsAfter {width : Nat} {rest : List Statement}
    (trimmed : ∀ s ∈ rest, LinesTrimmed (s.chars width)) (previous : Statement) {before : List Char}
    (start : LinesTrimmed before) : LinesTrimmed (before ++ charsAfter width previous rest) := by
  induction rest generalizing previous before with
  | nil => exact (linesTrimmed_append_newline before []).mpr ⟨start, linesTrimmed_nil⟩
  | cons s rest ih =>
    obtain ⟨first, others⟩ := List.forall_mem_cons.mp trimmed
    have after := ih others s first
    refine (linesTrimmed_append_newline _ _).mpr ⟨start, ?_⟩
    rw [List.append_assoc]
    split
    · exact (linesTrimmed_append_newline [] _).mpr ⟨linesTrimmed_nil, after⟩
    · exact after

end Statement

/-- No line of a file ends in white space if none of its statements' do: blank lines between them
are empty. -/
theorem File.linesTrimmed_chars {f : File} {width : Nat}
    (trimmed : ∀ s ∈ f.statements, LinesTrimmed (s.chars width)) :
    LinesTrimmed (f.chars width) := by
  unfold chars
  split
  next => exact linesTrimmed_nil
  next s rest eq =>
    rw [eq] at trimmed
    obtain ⟨first, others⟩ := List.forall_mem_cons.mp trimmed
    exact Statement.linesTrimmed_charsAfter others s first

namespace Style

/-- No line of a formatted file ends in white space, if names and raw texts stay on a line, the
texts that can stand last on it do not end in white space, and neither do the lines of comments, raw
statements and blocks of text. -/
theorem format_lines_trimmed (style : Style) (f : File) (text : String)
    (formatted : style.format f = .ok text) (names : (Node.file f).HasUnbrokenNames)
    (assigned : ∀ name value, Statement.assignment name value ∈ f.statements → '\n' ∉ name.toList)
    (trimmed : (Node.file f).HasTrimmedTexts) :
    ∀ line ∈ text.toList.splitOn '\n', ∀ c ∈ line.getLast?, Text.isWhiteSpace c = false := by
  show LinesTrimmed text.toList
  by_cases something : f.statements = []
  · obtain ⟨kind, name, statements⟩ := f
    cases something
    cases formatted
    exact linesTrimmed_nil
  · obtain ⟨sound, written⟩ := (format_eq_ok_iff something).mp formatted
    -- What is known of the tree of the file is known of the tree of each statement.
    have inStatements : ∀ s ∈ f.statements, LinesTrimmed (s.chars style.indentWidth) := by
      intro s mem
      have part := List.mem_map_of_mem (f := fun s => (⟨0, .statement s⟩ : Placed)) mem
      refine Statement.linesTrimmed_chars ?_ ((Node.hasUnbrokenNames_iff _).mp names |>.2 _ part)
        ((Node.hasTrimmedTexts_iff _).mp trimmed |>.2 _ part) (sound s mem) _
      rintro name value rfl
      exact assigned name value mem
    rw [written, String.toList_ofList]
    refine (linesTrimmed_append_newline _ []).mpr ⟨?_, linesTrimmed_nil⟩
    exact (File.linesTrimmed_chars inStatements).rdropWhile

/-- A file with texts that end in white space where it does not matter, before the sign of an
assignment and inside quotes, and with empty lines in a comment and in a block of text. -/
def spacedTexts : File :=
  .build false [.comment "a\n\nb",
    .assignment "A " (.list [.string "x ", .string "y\n\nz", .raw "r", .tuple []])]

theorem format_lines_trimmed_spacedTexts :
    (Node.file spacedTexts).HasUnbrokenNames ∧ (Node.file spacedTexts).HasTrimmedTexts ∧
      ∃ text, format {} spacedTexts = .ok text ∧
        ∀ line ∈ text.toList.splitOn '\n', ∀ c ∈ line.getLast?, Text.isWhiteSpace c = false := by
  have names : (Node.file spacedTexts).HasUnbrokenNames := by
    simp [spacedTexts, File.build, Node.hasUnbrokenNames_iff (.file _),
      Node.hasUnbrokenNames_iff (.statement _), Node.hasUnbrokenNames_iff (.expression _),
      Node.bareTexts, Expr.bareTexts, Node.parts, Statement.parts, Expr.parts]
  have trimmed : (Node.file spacedTexts).HasTrimmedTexts := by
    have comment : ∀ line ∈ Text.lines "a\n\nb", Text.Trimmed line.toList := by decide
    have line : Text.BlockTrimmed "x " := by decide
    have block : Text.BlockTrimmed "y\n\nz" := by decide
    have bare : Text.Trimmed ['r'] := by decide
    simpa [spacedTexts, File.build, Node.hasTrimmedTexts_iff (.file _),
      Node.hasTrimmedTexts_iff (.statement _), Node.hasTrimmedTexts_iff (.expression _),
      Node.TextsTrimmed, Node.parts, Statement.parts, Expr.parts, line, block, bare] using comment
  have assigned : ∀ name value, Statement.assignment name value ∈ spacedTexts.statements →
      '\n' ∉ name.toList := by
    simp [spacedTexts, File.build]
  obtain ⟨text, formatted⟩ : ∃ text, format {} spacedTexts = .ok text := ⟨_, rfl⟩
  exact ⟨names, trimmed, text, formatted,
    format_lines_trimmed {} spacedTexts text formatted names assigned trimmed⟩

end Style

end StarlarkCode
