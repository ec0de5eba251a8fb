import StarlarkCode.Proofs.Outline
import Mathlib.Data.List.DropRight

/-!
# The text of a file

What a formatted file holds, said without printer and buffer. The texts of the statements stand
below each other, with the line breaks that `Statement.wantsBlankLine` asks for between them; then
all line breaks at the end are taken away and one is put there. `Style.format_eq_ok_iff` says this
of every file with a statement in it.

Text that comes out this way is taken over unchanged when it goes in again as raw text: its lines
are those of the raw statement, and of the two line breaks that end up behind them one is dropped.
-/

namespace StarlarkCode

/-! ## Finishing a text -/

/-- No line break is left at the end. -/
theorem getLast?_rdropWhile (cs : List Char) :
    (cs.rdropWhile (· == '\n')).getLast? ≠ some '\n' := by
  intro ended
  obtain ⟨front, eq⟩ := List.getLast?_eq_some_iff.mp ended
  have nonempty : cs.rdropWhile (· == '\n') ≠ [] := by simp [eq]
  have last := List.rdropWhile_last_not (· == '\n') cs nonempty
  simp [eq] at last

/-- Dropping one break after the other leaves one of those that there were. -/
theorem Buffer.dropBreaks_eq (cs : List Char) :
    dropBreaks cs = (cs.takeWhile (· == '\n')).take 1 ++ cs.dropWhile (· == '\n') := by
  fun_induction dropBreaks cs with
  | case1 c d cs breaks ih =>
    obtain ⟨rfl, rfl⟩ := breaks
    rw [ih]
    simp
  | case2 c d cs other =>
    by_cases first : c = '\n'
    · have second : d ≠ '\n' := fun second => other ⟨first, second⟩
      simp [first, second]
    · simp [first]
  | case3 cs short =>
    rcases cs with _ | ⟨c, _ | ⟨d, cs⟩⟩
    · rfl
    · by_cases only : c = '\n' <;> simp [only]
    · exact absurd rfl (short c d cs)

/-- A text is finished by putting one line break in place of all that it ends in. -/
theorem Buffer.finish_eq {b : Buffer} (something : b.text ≠ "") :
    b.finish = String.ofList (b.text.toList.rdropWhile (· == '\n') ++ ['\n']) := by
  have kept : b.dropBlankTail.text.toList = b.text.toList.rdropWhile (· == '\n')
      ++ ((b.text.toList.reverse.takeWhile (· == '\n')).take 1).reverse := by
    simp [dropBlankTail, dropBreaks_eq, List.rdropWhile]
  rw [finish, if_neg (mt String.isEmpty_iff.mp something), endLine]
  cases breaks : b.text.toList.reverse.takeWhile (· == '\n') with
  | nil =>
    rw [breaks, List.take_nil, List.reverse_nil, List.append_nil] at kept
    rw [kept, if_neg (getLast?_rdropWhile _), ← String.toList_inj]
    simp [kept]
  | cons c more =>
    have first : c = '\n' := by
      have all := List.all_takeWhile (p := (· == '\n')) (l := b.text.toList.reverse)
      simp_all
    rw [breaks, first] at kept
    rw [kept, if_pos (by simp), ← String.toList_inj]
    simp [kept]

/-! ## Statements below each other -/

namespace Statement

/-- The text of a statement of a file, for a width of a level. -/
def chars (width : Nat) (s : Statement) : List Char :=
  (s.layout 0 .newLine).chars width

/-- The text of the statements after a given one, each on a new line, up to the line break that ends
the last. -/
def charsAfter (width : Nat) : Statement → List Statement → List Char
  | _, [] => ['\n']
  | previous, s :: rest =>
    '\n' :: ((if previous.wantsBlankLine s then ['\n'] else []) ++ s.chars width
      ++ charsAfter width s rest)

/-- Statements behind another are laid out with their blank lines. -/
theorem chars_layoutAfter (width : Nat) (previous : Statement) {rest : List Statement}
    (sound : ∀ s ∈ rest, (s.layout 0 .newLine).failure = none) :
    (layoutAfter 0 .newLine previous rest).chars width = charsAfter width previous rest := by
  induction rest generalizing previous with
  | nil => rfl
  | cons s rest ih =>
    obtain ⟨first, others⟩ := List.forall_mem_cons.mp sound
    have breaks : (Layout.newline
          ++ if previous.wantsBlankLine s then Layout.newline else Layout.empty).chars width =
        '\n' :: if previous.wantsBlankLine s then ['\n'] else [] := by
      split <;> rfl
    have unfailing : (Layout.newline
        ++ if previous.wantsBlankLine s then Layout.newline else Layout.empty).failure = none := by
      split <;> rfl
    rw [layoutAfter, charsAfter, Layout.chars_append (by simp [unfailing, first]),
      Layout.chars_append unfailing, breaks, ih s others]
    rfl

end Statement

/-- The text of a file before it is finished. -/
def File.chars (width : Nat) (f : File) : List Char :=
  match f.statements with
  | [] => []
  | s :: rest => s.chars width ++ Statement.charsAfter width s rest

namespace File

/-- A file can be laid out when each of its statements can. -/
theorem layout_sound_iff (f : File) :
    (f.layout 0 .newLine).failure = none ↔
      ∀ s ∈ f.statements, (s.layout 0 .newLine).failure = none := by
  obtain ⟨kind, name, statements⟩ := f
  cases statements with
  | nil => simp [layout, Layout.refuseSingleLine]
  | cons s rest =>
    simp [layout, Layout.refuseSingleLine, Statement.layoutAfter_failure]

/-- The text of a file is that of its statements and the line breaks between them. -/
theorem chars_layout (width : Nat) {f : File}
    (sound : ∀ s ∈ f.statements, (s.layout 0 .newLine).failure = none) :
    (f.layout 0 .newLine).chars width = f.chars width := by
  obtain ⟨kind, name, statements⟩ := f
  cases statements with
  | nil => rfl
  | cons s rest =>
    obtain ⟨first, others⟩ := List.forall_mem_cons.mp sound
    simp [layout, Layout.refuseSingleLine, Layout.empty_append, Layout.chars_append, first,
      Statement.chars_layoutAfter width s others, chars, Statement.chars]

/-- A file with a statement has a text. -/
theorem chars_ne_nil (width : Nat) {f : File} (something : f.statements ≠ []) :
    f.chars width ≠ [] := by
  obtain ⟨kind, name, statements⟩ := f
  cases statements with
  | nil => exact absurd rfl something
  | cons s rest => cases rest <;> simp [chars, Statement.charsAfter]

end File

namespace Style

/-- A file is formatted as a node and then finished. -/
theorem format_eq_map (style : Style) (f : File) :
    style.format f = (style.formatNode (.file f) 0 .newLine).map fun s => (Buffer.mk s).finish := by
  rw [format, formatNode, Printer.printNode_eq]
  cases (Node.layout (.file f) 0 .newLine).failure <;> rfl

/-- A file with statements can be formatted exactly when all of them can, and its text is that of
the statements, with one line break at the end. -/
theorem format_eq_ok_iff {style : Style} {f : File} {text : String}
    (something : f.statements ≠ []) :
    style.format f = .ok text ↔
      (∀ s ∈ f.statements, (s.layout 0 .newLine).failure = none) ∧
        text = String.ofList ((f.chars style.indentWidth).rdropWhile (· == '\n') ++ ['\n']) := by
  rw [format_eq_map, ← f.layout_sound_iff]
  cases failure : (f.layout 0 .newLine).failure with
  | some e =>
    have failed : style.formatNode (.file f) 0 .newLine = .error e :=
      formatNode_eq_error_iff.mpr failure
    rw [failed]
    simp [Except.map]
  | none =>
    have sound := f.layout_sound_iff.mp failure
    have nonempty : String.ofList (f.chars style.indentWidth) ≠ "" := by
      simpa using File.chars_ne_nil style.indentWidth something
    have formatted : style.formatNode (.file f) 0 .newLine =
        .ok (String.ofList (f.chars style.indentWidth)) := by
      rw [← File.chars_layout style.indentWidth sound]
      exact style.formatNode_eq failure
    have finished := Buffer.finish_eq (b := ⟨String.ofList (f.chars style.indentWidth)⟩) nonempty
    rw [String.toList_ofList] at finished
    rw [formatted, Except.map, finished]
    simp [eq_comm]

end Style

/-! ## Raw text -/

namespace Text

theorem intercalate_consFirst (c : Char) (lines : List (List Char)) :
    ['\n'].intercalate (consFirst c lines) = c :: ['\n'].intercalate lines := by
  cases lines with
  | nil => rfl
  | cons line lines => cases lines <;> simp [consFirst]

/-- The lines of a text joined by line feeds are the text, if it has no breaks of another style. -/
theorem intercalate_lineChars {cs : List Char} (unix : '\r' ∉ cs) :
    ['\n'].intercalate (lineChars cs) = cs := by
  fun_induction lineChars cs with
  | case1 => rfl
  | case2 cs => exact absurd List.mem_cons_self unix
  | case3 cs => exact absurd List.mem_cons_self unix
  | case4 cs ih =>
    have rest := ih fun mem => unix (List.mem_cons_of_mem _ mem)
    obtain ⟨line, lines, eq⟩ := List.exists_cons_of_ne_nil (lineChars_ne_nil cs)
    rw [eq] at rest ⊢
    rw [List.intercalate_cons_cons, rest]
    rfl
  | case5 c cs _ _ _ ih =>
    rw [intercalate_consFirst, ih fun mem => unix (List.mem_cons_of_mem _ mem)]

end Text

/-- A raw statement is the lines of its text. -/
theorem Statement.chars_raw (width : Nat) (s : String) :
    (Statement.raw s).chars width = ['\n'].intercalate (Text.lineChars s.toList) := by
  have line (cs : List Char) : (Layout.blockLine 0 (String.ofList cs)).chars width = id cs := by
    rw [Layout.chars_blockLine]
    by_cases blank : cs = [] <;> simp [Line.chars, Line.depth, blank]
  rw [chars, layout, Layout.refuseSingleLine, Layout.empty_append,
    Layout.chars_separated_lines (Layout.failure_blockLine 0) line, List.map_id]

namespace Style

/-- Formatted text is taken over as it is: as the only statement of a file, a raw text that comes
from formatting a file with any width of a level is formatted as itself with every other. -/
theorem format_takes_over_formatted (style again : Style) (f g : File) (text : String)
    (something : f.statements ≠ []) (formatted : style.format f = .ok text)
    (unix : '\r' ∉ text.toList) (only : g.statements = [.raw text]) :
    again.format g = .ok text := by
  obtain ⟨-, finished⟩ := (format_eq_ok_iff something).mp formatted
  have taken : g.chars again.indentWidth = text.toList ++ ['\n'] := by
    simp [File.chars, only, Statement.chars_raw, Text.intercalate_lineChars unix,
      Statement.charsAfter]
  refine (format_eq_ok_iff (by simp [only])).mpr ⟨?_, ?_⟩
  · simp [only, Statement.layout, Layout.refuseSingleLine, Layout.failure_blockLine,
      Layout.failure_separated Layout.failure_newline]
  · rw [taken, List.rdropWhile_concat_pos _ _ _ rfl, finished, String.toList_ofList,
      List.rdropWhile_concat_pos _ _ _ rfl, List.rdropWhile_idempotent]

/-- A file that starts and ends with empty lines, and has one in a comment. -/
def blankEdges : File :=
  .build false [.emptyLine, .comment "a\n\nb",
    .assignment "A" (.list [.string "x", .string "y"]), .emptyLine, .emptyLine]

theorem format_takes_over_blankEdges :
    blankEdges.statements ≠ [] ∧
      format {} blankEdges = .ok "\n# a\n#\n# b\nA = [\n    \"x\",\n    \"y\",\n]\n" ∧
      format ⟨2⟩ (.bzl "again" [.raw "\n# a\n#\n# b\nA = [\n    \"x\",\n    \"y\",\n]\n"]) =
        .ok "\n# a\n#\n# b\nA = [\n    \"x\",\n    \"y\",\n]\n" := by
  have something : blankEdges.statements ≠ [] := List.cons_ne_nil _ _
  have formatted : format {} blankEdges =
      .ok "\n# a\n#\n# b\nA = [\n    \"x\",\n    \"y\",\n]\n" := rfl
  exact ⟨something, formatted,
    format_takes_over_formatted {} ⟨2⟩ blankEdges _ _ something formatted (by decide) rfl⟩

end Style

end StarlarkCode
