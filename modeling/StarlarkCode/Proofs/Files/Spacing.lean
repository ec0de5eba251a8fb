import StarlarkCode.Proofs.Files

/-!
# Blank lines between statements

Where the line breaks of a formatted file stand. The statements of a file are those that are no
empty lines, each behind a number of empty lines, and the empty lines after the last
(`Spaced.arranged`). Between two statements the text has as many blank lines as there are empty
lines there; where there are none, it has one if `Statement.wantsBlankLine` asks for it. Empty lines
in front of the first statement are kept, those after the last are not seen.

`Statement.charsAfter_statements` is one round of this: a statement and the empty lines before it,
after any statement. An empty line asks for no blank line on either side of it, so the breaks of a
run of empty lines do not depend on what stands around it, and a file is laid out as if it stood
after an empty line.
-/

namespace StarlarkCode

/-- A statement that is no empty line, and the number of empty lines directly before it. -/
structure Spaced where
  emptyLines : Nat
  statement : Statement
  shown : statement ≠ .emptyLine

namespace Spaced

/-- The empty lines and the statement after them. -/
def statements (s : Spaced) : List Statement :=
  List.replicate s.emptyLines .emptyLine ++ [s.statement]

/-- Statements behind their empty lines, and the empty lines after the last of them. -/
def arranged (shown : List Spaced) (trailing : Nat) : List Statement :=
  shown.flatMap statements ++ List.replicate trailing .emptyLine

/-- The blank lines between a statement and the next one: the empty lines there, or else the one
that the two statements ask for. -/
def gapAfter (previous : Statement) (s : Spaced) : Nat :=
  if 0 < s.emptyLines then s.emptyLines
  else if previous.wantsBlankLine s.statement then 1
  else 0

/-- The text of the statements after a given one, from the texts of single statements. Each starts
on a new line, behind the blank lines that go before it. -/
def charsAfter (render : Statement → List Char) : Statement → List Spaced → List Char
  | _, [] => []
  | previous, s :: rest =>
    List.replicate (1 + s.gapAfter previous) '\n' ++ render s.statement
      ++ charsAfter render s.statement rest

/-- All statements of a file can be put this way. -/
theorem exists_arranged (statements : List Statement) :
    ∃ shown trailing, statements = arranged shown trailing := by
  induction statements with
  | nil => exact ⟨[], 0, rfl⟩
  | cons s rest ih =>
    obtain ⟨shown, trailing, rfl⟩ := ih
    by_cases empty : s = .emptyLine
    · subst empty
      -- An empty line goes before the next statement that is shown, or after all of them.
      cases shown with
      | nil => exact ⟨[], trailing + 1, rfl⟩
      | cons first others =>
        exact ⟨⟨first.emptyLines + 1, first.statement, first.shown⟩ :: others, trailing, rfl⟩
    · exact ⟨⟨0, s, empty⟩ :: shown, trailing, rfl⟩

/-- The text ends with that of the last statement. -/
theorem exists_front (render : Statement → List Char) {first last : Spaced} {others : List Spaced}
    (ends : (first :: others).getLast? = some last) :
    ∃ front, render first.statement ++ charsAfter render first.statement others =
      front ++ render last.statement := by
  induction others generalizing first with
  | nil =>
    cases ends
    exact ⟨[], List.append_nil _⟩
  | cons next others ih =>
    rw [List.getLast?_cons_cons] at ends
    obtain ⟨front, eq⟩ := ih ends
    refine ⟨render first.statement ++ List.replicate (1 + next.gapAfter first.statement) '\n'
      ++ front, ?_⟩
    rw [charsAfter, List.append_assoc _ front, ← eq]
    simp only [List.append_assoc]

end Spaced

/-! ## Runs of empty lines -/

namespace Statement

/-- No blank line is added before an empty line. -/
theorem wantsBlankLine_emptyLine (s : Statement) : s.wantsBlankLine .emptyLine = false := by
  simp [wantsBlankLine, isSpacing]

/-- No blank line is added after an empty line. -/
theorem emptyLine_wantsBlankLine (s : Statement) : emptyLine.wantsBlankLine s = false := by
  simp [wantsBlankLine, isSpacing]

/-- An empty line after a statement is a line break. -/
theorem charsAfter_emptyLine (width : Nat) (previous : Statement) (rest : List Statement) :
    charsAfter width previous (.emptyLine :: rest) = '\n' :: charsAfter width .emptyLine rest := by
  rw [charsAfter, wantsBlankLine_emptyLine]
  rfl

/-- Empty lines between statements are line breaks, and nothing is added to them. -/
theorem charsAfter_emptyLines (width count : Nat) (previous : Statement) (rest : List Statement) :
    charsAfter width previous (List.replicate (count + 1) .emptyLine ++ rest) =
      List.replicate (count + 1) '\n' ++ charsAfter width .emptyLine rest := by
  induction count generalizing previous with
  | zero => exact charsAfter_emptyLine width previous rest
  | succ count ih =>
    rw [List.replicate_succ, List.cons_append, charsAfter_emptyLine, ih]
    rfl

/-- Empty lines at the end are line breaks. -/
theorem charsAfter_trailing (width trailing : Nat) (previous : Statement) :
    charsAfter width previous (List.replicate trailing .emptyLine) =
      List.replicate (trailing + 1) '\n' := by
  cases trailing with
  | zero => rfl
  | succ trailing =>
    have breaks := charsAfter_emptyLines width trailing previous []
    rw [List.append_nil] at breaks
    rw [breaks, charsAfter, ← List.replicate_succ']

/-- A statement and the empty lines before it, after any statement. -/
theorem charsAfter_statements (width : Nat) (previous : Statement) (s : Spaced)
    (rest : List Statement) :
    charsAfter width previous (s.statements ++ rest) =
      List.replicate (1 + s.gapAfter previous) '\n' ++ s.statement.chars width
        ++ charsAfter width s.statement rest := by
  obtain ⟨emptyLines, statement, shown⟩ := s
  rw [Spaced.statements, Spaced.gapAfter, List.append_assoc, List.singleton_append]
  cases emptyLines with
  | zero =>
    by_cases wants : previous.wantsBlankLine statement <;>
      simp [charsAfter, wants, List.replicate_succ]
  | succ count =>
    rw [charsAfter_emptyLines, charsAfter, emptyLine_wantsBlankLine, if_pos (Nat.succ_pos count),
      Nat.add_comm 1, List.replicate_succ' (n := count + 1)]
    simp

/-- The same for all statements of a file, which end in a line break and one for each empty line
after the last. -/
theorem charsAfter_arranged (width : Nat) (previous : Statement) (shown : List Spaced)
    (trailing : Nat) :
    charsAfter width previous (Spaced.arranged shown trailing) =
      Spaced.charsAfter (chars width) previous shown ++ List.replicate (trailing + 1) '\n' := by
  induction shown generalizing previous with
  | nil => exact charsAfter_trailing width trailing previous
  | cons s shown ih =>
    have split : Spaced.arranged (s :: shown) trailing =
        s.statements ++ Spaced.arranged shown trailing := by
      simp [Spaced.arranged]
    rw [split, charsAfter_statements, ih, Spaced.charsAfter]
    simp only [List.append_assoc]

end Statement

/-- A file is laid out as if it stood after an empty line. -/
theorem File.cons_chars (width : Nat) {f : File} (something : f.statements ≠ []) :
    '\n' :: f.chars width = Statement.charsAfter width .emptyLine f.statements := by
  obtain ⟨kind, name, statements⟩ := f
  cases statements with
  | nil => exact absurd rfl something
  | cons s rest =>
    rw [Statement.charsAfter, Statement.emptyLine_wantsBlankLine]
    rfl

/-- The text of a file by its statements and the empty lines around them. -/
theorem File.chars_arranged (width : Nat) {f : File} {first : Spaced} {others : List Spaced}
    {trailing : Nat} (arranged : f.statements = Spaced.arranged (first :: others) trailing) :
    f.chars width =
      List.replicate first.emptyLines '\n'
        ++ (first.statement.chars width
          ++ Spaced.charsAfter (Statement.chars width) first.statement others)
        ++ List.replicate (trailing + 1) '\n' := by
  have something : f.statements ≠ [] := by simp [arranged, Spaced.arranged, Spaced.statements]
  have gap : first.gapAfter .emptyLine = first.emptyLines := by
    rw [Spaced.gapAfter, Statement.emptyLine_wantsBlankLine]
    split
    · rfl
    · simp
      omega
  have after := f.cons_chars width something
  rw [arranged, Statement.charsAfter_arranged, Spaced.charsAfter, gap, Nat.add_comm 1,
    List.replicate_succ] at after
  simpa using after

/-! ## Formatted files -/

private theorem rdropWhile_append_replicate (cs : List Char) (count : Nat) :
    (cs ++ List.replicate count '\n').rdropWhile (· == '\n') = cs.rdropWhile (· == '\n') := by
  induction count with
  | zero => simp
  | succ count ih =>
    rw [List.replicate_succ', ← List.append_assoc, List.rdropWhile_concat_pos _ _ _ rfl, ih]

private theorem rdropWhile_append_of_last (front : List Char) {cs : List Char} (something : cs ≠ [])
    (last : cs.getLast? ≠ some '\n') :
    (front ++ cs).rdropWhile (· == '\n') = front ++ cs := by
  refine List.rdropWhile_eq_self_iff.mpr fun _ ends => last ?_
  rw [List.getLast_append_of_ne_nil _ something, beq_iff_eq] at ends
  rw [List.getLast?_eq_some_getLast something, ends]

namespace Style

/-- The text of a file is the texts of its statements, with the line breaks placed between them: one
that ends each line and one for each blank line, which are the empty lines of the file, or the one
that two neighbours ask for. Empty lines before the first statement are kept. Those after the last
leave no trace, provided that the text of the last ends in something else than a line break. -/
theorem format_places_blank_lines (style : Style) (f : File) (text : String)
    (formatted : style.format f = .ok text) :
    ∃ render : Statement → List Char,
      (∀ s ∈ f.statements,
        style.formatNode (.statement s) 0 .newLine = .ok (String.ofList (render s))) ∧
      (∃ shown trailing, f.statements = Spaced.arranged shown trailing) ∧
      ∀ first others last trailing,
        f.statements = Spaced.arranged (first :: others) trailing →
        (first :: others).getLast? = some last →
        render last.statement ≠ [] → (render last.statement).getLast? ≠ some '\n' →
        text = String.ofList (List.replicate first.emptyLines '\n' ++ render first.statement
          ++ Spaced.charsAfter render first.statement others ++ ['\n']) := by
  have rendered : ∀ s ∈ f.statements, style.formatNode (.statement s) 0 .newLine =
      .ok (String.ofList (s.chars style.indentWidth)) := by
    intro s mem
    have something : f.statements ≠ [] := List.ne_nil_of_mem mem
    obtain ⟨sound, -⟩ := (format_eq_ok_iff something).mp formatted
    exact style.formatNode_eq (sound s mem)
  refine ⟨_, rendered, Spaced.exists_arranged f.statements, ?_⟩
  intro first others last trailing arranged ends nonempty unbroken
  have something : f.statements ≠ [] := by simp [arranged, Spaced.arranged, Spaced.statements]
  obtain ⟨-, finished⟩ := (format_eq_ok_iff something).mp formatted
  obtain ⟨front, eq⟩ := Spaced.exists_front (Statement.chars style.indentWidth) ends
  rw [File.chars_arranged _ arranged, rdropWhile_append_replicate, eq, ← List.append_assoc,
    rdropWhile_append_of_last _ nonempty unbroken, List.append_assoc _ front, ← eq] at finished
  rw [finished]
  simp only [List.append_assoc]

/-- The statements of a file after its comment: two assignments, raw lines behind two empty lines,
and a call. -/
def rowsAfterComment : List Spaced :=
  [⟨0, .assignment "A" (.integer 1), nofun⟩, ⟨0, .assignment "B" (.integer 2), nofun⟩,
    ⟨2, .raw "x", nofun⟩, ⟨0, .raw "y", nofun⟩, ⟨0, .expression (.call none "f" []), nofun⟩]

/-- The file, which starts and ends with an empty line. -/
def commentedFile : File :=
  .build false (Spaced.arranged (⟨1, .comment "c", nofun⟩ :: rowsAfterComment) 1)

/-- The assignments stand apart and so does the call, the comment and the raw lines do not. -/
theorem format_places_blank_lines_commentedFile :
    format {} commentedFile = .ok "\n# c\nA = 1\n\nB = 2\n\n\nx\ny\n\nf()\n" ∧
      ∃ render : Statement → List Char,
        (∀ s ∈ commentedFile.statements,
          formatNode {} (.statement s) 0 .newLine = .ok (String.ofList (render s))) ∧
        "\n# c\nA = 1\n\nB = 2\n\n\nx\ny\n\nf()\n" =
          String.ofList (List.replicate 1 '\n' ++ render (.comment "c")
            ++ Spaced.charsAfter render (.comment "c") rowsAfterComment ++ ['\n']) := by
  have formatted : format {} commentedFile =
      .ok "\n# c\nA = 1\n\nB = 2\n\n\nx\ny\n\nf()\n" := rfl
  obtain ⟨render, rendered, -, places⟩ := format_places_blank_lines {} commentedFile _ formatted
  have call : render (.expression (.call none "f" [])) = "f()".toList := by
    have printed := rendered (.expression (.call none "f" []))
      (by simp [commentedFile, File.build, Spaced.arranged, Spaced.statements, rowsAfterComment])
    have text : String.ofList (render (.expression (.call none "f" []))) = "f()" :=
      (Except.ok.inj printed).symm
    rw [← text, String.toList_ofList]
  have placed := places ⟨1, .comment "c", nofun⟩ rowsAfterComment
    ⟨0, .expression (.call none "f" []), nofun⟩ 1 rfl rfl
  exact ⟨formatted, render, rendered, placed (by simp [call]) (by simp [call])⟩

end Style

end StarlarkCode
