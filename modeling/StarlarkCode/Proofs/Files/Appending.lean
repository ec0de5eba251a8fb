import StarlarkCode.Proofs.Files

/-!
# Files added to a text

Files can be added to a sink one after the other, each in a style of its own. A file goes in as a
whole or not at all: it is laid out and finished apart from the sink, which then takes the finished
text in one piece. So a file with a fault anywhere in its tree leaves the sink as it was, what the
sink holds is never trimmed, and every text that goes in ends in one line break of its own
(`addFiles_adds_whole_files`).
-/

namespace StarlarkCode

/-- A file to add, with the style to format it in. -/
structure FileJob where
  style : Style
  file : File

namespace FileJob

/-- The text of the file, if it can be formatted. -/
def text? (job : FileJob) : Option String :=
  (job.style.format job.file).toOption

/-- What keeps the file from being formatted, if anything does. -/
def failure? (job : FileJob) : Option LayoutError :=
  match job.style.format job.file with
  | .ok _ => none
  | .error e => some e

/-- Adds the file to a sink, and gives the error at which it failed, if any. -/
def addTo {σ : Type} [TextSink σ] (job : FileJob) (output : σ) : σ × Option LayoutError :=
  job.style.formatTo job.file output

end FileJob

/-- Adds files to a sink in order, and gives what each of them reports. A file that fails does not
end the run. -/
def addFiles {σ : Type} [TextSink σ] : List FileJob → σ → σ × List (Option LayoutError)
  | [], output => (output, [])
  | job :: jobs, output =>
    let (output, failure) := job.addTo output
    let (output, failures) := addFiles jobs output
    (output, failure :: failures)

/-! ## One file -/

namespace Style

/-- A file can be formatted exactly when no node of its tree is at fault. -/
theorem format_succeeds_iff (style : Style) (f : File) :
    (∃ text, style.format f = .ok text) ↔
      ∀ placed ∈ (Node.file f).preorder, placed.node.fault? .newLine placed.depth = none := by
  have sound := (Node.file f).layout_sound_iff 0 LineMode.newLine_ne
  have formatted : (∃ s, style.formatNode (.file f) 0 .newLine = .ok s) ↔ _ :=
    formatNode_succeeds_iff
  simp only [Nat.zero_add] at sound
  rw [← sound, ← formatted, format_eq_map]
  cases style.formatNode (.file f) 0 .newLine <;> simp [Except.map]

/-- Only a file without statements has no text. The text of any other ends in a line break, and not
in two. -/
theorem format_ends {style : Style} {f : File} {text : String}
    (formatted : style.format f = .ok text) :
    (text = "" ↔ f.statements = []) ∧
      (f.statements ≠ [] → ['\n'] <:+ text.toList ∧ ¬['\n', '\n'] <:+ text.toList) := by
  by_cases something : f.statements = []
  · obtain ⟨kind, name, statements⟩ := f
    cases something
    cases formatted
    exact ⟨⟨fun _ => rfl, fun _ => rfl⟩, fun more => absurd rfl more⟩
  · obtain ⟨-, rfl⟩ := (format_eq_ok_iff something).mp formatted
    refine ⟨⟨fun none => ?_, fun none => absurd none something⟩, fun _ => ?_⟩
    · simp at none
    · rw [String.toList_ofList]
      refine ⟨List.suffix_append _ _, ?_⟩
      -- A second line break would be the last character of what is left without line breaks.
      rintro ⟨front, eq⟩
      have last : front ++ ['\n'] = (f.chars style.indentWidth).rdropWhile (· == '\n') :=
        List.append_cancel_right ((List.append_assoc front _ _).trans eq)
      refine getLast?_rdropWhile (f.chars style.indentWidth) ?_
      rw [← last, List.getLast?_concat]

end Style

namespace FileJob

/-- A job has a text when its file can be formatted. -/
theorem text?_eq_some_iff {job : FileJob} {text : String} :
    job.text? = some text ↔ job.style.format job.file = .ok text := by
  rw [text?]
  cases job.style.format job.file <;> simp [Except.toOption]

/-- A job has no text when there is a fault somewhere in its file. -/
theorem text?_eq_none_iff (job : FileJob) :
    job.text? = none ↔
      ∃ placed ∈ (Node.file job.file).preorder,
        placed.node.fault? .newLine placed.depth ≠ none := by
  have succeeds := job.style.format_succeeds_iff job.file
  simp only [← text?_eq_some_iff] at succeeds
  rw [← Option.not_isSome_iff_eq_none, Option.isSome_iff_exists, succeeds]
  simp

variable {σ : Type} [TextSink σ]

/-- A file that fails leaves the sink as it was. -/
theorem addTo_of_text?_eq_none {job : FileJob} (failed : job.text? = none) (output : σ) :
    (job.addTo output).1 = output := by
  rw [addTo, Style.formatTo]
  cases outcome : job.style.format job.file with
  | ok text =>
    rw [text?_eq_some_iff.mpr outcome] at failed
    cases failed
  | error e => rfl

/-- A job fails with its own failure, whatever the output held before. -/
theorem addTo_failure (job : FileJob) (output : σ) : (job.addTo output).2 = job.failure? := by
  rw [addTo, Style.formatTo, failure?]
  cases job.style.format job.file <;> rfl

/-- A job adds its text to the output, or nothing if it fails. -/
theorem text_addTo [LawfulTextSink σ] (job : FileJob) (output : σ) :
    TextSink.text (job.addTo output).1 = TextSink.text output ++ job.text?.getD "" := by
  rw [addTo, Style.formatTo, text?]
  cases job.style.format job.file with
  | ok text => exact LawfulTextSink.text_write output text
  | error e => exact String.append_empty.symm

end FileJob

/-! ## Runs -/

section

variable {σ : Type} [TextSink σ]

/-- Each job fails or not by itself. -/
theorem addFiles_failures (jobs : List FileJob) (output : σ) :
    (addFiles jobs output).2 = jobs.map FileJob.failure? := by
  induction jobs generalizing output with
  | nil => rfl
  | cons job jobs ih =>
    show (job.addTo output).2 :: (addFiles jobs (job.addTo output).1).2 = _
    rw [job.addTo_failure, ih, List.map_cons]

/-- After any run the sink holds what it held and then the texts of the files that could be
formatted. -/
theorem text_addFiles [LawfulTextSink σ] (jobs : List FileJob) (output : σ) :
    TextSink.text (addFiles jobs output).1 =
      TextSink.text output ++ String.join (jobs.filterMap FileJob.text?) := by
  induction jobs generalizing output with
  | nil => simp [addFiles]
  | cons job jobs ih =>
    show TextSink.text (addFiles jobs (job.addTo output).1).1 = _
    rw [ih, job.text_addTo, String.append_assoc]
    cases added : job.text? with
    | none => simp [added]
    | some text => simp [added]

end

/-- Files that are added to a plain text or to a buffer go in as a whole or not at all. After any
run the text is what it was before, followed by the formatted texts of those files that have one, in
order. A file has none exactly when some node of its tree is at fault, wherever that node stands,
and then it leaves the sink as it was. The text of a file is empty if the file has no statements,
and otherwise ends in one line break and not in two. -/
theorem addFiles_adds_whole_files :
    (∀ (jobs : List FileJob) (held : String), addFiles jobs held =
        (held ++ String.join (jobs.filterMap FileJob.text?), jobs.map FileJob.failure?)) ∧
      (∀ (jobs : List FileJob) (held : Buffer), addFiles jobs held =
        (⟨held.text ++ String.join (jobs.filterMap FileJob.text?)⟩, jobs.map FileJob.failure?)) ∧
      ∀ job : FileJob,
        (job.text? = none ↔ ∃ placed ∈ (Node.file job.file).preorder,
          placed.node.fault? .newLine placed.depth ≠ none) ∧
        (job.text? = none → (∀ held : String, (job.addTo held).1 = held) ∧
          ∀ held : Buffer, (job.addTo held).1 = held) ∧
        ∀ text ∈ job.text?, (text = "" ↔ job.file.statements = []) ∧
          (job.file.statements ≠ [] → ['\n'] <:+ text.toList ∧ ¬['\n', '\n'] <:+ text.toList) := by
  refine ⟨fun jobs held => ?_, fun jobs held => ?_, fun job => ⟨job.text?_eq_none_iff, ?_, ?_⟩⟩
  · exact Prod.ext (text_addFiles jobs held) (addFiles_failures jobs held)
  · exact Prod.ext (congrArg Buffer.mk (text_addFiles jobs held)) (addFiles_failures jobs held)
  · exact fun failed => ⟨FileJob.addTo_of_text?_eq_none failed,
      FileJob.addTo_of_text?_eq_none failed⟩
  · exact fun text formatted => Style.format_ends (FileJob.text?_eq_some_iff.mp formatted)

/-- A file whose second statement has a fault inside a list that is not on one line, a file that is
raw text with line breaks at its end, and a file without statements. -/
def mixedFiles : List FileJob :=
  [⟨{}, .build false [
      .comment "a", .expression (.list [.none, .comprehension (.element .none) []])]⟩,
    ⟨⟨2⟩, .bzl "b" [.raw "b\n\n"]⟩,
    ⟨{}, .star "c" []⟩]

theorem addFiles_mixedFiles :
    addFiles mixedFiles "x\n\n" =
        ("x\n\nb\n", [some (.emptyComprehension .list 1), none, none]) ∧
      addFiles mixedFiles (Buffer.mk "x\n\n") =
        (Buffer.mk "x\n\nb\n", [some (.emptyComprehension .list 1), none, none]) :=
  ⟨(addFiles_adds_whole_files.1 mixedFiles "x\n\n").trans rfl,
    (addFiles_adds_whole_files.2.1 mixedFiles (Buffer.mk "x\n\n")).trans rfl⟩

end StarlarkCode
