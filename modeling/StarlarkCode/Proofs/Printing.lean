import StarlarkCode.Proofs.Rendering

/-!
# Printing one node after another

A printer can be used for many nodes in a row, into a sink that holds text already. What it has done
before does not show: each node ends as it does with a new printer, with the same error or none, and
adds the text that it gives alone, up to its error if it has one. Nothing that the sink holds is
changed, and a plain text and a buffer hold the same.

A visit hands the sink and the table of indentation texts from one part of a node to the next, and
what it does to them are the pieces of the node's layout, written in order (`Printer.printNode_eq`).
The table is the one thing besides the sink that a printer carries from node to node. One that is
sound stays sound through any pieces (`Printer.foldl_write_indents`), and this is the invariant of a
run (`Printer.outcomes_eq`).
-/

namespace StarlarkCode

/-- A node to print, with the position and the line mode to print it in. -/
structure PrintJob where
  node : Node
  position : Nat
  mode : LineMode

/-- How a job ends: the error at which it stopped, if any, and the text in the sink by then. -/
structure PrintOutcome where
  failure : Option LayoutError
  text : String
deriving DecidableEq, Repr

namespace PrintOutcome

/-- Outcomes that follow each other behind a text: each adds its own text to what there is. -/
def inRow : String → List PrintOutcome → List PrintOutcome
  | _, [] => []
  | held, outcome :: outcomes =>
    ⟨outcome.failure, held ++ outcome.text⟩ :: inRow (held ++ outcome.text) outcomes

end PrintOutcome

/-- The layout of a job. -/
def PrintJob.layout (job : PrintJob) : Layout :=
  job.node.layout job.position job.mode

/-- What a job comes to in itself, for a width of a level: its error, if any, and the text that
stands in front of it. -/
def PrintJob.yield (width : Nat) (job : PrintJob) : PrintOutcome :=
  ⟨job.layout.failure, String.ofList (job.layout.chars width)⟩

namespace Printer

variable {σ : Type} [TextSink σ]

/-- Prints a job. -/
def printJob (printer : Printer σ) (job : PrintJob) : Printer σ × Option LayoutError :=
  printer.printNode job.node job.position job.mode

/-- The outcome of a job. -/
def outcome (printer : Printer σ) (job : PrintJob) : PrintOutcome :=
  ⟨(printer.printJob job).2, TextSink.text (printer.printJob job).1.output⟩

/-- The outcomes of jobs that one printer prints one after the other. An error ends a job and not
the run: the next job goes on with the table and the text that the failed one left. -/
def outcomes (printer : Printer σ) : List PrintJob → List PrintOutcome
  | [] => []
  | job :: jobs => printer.outcome job :: (printer.printJob job).1.outcomes jobs

/-- A job writes the pieces of its layout and gives its error. -/
theorem printJob_eq (printer : Printer σ) (job : PrintJob) :
    printer.printJob job = (job.layout.pieces.foldl write printer, job.layout.failure) :=
  printer.printNode_eq job.node job.position job.mode

variable [LawfulTextSink σ]

/-- Writing keeps the table sound, and of the same width. -/
theorem foldl_write_indents {printer : Printer σ} (sound : printer.indents.Sound)
    (pieces : List Piece) :
    (pieces.foldl write printer).indents.Sound ∧
      (pieces.foldl write printer).indents.width = printer.indents.width := by
  induction pieces generalizing printer with
  | nil => exact ⟨sound, rfl⟩
  | cons piece pieces ih =>
    obtain ⟨-, sound', width⟩ := write_spec sound piece
    obtain ⟨soundEnd, widthEnd⟩ := ih sound'
    exact ⟨soundEnd, widthEnd.trans width⟩

/-- With a sound table, a job adds what it comes to in itself. -/
theorem outcome_eq {printer : Printer σ} (sound : printer.indents.Sound) (job : PrintJob) :
    printer.outcome job =
      ⟨(job.yield printer.indents.width).failure,
        TextSink.text printer.output ++ (job.yield printer.indents.width).text⟩ := by
  rw [outcome, printJob_eq]
  exact congrArg (PrintOutcome.mk job.layout.failure) (foldl_write_text sound job.layout.pieces)

/-- The same through a whole run, whatever jobs fail in it. -/
theorem outcomes_eq {printer : Printer σ} (sound : printer.indents.Sound) (jobs : List PrintJob) :
    printer.outcomes jobs =
      PrintOutcome.inRow (TextSink.text printer.output)
        (jobs.map (PrintJob.yield printer.indents.width)) := by
  induction jobs generalizing printer with
  | nil => rfl
  | cons job jobs ih =>
    -- The job leaves a printer of which the invariant holds again, and the width is the same.
    obtain ⟨soundAfter, widthAfter⟩ : (printer.printJob job).1.indents.Sound ∧
        (printer.printJob job).1.indents.width = printer.indents.width := by
      rw [printJob_eq]
      exact foldl_write_indents sound job.layout.pieces
    have held : TextSink.text (printer.printJob job).1.output =
        TextSink.text printer.output ++ (job.yield printer.indents.width).text := by
      rw [printJob_eq]
      exact foldl_write_text sound job.layout.pieces
    rw [outcomes, outcome_eq sound, ih soundAfter, held, widthAfter]
    rfl

end Printer

namespace Style

/-- The outcomes of jobs on a printer are what each job yields, added in a row. -/
theorem outcomes_printer {σ : Type} [TextSink σ] [LawfulTextSink σ] (style : Style) (output : σ)
    (jobs : List PrintJob) :
    (style.printer output).outcomes jobs =
      PrintOutcome.inRow (TextSink.text output)
        (jobs.map (PrintJob.yield style.indentWidth)) :=
  Printer.outcomes_eq (IndentTable.sound_ofWidth style.indentWidth) jobs

/-- A new printer with nothing in its sink shows what a job comes to in itself. -/
theorem outcome_printer {σ : Type} [TextSink σ] [LawfulTextSink σ] (style : Style) {output : σ}
    (nothing : TextSink.text output = "") (job : PrintJob) :
    (style.printer output).outcome job = job.yield style.indentWidth := by
  have fresh : (style.printer output).indents.Sound := IndentTable.sound_ofWidth style.indentWidth
  rw [Printer.outcome_eq fresh]
  show PrintOutcome.mk _ (TextSink.text output ++ _) = _
  rw [nothing, String.empty_append]
  rfl

/-- Printing only adds, and nothing shows what was printed before. In a run with one printer each
job ends as it does with a new printer and an empty sink, and adds the text that it gives there to
what the sink held; a job that fails adds the text in front of its error. A plain text and a buffer
hold the same throughout. -/
theorem printer_runs_add_single_outcomes (style : Style) (jobs : List PrintJob) :
    (∀ held : String, (style.printer held).outcomes jobs =
        PrintOutcome.inRow held (jobs.map (style.printer "").outcome)) ∧
      (∀ held : Buffer, (style.printer held).outcomes jobs =
        PrintOutcome.inRow held.text (jobs.map (style.printer Buffer.empty).outcome)) ∧
      (∀ held : String, (style.printer held).outcomes jobs =
        (style.printer (Buffer.mk held)).outcomes jobs) ∧
      ∀ job, (style.printer "").outcome job = job.yield style.indentWidth ∧
        (style.printer Buffer.empty).outcome job = job.yield style.indentWidth := by
  have inText : (style.printer "").outcome = PrintJob.yield style.indentWidth :=
    funext (style.outcome_printer rfl)
  have inBuffer : (style.printer Buffer.empty).outcome = PrintJob.yield style.indentWidth :=
    funext (style.outcome_printer rfl)
  rw [inText, inBuffer]
  refine ⟨fun held => ?_, fun held => ?_, fun held => ?_, fun job => ⟨rfl, rfl⟩⟩
  · exact style.outcomes_printer held jobs
  · exact style.outcomes_printer held jobs
  · rw [style.outcomes_printer held, style.outcomes_printer (Buffer.mk held)]
    rfl

end Style

end StarlarkCode
