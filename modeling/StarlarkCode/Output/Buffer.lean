import StarlarkCode.Output.TextSink

/-!
# Buffers

A sink that can finish a file: the finished text ends in exactly one line break, whatever number
of empty lines was printed last, and a file without text stays empty.
-/

namespace StarlarkCode

/-- Text under construction. -/
structure Buffer where
  text : String := ""
deriving DecidableEq, Repr

namespace Buffer

/-- No text. -/
def empty : Buffer := {}

/-- Drops the last of the characters, which are given from the last to the first, for as long as the
last two are line breaks. -/
def dropBreaks : List Char → List Char
  | c :: d :: cs => if c = '\n' ∧ d = '\n' then dropBreaks (d :: cs) else c :: d :: cs
  | cs => cs

/-- Drops the empty lines at the end: of several line breaks there one is left. -/
def dropBlankTail (b : Buffer) : Buffer :=
  ⟨String.ofList (dropBreaks b.text.toList.reverse).reverse⟩

/-- Adds a line break unless the text ends in one. -/
def endLine (b : Buffer) : Buffer :=
  if b.text.toList.getLast? = some '\n' then b else ⟨b.text ++ "\n"⟩

/-- The text of a finished file. -/
def finish (b : Buffer) : String :=
  if b.text.isEmpty then b.text
  else b.dropBlankTail.endLine.text

end Buffer

instance : TextSink Buffer where
  text := Buffer.text
  write b s := ⟨b.text ++ s⟩
  newline b := ⟨b.text.push '\n'⟩
  space b := ⟨b.text.push ' '⟩

instance : LawfulTextSink Buffer where
  text_write _ _ := rfl
  text_newline _ := by simp [TextSink.newline, TextSink.text, String.push_eq_append]
  text_space _ := by simp [TextSink.space, TextSink.text, String.push_eq_append]

end StarlarkCode
