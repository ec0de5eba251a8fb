import StarlarkCode.Proofs.Numerals
import StarlarkCode.Proofs.Visiting

/-!
# The text of a layout

What a printer writes, said without the printer: each piece has a text of its own once the width of
a level is known, and a layout is the texts of its pieces in a row. The table of indentation texts
is never seen in the output, because it always holds the text it would make
(`IndentTable.Sound`).

`Style.formatNode_eq` gives the text of a node from its layout.
-/

namespace StarlarkCode

/-! ## Texts of pieces -/

/-- The text of a piece, for a width of a level. -/
def Piece.chars (width : Nat) : Piece → List Char
  | .text s => s.toList
  | .newline => ['\n']
  | .space => [' ']
  | .indent level => List.replicate (width * level) ' '

/-- The text of a layout up to where it stops. -/
def Layout.chars (width : Nat) (l : Layout) : List Char :=
  l.pieces.flatMap (Piece.chars width)

namespace Layout

@[simp] theorem chars_empty (width : Nat) : empty.chars width = [] := rfl

@[simp] theorem chars_text (width : Nat) (s : String) : (text s).chars width = s.toList :=
  List.append_nil _

@[simp] theorem chars_newline (width : Nat) : newline.chars width = ['\n'] := rfl

@[simp] theorem chars_space (width : Nat) : space.chars width = [' '] := rfl

@[simp] theorem chars_indent (width level : Nat) :
    (indent level).chars width = List.replicate (width * level) ' ' :=
  List.append_nil _

/-- The text of layouts in a row, unless the first fails. -/
theorem chars_append {a : Layout} (sound : a.failure = none) (b : Layout) (width : Nat) :
    (a ++ b).chars width = a.chars width ++ b.chars width := by
  have pieces : (a ++ b).pieces = a.pieces ++ b.pieces := by
    obtain ⟨pieces, failure⟩ := a
    cases sound
    rfl
  rw [chars, pieces, List.flatMap_append]
  rfl

/-- Two layouts fail alike and have one text, however each cuts it into pieces. -/
def SameText (a b : Layout) : Prop :=
  a.failure = b.failure ∧ ∀ width, a.chars width = b.chars width

/-- What stands in front does not matter, whether it fails or not. -/
theorem SameText.prepend {a b : Layout} (same : a.SameText b) (front : Layout) :
    (front ++ a).SameText (front ++ b) := by
  obtain ⟨pieces, failure⟩ := front
  cases failure with
  | some e => exact ⟨rfl, fun _ => rfl⟩
  | none =>
    refine ⟨same.1, fun width => ?_⟩
    rw [chars_append rfl, chars_append rfl, same.2]

/-- Two layouts that are texts make up the text of both. -/
theorem SameText.join {a b : Layout} {s t : String} (first : a.SameText (text s))
    (next : b.SameText (text t)) : (a ++ b).SameText (text (s ++ t)) := by
  have sound : a.failure = none := first.1
  obtain ⟨pieces, failure⟩ := a
  cases sound
  refine ⟨next.1, fun width => ?_⟩
  rw [chars_append rfl, first.2, next.2, chars_text, chars_text, chars_text, String.toList_append]

/-- A text is itself. -/
theorem sameText_text (s : String) : (text s).SameText (text s) :=
  ⟨rfl, fun _ => rfl⟩

/-- Nothing is the empty text. -/
theorem sameText_empty : empty.SameText (text "") :=
  ⟨rfl, fun _ => rfl⟩

/-- A space is the text of one. -/
theorem sameText_space : space.SameText (text " ") :=
  ⟨rfl, fun _ => rfl⟩

/-- An operator and the spaces around it are one text. -/
theorem sameText_operator (op : BinaryOp) :
    (operator op).SameText (text (" " ++ op.text ++ " ")) :=
  (sameText_space.join (sameText_text op.text)).join sameText_space

/-- A bound is a text, the empty one if it is absent. -/
theorem sameText_bound (b : Option Int64) : (bound b).SameText (text (Bounds.boundText b)) := by
  cases b with
  | none => exact sameText_empty
  | some n => exact sameText_text _

/-- The bounds of a slice and the brackets around them are one text. -/
theorem sameText_bounds (b : Bounds) : (bounds b).SameText (text ("[" ++ b.text ++ "]")) := by
  obtain ⟨start, stop, step⟩ := b
  have range := (((sameText_text "[").join (sameText_bound start)).join (sameText_text ":")).join
    (sameText_bound stop)
  cases step with
  | none =>
    have whole := (range.join sameText_empty).join (sameText_text "]")
    simpa only [bounds, Bounds.text, String.append_assoc] using whole
  | some n =>
    have step : (text ":" ++ bound (some n)).SameText (text (":" ++ Text.ofInt n.toInt)) :=
      (sameText_text ":").join (sameText_bound (some n))
    have whole := (range.join step).join (sameText_text "]")
    simpa only [bounds, Bounds.text, String.append_assoc] using whole

/-- The comma of a tuple and the parenthesis that closes it are one text. -/
theorem sameText_tupled (count : Nat) (fits : Bool) (position : Nat)
    (items : Nat → LineMode → List Layout) :
    (tupled count fits position items).SameText
      (bracketed "(" (if count = 1 then ",)" else ")") fits position items) := by
  rw [tupled, bracketed, append_assoc (text "(" ++ arranged fits position items)]
  refine SameText.prepend ?_ _
  split
  · exact ⟨rfl, fun _ => rfl⟩
  · exact ⟨rfl, fun _ => rfl⟩

end Layout

/-! ## The table of indentation texts -/

/-- Levels of one width in a row make the indentation of their number. -/
theorem repeated_spaces (width count : Nat) :
    repeated (spaces width) count = spaces (width * count) := by
  unfold repeated
  split
  next nothing =>
    have flat : width = 0 := by
      simpa [spaces, String.isEmpty_iff] using nothing
    rw [flat, Nat.zero_mul]
  next =>
    apply String.toList_injective
    simp only [String.toList_join, spaces, String.toList_ofList, List.flatMap_replicate,
      List.flatten_replicate_replicate, Nat.mul_comm width]

namespace IndentTable

/-- Every text in the table is the indentation of its level. -/
def Sound (t : IndentTable) : Prop :=
  ∀ entry ∈ t.levels, entry.2 = spaces (t.width * entry.1)

/-- A new table is sound. -/
theorem sound_ofWidth (width : Nat) : (ofWidth width).Sound := by
  intro entry mem
  simp only [ofWidth, List.mem_cons, List.not_mem_nil, or_false] at mem ⊢
  rcases mem with rfl | rfl
  · rw [Nat.mul_zero]
    rfl
  · rw [Nat.mul_one]

/-- What a request does: a level that the table holds is answered from it and changes nothing; any
other is made, answered and added at the end. -/
theorem get_cases (t : IndentTable) (level : Nat) :
    (∃ indent, (level, indent) ∈ t.levels ∧ t.get level = (indent, t)) ∨
      (∀ entry ∈ t.levels, entry.1 ≠ level) ∧
        t.get level = (repeated (spaces t.width) level,
          ⟨t.width, t.levels ++ [(level, repeated (spaces t.width) level)]⟩) := by
  unfold get
  split
  next indent found =>
    obtain ⟨before, after, levels, -⟩ := List.lookup_eq_some_iff.mp found
    refine .inl ⟨indent, ?_, rfl⟩
    rw [levels]
    exact List.mem_append_right before List.mem_cons_self
  next missing =>
    refine .inr ⟨fun entry mem => ?_, rfl⟩
    have differs : (level != entry.1) = true := List.lookup_eq_none_iff.mp missing entry mem
    exact (bne_iff_ne.mp differs).symm

/-- Asking for an indentation does not change the width. -/
theorem width_get (t : IndentTable) (level : Nat) : (t.get level).2.width = t.width := by
  obtain ⟨indent, -, got⟩ | ⟨-, got⟩ := t.get_cases level
  all_goals rw [got]

/-- A sound table answers with the indentation of the level, whether it held it or not. -/
theorem Sound.get_eq {t : IndentTable} (sound : t.Sound) (level : Nat) :
    (t.get level).1 = spaces (t.width * level) := by
  obtain ⟨indent, mem, got⟩ | ⟨-, got⟩ := t.get_cases level
  · rw [got]
    exact sound (level, indent) mem
  · rw [got]
    exact repeated_spaces t.width level

/-- A sound table is sound after it is asked for an indentation. -/
theorem Sound.get {t : IndentTable} (sound : t.Sound) (level : Nat) : (t.get level).2.Sound := by
  obtain ⟨indent, -, got⟩ | ⟨-, got⟩ := t.get_cases level
  · rw [got]
    exact sound
  · rw [got]
    intro entry mem
    rcases List.mem_append.mp mem with mem | mem
    · exact sound entry mem
    · rw [List.mem_singleton] at mem
      rw [mem]
      exact repeated_spaces t.width level

end IndentTable

/-! ## Printing -/

namespace Printer

variable {σ : Type} [TextSink σ] [LawfulTextSink σ]

/-- A printer adds the text of a piece to what it holds, and its table stays as it was promised. -/
theorem write_spec {printer : Printer σ} (sound : printer.indents.Sound) (piece : Piece) :
    TextSink.text (printer.write piece).output =
        TextSink.text printer.output ++ String.ofList (piece.chars printer.indents.width) ∧
      (printer.write piece).indents.Sound ∧
      (printer.write piece).indents.width = printer.indents.width := by
  obtain ⟨indents, output⟩ := printer
  cases piece with
  | text s =>
    refine ⟨?_, sound, rfl⟩
    rw [Piece.chars, String.ofList_toList]
    exact LawfulTextSink.text_write output s
  | newline =>
    refine ⟨?_, sound, rfl⟩
    exact LawfulTextSink.text_newline output
  | space =>
    refine ⟨?_, sound, rfl⟩
    exact LawfulTextSink.text_space output
  | indent level =>
    refine ⟨?_, sound.get level, indents.width_get level⟩
    show TextSink.text (TextSink.write output (indents.get level).1) = _
    rw [LawfulTextSink.text_write, sound.get_eq level]
    rfl

/-- A printer adds the texts of all pieces in a row. -/
theorem foldl_write_text {printer : Printer σ} (sound : printer.indents.Sound)
    (pieces : List Piece) :
    TextSink.text (pieces.foldl write printer).output =
      TextSink.text printer.output ++
        String.ofList (pieces.flatMap (Piece.chars printer.indents.width)) := by
  induction pieces generalizing printer with
  | nil => simp
  | cons piece pieces ih =>
    obtain ⟨written, sound', width⟩ := write_spec sound piece
    rw [List.foldl_cons, ih sound', written, width, List.flatMap_cons, String.ofList_append,
      String.append_assoc]

end Printer

/-- A node without a fault is formatted as the text of its layout. -/
theorem Style.formatNode_eq (style : Style) {node : Node} {position : Nat} {mode : LineMode}
    (sound : (node.layout position mode).failure = none) :
    style.formatNode node position mode =
      .ok (String.ofList ((node.layout position mode).chars style.indentWidth)) := by
  have fresh : (style.printer Buffer.empty).indents.Sound :=
    IndentTable.sound_ofWidth style.indentWidth
  have written := Printer.foldl_write_text fresh (node.layout position mode).pieces
  rw [formatNode, Printer.printNode_eq, sound]
  refine congrArg Except.ok (written.trans ?_)
  exact String.empty_append

end StarlarkCode
