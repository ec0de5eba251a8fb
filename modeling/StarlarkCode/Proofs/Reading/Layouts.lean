import StarlarkCode.Proofs.Faults
import StarlarkCode.Proofs.Rendering
import StarlarkCode.Proofs.Reading.Reader

/-!
# Layouts under the reader

What a layout does to the reader: from one state it leads to another, whatever text follows. Most
texts end where a token ends, and anything may follow them. A text that ends in a word is different,
since a character of words after it would be read as part of it; such layouts lead to a state before
a `Boundary` only, and what is put after them has to start with one.

Indentation and line breaks leave the reader where it is, so the two layouts of a bracketed
construct lead to the same state.
-/

namespace StarlarkCode

open Reading

namespace Reading

/-- No condition on the text that follows. -/
def Anything (_ : List Char) : Prop := True

end Reading

namespace Layout

/-- Unless it fails, the text of the layout takes the reader from one state to another, before any
text that is as told. -/
def Leads (l : Layout) (v : Vocabulary) (width : Nat) (follows : List Char → Prop)
    (s t : State) : Prop :=
  l.failure = none → ∀ rest, follows rest → read v s (l.chars width ++ rest) = read v t rest

/-- The text of the layout starts with something else than a character of words. -/
def Separates (l : Layout) (width : Nat) : Prop :=
  ∀ rest, Boundary (l.chars width ++ rest)

section

variable {v : Vocabulary} {width : Nat} {follows : List Char → Prop} {s t u : State} {a b : Layout}

/-! ## Putting layouts together -/

/-- Layouts lead on from each other, if the first can be followed by anything. -/
theorem Leads.append (first : a.Leads v width Anything s t) (next : b.Leads v width follows t u) :
    (a ++ b).Leads v width follows s u := by
  intro sound rest follow
  obtain ⟨soundFirst, soundNext⟩ : a.failure = none ∧ b.failure = none := by simpa using sound
  rw [chars_append soundFirst, List.append_assoc, first soundFirst _ trivial,
    next soundNext rest follow]

/-- A layout that may end in a word, and one that may follow a word. -/
theorem Leads.append_apart (first : a.Leads v width Boundary s t)
    (next : b.Leads v width follows t u)
    (apart : ∀ rest, follows rest → Boundary (b.chars width ++ rest)) :
    (a ++ b).Leads v width follows s u := by
  intro sound rest follow
  obtain ⟨soundFirst, soundNext⟩ : a.failure = none ∧ b.failure = none := by simpa using sound
  rw [chars_append soundFirst, List.append_assoc, first soundFirst _ (apart rest follow),
    next soundNext rest follow]

/-- Layouts lead on from each other, if the second does not go on with a word of the first. -/
theorem Leads.append_separated (first : a.Leads v width Boundary s t)
    (next : b.Leads v width follows t u) (separates : b.Separates width) :
    (a ++ b).Leads v width follows s u :=
  first.append_apart next fun rest _ => separates rest

/-- What can be followed by anything can be followed by less. -/
theorem Leads.weaken (leads : a.Leads v width Anything s t) : a.Leads v width follows s t :=
  fun sound rest _ => leads sound rest trivial

/-- The reader sees the text of a layout alone. -/
theorem SameText.leads (same : a.SameText b) (leads : b.Leads v width follows s t) :
    a.Leads v width follows s t := by
  intro sound rest follow
  rw [same.1] at sound
  rw [same.2]
  exact leads sound rest follow

/-- Whether a layout separates words depends on its text only. -/
theorem SameText.separates (same : a.SameText b) (separates : b.Separates width) :
    a.Separates width := by
  intro rest
  rw [same.2]
  exact separates rest

/-- A text that does not start with a word's character separates words. -/
theorem separates_text {text : String} {c : Char} {cs : List Char} (chars : text.toList = c :: cs)
    (other : isWordChar c = false) : (Layout.text text).Separates width := by
  intro rest
  rw [chars_text, chars]
  exact boundary_cons other (cs ++ rest)

theorem separates_newline : newline.Separates width :=
  fun rest => boundary_cons (by decide) rest

/-- A layout separates words if its first part does. -/
theorem Separates.append (separates : a.Separates width) (sound : a.failure = none) (b : Layout) :
    (a ++ b).Separates width := by
  intro rest
  rw [chars_append sound, List.append_assoc]
  exact separates _

/-- Items between brackets separate words if the opening bracket does. -/
theorem separates_bracketed {opening : String} (closing : String)
    (separates : (text opening).Separates width) (fits : Bool) (position : Nat)
    (items : Nat → LineMode → List Layout) :
    (bracketed opening closing fits position items).Separates width := by
  rw [bracketed, append_assoc]
  exact separates.append rfl _

/-! ## Single pieces -/

theorem leads_empty (s : State) : empty.Leads v width follows s s :=
  fun _ _ _ => rfl

/-- A failure leads anywhere, as it leaves no text to be read. -/
theorem leads_fail (e : LayoutError) (s t : State) : (fail e).Leads v width follows s t := by
  intro sound
  cases sound

/-- A text, by what the reader makes of it. -/
theorem leads_text {text : String}
    (reads : ∀ rest, read v s (text.toList ++ rest) = read v t rest) :
    (Layout.text text).Leads v width Anything s t := by
  intro _ rest _
  rw [chars_text]
  exact reads rest

/-- A line break between tokens is passed over. -/
theorem leads_newline (s : State) : newline.Leads v width Anything s s :=
  fun _ _ _ => rfl

/-- Indentation between tokens is passed over. -/
theorem leads_indent (level : Nat) (s : State) : (indent level).Leads v width Anything s s := by
  intro _ rest _
  rw [chars_indent, Reading.read, scan_spaces]
  rfl

/-- What leads a construct in, indentation or nothing, is passed over. -/
theorem leads_lead (construct : Construct) (position : Nat) (mode : LineMode) (s : State) :
    (lead construct position mode).Leads v width Anything s s := by
  cases mode with
  | newLine => exact leads_indent position s
  | continueLine => exact leads_empty s
  | singleLine => exact leads_fail _ s s

theorem leads_refuseSingleLine (construct : Construct) (position : Nat) (mode : LineMode)
    (s : State) : (refuseSingleLine construct position mode).Leads v width Anything s s := by
  cases mode with
  | singleLine => exact leads_fail _ s s
  | _ => exact leads_empty s

/-- A word that the reader takes in one step. -/
theorem leads_word {w : String} (named : w ≠ "") (word : ∀ c ∈ w.toList, isWordChar c = true)
    (steps : step v s (.word w.toList) = some t) : (text w).Leads v width Boundary s t := by
  intro _ rest boundary
  have chars : w.toList ≠ [] := fun none => named (String.toList_eq_nil_iff.mp none)
  rw [chars_text, Reading.read, scan_word chars word boundary, run, steps]
  rfl

/-- A text of one token, with white space around it, that the reader takes in one step. -/
theorem leads_token {text : String} {token : Token}
    (tokens : ∀ rest, scan .between (text.toList ++ rest) = token :: scan .between rest)
    (steps : step v s token = some t) : (Layout.text text).Leads v width Anything s t := by
  refine leads_text fun rest => ?_
  rw [Reading.read, tokens, run, steps]
  rfl

/-! ## Items -/

section

-- The states are told by the items that have been read: before the next one is due, and behind one.
variable {α : Type} {layout : α → Layout} {due : List α → State} {behind : List α → α → State}

/-- Items on one line end behind the last of them. -/
theorem leads_commaSeparated {init : List α} {last : α}
    (items : ∀ x ∈ init ++ [last], ∀ done,
      (layout x).Leads v width Boundary (due done) (behind done x))
    (commas : ∀ x ∈ init ++ [last], ∀ done,
      step v (behind done x) (.sign ',') = some (due (done ++ [x]))) (done : List α) :
    (commaSeparated ((init ++ [last]).map layout)).Leads v width Boundary (due done)
      (behind (done ++ init) last) := by
  induction init generalizing done with
  | nil =>
    rw [List.append_nil]
    exact items last List.mem_cons_self done
  | cons x init ih =>
    have first := items x List.mem_cons_self done
    have comma : (text ", ").Leads v width Anything (behind done x) (due (done ++ [x])) :=
      leads_token (fun _ => rfl) (commas x List.mem_cons_self done)
    have others := ih (fun y mem => items y (List.mem_cons_of_mem x mem))
      (fun y mem => commas y (List.mem_cons_of_mem x mem)) (done ++ [x])
    rw [List.append_assoc, List.singleton_append] at others
    have split : commaSeparated (((x :: init) ++ [last]).map layout) =
        layout x ++ text ", " ++ commaSeparated ((init ++ [last]).map layout) := by
      cases init <;> rfl
    rw [split]
    have separates : (text ", ").Separates width := separates_text rfl (by decide)
    exact (first.append_separated comma separates).append others

/-- Stacked items each have a comma after them, so that at their end another one could follow. -/
theorem leads_stacked (position : Nat) {xs : List α}
    (items : ∀ x ∈ xs, ∀ done, (layout x).Leads v width Boundary (due done) (behind done x))
    (commas : ∀ x ∈ xs, ∀ done, step v (behind done x) (.sign ',') = some (due (done ++ [x])))
    (done : List α) :
    (stacked position (xs.map layout)).Leads v width Anything (due done) (due (done ++ xs)) := by
  have lines : (concat ((xs.map layout).map (· ++ text "," ++ newline))).Leads v width Anything
      (due done) (due (done ++ xs)) := by
    induction xs generalizing done with
    | nil =>
      rw [List.append_nil]
      exact leads_empty _
    | cons x xs ih =>
      have first := items x List.mem_cons_self done
      have comma : (text ",").Leads v width Anything (behind done x) (due (done ++ [x])) :=
        leads_token (fun _ => rfl) (commas x List.mem_cons_self done)
      have others := ih (fun y mem => items y (List.mem_cons_of_mem x mem))
        (fun y mem => commas y (List.mem_cons_of_mem x mem)) (done ++ [x])
      rw [List.append_assoc, List.singleton_append] at others
      have separates : (text ",").Separates width := separates_text rfl (by decide)
      exact ((first.append_separated comma separates).append (leads_newline _)).append others
  exact ((leads_newline _).append lines).append (leads_indent position _)

end

/-- Items between brackets. The closing text stands behind the last item where the items are on one
line, and where another item could follow otherwise. -/
theorem leads_bracketed {α : Type} {xs : List α} {layout : α → Nat → LineMode → Layout}
    {due : List α → State} {behind : List α → α → State} {opening closing : String} {fits : Bool}
    (position : Nat) (opens : (text opening).Leads v width Anything s (due []))
    (items : ∀ x ∈ xs, ∀ done q m,
      (layout x q m).Leads v width Boundary (due done) (behind done x))
    (commas : ∀ x ∈ xs, ∀ done, step v (behind done x) (.sign ',') = some (due (done ++ [x])))
    (separates : (text closing).Separates width)
    (closesBehind : ∀ init last, xs = init ++ [last] → fits = true →
      (text closing).Leads v width Anything (behind init last) t)
    (closesDue : xs = [] ∨ fits = false → (text closing).Leads v width Anything (due xs) t) :
    (bracketed opening closing fits position fun q m => xs.map (layout · q m)).Leads v width
      Anything s t := by
  unfold bracketed arranged
  cases fits with
  | true =>
    rcases List.eq_nil_or_concat xs with rfl | ⟨init, last, rfl⟩
    · exact (opens.append (leads_empty _)).append (closesDue (.inl rfl))
    · rw [List.concat_eq_append] at items commas closesBehind ⊢
      have inside := leads_commaSeparated
        (fun x mem done => items x mem done position .continueLine) commas []
      exact (opens.append inside).append_separated (closesBehind init last rfl rfl) separates
  | false =>
    have inside := leads_stacked position
      (fun x mem done => items x mem done (position + 1) .newLine) commas []
    exact (opens.append inside).append (closesDue (.inr rfl))

end

end Layout

/-! ## Expressions -/

/-- Wherever the expression is placed, its layout takes the reader to this operand, the last that is
read; what waits there is told by what waits where the expression starts. -/
def Expr.ReadsTo (v : Vocabulary) (width : Nat) (e last : Expr) (waiting : Pending → Pending) :
    Prop :=
  ∀ p m pending frames, (e.layout p m).Leads v width Boundary ⟨.start, pending, frames⟩
    ⟨.operand last, waiting pending, frames⟩

end StarlarkCode
