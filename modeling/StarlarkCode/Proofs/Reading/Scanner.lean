import StarlarkCode.Proofs.Numerals

/-!
# Scanning source text

A text of the language as words, strings and signs. White space separates and has no meaning of its
own. A word is read as far as it goes, so what follows a word must not start with a character of
words; this is `Boundary`, and it is the one condition under which texts can be scanned piece by
piece.

The scanner knows strings on one line without escapes; any other is passed on as unreadable.
-/

namespace StarlarkCode.Reading

open Text (isWhiteSpace)

/-! ## Words -/

/-- A character of words: a letter, a digit or the underscore. Outside ASCII letters are not told
from other characters that are not white space. -/
def isWordChar (c : Char) : Bool :=
  c.isAlphanum || c == '_' || (127 < c.toNat && !isWhiteSpace c)

/-- No white space is part of a word. -/
theorem not_isWhiteSpace_of_isWordChar {c : Char} (word : isWordChar c = true) :
    ¬isWhiteSpace c = true := by
  intro blank
  have noLetter : c.isAlphanum = false := by
    show (decide (c.val ≥ 'A'.val ∧ c.val ≤ 'Z'.val)
      || (decide (c.val ≥ 'a'.val) && decide (c.val ≤ 'z'.val))
      || (decide (c.val ≥ '0'.val) && decide (c.val ≤ '9'.val))) = false
    simp [isWhiteSpace, Text.whiteSpaceRanges, UInt32.le_iff_toNat_le] at blank ⊢
    omega
  have noUnderscore : c ≠ '_' := by
    rintro rfl
    cases blank
  simp [isWordChar, noLetter, noUnderscore, blank] at word

/-- A word that does not start with a digit. -/
def IsIdentifier (s : String) : Prop :=
  s ≠ "" ∧ (∀ c ∈ s.toList, isWordChar c = true) ∧ s.toList.head?.any Char.isDigit = false

instance (s : String) : Decidable (IsIdentifier s) :=
  have : Decidable (∀ c ∈ s.toList, isWordChar c = true) := Text.decidableForall s.toList
  inferInstanceAs (Decidable (_ ∧ _ ∧ _))

/-! ## Tokens -/

/-- A piece of source text with a meaning of its own. -/
inductive Token where
  /-- A name, a keyword or the digits of a number. -/
  | word (chars : List Char)
  /-- A string with this content. -/
  | string (chars : List Char)
  /-- A bracket, a separator or an operator. -/
  | sign (c : Char)
  /-- A string that is not closed on its line, or one with an escape. -/
  | unreadable
deriving DecidableEq, Repr

/-- What the scanner is in the middle of, with the characters read so far, the last one first. -/
inductive Scan where
  | between
  | word (read : List Char)
  | string (read : List Char)
deriving DecidableEq, Repr

/-- The tokens that end at a character outside words and strings, and what it starts. -/
def enter (c : Char) : List Token × Scan :=
  if isWordChar c then ([], .word [c])
  else if c = '"' then ([], .string [])
  else if isWhiteSpace c then ([], .between)
  else ([.sign c], .between)

/-- The tokens that end at a character, and where the scanner is after it. -/
def Scan.step : Scan → Char → List Token × Scan
  | .between, c => enter c
  | .word read, c =>
    if isWordChar c then ([], .word (c :: read))
    else (.word read.reverse :: (enter c).1, (enter c).2)
  | .string read, c =>
    if c = '"' then ([.string read.reverse], .between)
    else if c = '\\' ∨ c = '\n' ∨ c = '\r' then ([.unreadable], .between)
    else ([], .string (c :: read))

/-- The tokens that end with the text. -/
def Scan.finish : Scan → List Token
  | .between => []
  | .word read => [.word read.reverse]
  | .string _ => [.unreadable]

/-- The tokens of a text. -/
def scan : Scan → List Char → List Token
  | s, [] => s.finish
  | s, c :: cs => (s.step c).1 ++ scan (s.step c).2 cs

/-! ## Scanning piece by piece -/

/-- The text, if there is any, does not go on with a character of words. -/
def Boundary (rest : List Char) : Prop :=
  ∀ c ∈ rest.head?, isWordChar c = false

theorem boundary_nil : Boundary [] := fun _ mem => by cases mem

/-- A word ends before a character that belongs to none. -/
theorem boundary_cons {c : Char} (other : isWordChar c = false) (rest : List Char) :
    Boundary (c :: rest) := by
  intro d mem
  cases mem
  exact other

private theorem scan_in_word {rest : List Char} (boundary : Boundary rest) (read : List Char)
    {w : List Char} (word : ∀ c ∈ w, isWordChar c = true) :
    scan (.word read) (w ++ rest) = .word (read.reverse ++ w) :: scan .between rest := by
  induction w generalizing read with
  | nil =>
    rw [List.append_nil, List.nil_append]
    cases rest with
    | nil => rfl
    | cons c rest =>
      rw [scan, Scan.step, if_neg (Bool.eq_false_iff.mp (boundary c rfl))]
      rfl
  | cons c w ih =>
    obtain ⟨first, others⟩ := List.forall_mem_cons.mp word
    rw [List.cons_append, scan, Scan.step, if_pos first, List.nil_append, ih (c :: read) others,
      List.reverse_cons, List.append_assoc, List.singleton_append]

/-- A word up to a boundary. -/
theorem scan_word {w : List Char} (some : w ≠ []) (word : ∀ c ∈ w, isWordChar c = true)
    {rest : List Char} (boundary : Boundary rest) :
    scan .between (w ++ rest) = .word w :: scan .between rest := by
  cases w with
  | nil => exact absurd rfl some
  | cons c w =>
    obtain ⟨first, others⟩ := List.forall_mem_cons.mp word
    rw [List.cons_append, scan, Scan.step, enter, if_pos first, List.nil_append]
    exact scan_in_word boundary [c] others

/-- The characters that a string can hold without an escape. -/
def IsStringChar (c : Char) : Prop :=
  c ≠ '"' ∧ c ≠ '\\' ∧ c ≠ '\n' ∧ c ≠ '\r'

instance (c : Char) : Decidable (IsStringChar c) :=
  inferInstanceAs (Decidable (_ ∧ _ ∧ _ ∧ _))

private theorem scan_in_string (rest read : List Char) {cs : List Char}
    (plain : ∀ c ∈ cs, IsStringChar c) :
    scan (.string read) (cs ++ '"' :: rest) =
      .string (read.reverse ++ cs) :: scan .between rest := by
  induction cs generalizing read with
  | nil =>
    rw [List.append_nil]
    rfl
  | cons c cs ih =>
    obtain ⟨⟨noQuote, noEscape, noFeed, noReturn⟩, others⟩ := List.forall_mem_cons.mp plain
    have goesOn : ¬(c = '\\' ∨ c = '\n' ∨ c = '\r') := by simp [noEscape, noFeed, noReturn]
    rw [List.cons_append, scan, Scan.step, if_neg noQuote, if_neg goesOn, List.nil_append,
      ih (c :: read) others, List.reverse_cons, List.append_assoc, List.singleton_append]

/-- A string between quotes, whatever follows. -/
theorem scan_string {cs : List Char} (plain : ∀ c ∈ cs, IsStringChar c) (rest : List Char) :
    scan .between ('"' :: (cs ++ '"' :: rest)) = .string cs :: scan .between rest :=
  scan_in_string rest [] plain

/-- Spaces between tokens are passed over. -/
theorem scan_spaces (n : Nat) (rest : List Char) :
    scan .between (List.replicate n ' ' ++ rest) = scan .between rest := by
  induction n with
  | zero => rfl
  | succ n ih =>
    rw [List.replicate_succ, List.cons_append]
    exact ih

end StarlarkCode.Reading
