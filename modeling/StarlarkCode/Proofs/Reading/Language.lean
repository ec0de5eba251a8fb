import StarlarkCode.Proofs.Brackets
import StarlarkCode.Proofs.Reading.Layouts

/-!
# Names, numbers and strings

What single words and short texts are where an operand is due. `language` tells numbers, the
literals `True`, `False` and `None`, and names apart; the keywords of clauses are none of these.

A number is a word of digits with or without a minus sign before it, as a literal and as a bound of
a slice (`read_number`).
-/

namespace StarlarkCode

open Reading

/-! ## The words of the language -/

namespace Reading

/-- Words that are no names. -/
def reserved : List String :=
  ["True", "False", "None", "for", "in", "if"]

/-- An identifier that can be a name. -/
def IsName (s : String) : Prop :=
  IsIdentifier s ∧ s ∉ reserved

instance (s : String) : Decidable (IsName s) :=
  inferInstanceAs (Decidable (_ ∧ _))

/-- A number, a literal or a name. -/
def language : Vocabulary := fun w =>
  if w.head?.any Char.isDigit then (natural? w).map fun (n : Nat) => .integer (Int64.ofInt n)
  else if w = "True".toList then some (.boolean true)
  else if w = "False".toList then some (.boolean false)
  else if w = "None".toList then some .none
  else if String.ofList w ∈ reserved then none
  else some (.reference ⟨String.ofList w, .any⟩)

/-- A name stands for a reference. -/
theorem language_name {s : String} (name : IsName s) :
    language s.toList = some (.reference ⟨s, .any⟩) := by
  obtain ⟨⟨-, -, noDigit⟩, free⟩ := name
  have other {literal : String} (mem : literal ∈ reserved) : s.toList ≠ literal.toList := by
    intro same
    rw [String.toList_inj.mp same] at free
    exact free mem
  rw [language, noDigit, if_neg Bool.false_ne_true, if_neg (other (by decide)),
    if_neg (other (by decide)), if_neg (other (by decide)), String.ofList_toList, if_neg free]

/-- A name is not blank. -/
theorem IsName.not_isBlank {s : String} (name : IsName s) : ¬Text.isBlank s = true := by
  intro blank
  obtain ⟨⟨named, word, -⟩, -⟩ := name
  cases chars : s.toList with
  | nil => exact named (String.toList_eq_nil_iff.mp chars)
  | cons c cs =>
    have mem : c ∈ s.toList := chars ▸ List.mem_cons_self
    exact not_isWhiteSpace_of_isWordChar (word c mem) (List.all_eq_true.mp blank c mem)

/-- The digits of a number are read as the number. -/
theorem natural?_digits (n : Nat) : natural? (Text.digits n) = some n := by
  have digits : (Text.digits n).all Char.isDigit = true :=
    List.all_eq_true.mpr fun _ mem => Text.isDigit_of_mem_digits mem
  rw [natural?, if_pos digits, Text.digits, Nat.ofDigitChars_ten_toDigits]

/-- Digits stand for an integer. -/
theorem language_digits (n : Nat) :
    language (Text.digits n) = some (.integer (Int64.ofInt n)) := by
  have starts : (Text.digits n).head?.any Char.isDigit = true := by
    cases digits : Text.digits n with
    | nil => exact absurd digits Nat.toDigits_ne_nil
    | cons c cs => exact Text.isDigit_of_mem_digits (digits ▸ List.mem_cons_self)
  rw [language, if_pos starts, natural?_digits]
  rfl

/-- Digits are one word. -/
theorem scan_digits (n : Nat) {rest : List Char} (boundary : Boundary rest) :
    scan .between (Text.digits n ++ rest) = .word (Text.digits n) :: scan .between rest := by
  refine scan_word Nat.toDigits_ne_nil (fun c mem => ?_) boundary
  rw [isWordChar, Char.isAlphanum, Text.isDigit_of_mem_digits mem, Bool.or_true]
  rfl

/-- The two spellings of a number, with a minus sign and without. -/
theorem read_number {v : Vocabulary} {s minus : State} (result : Int64 → State)
    (sign : step v s (.sign '-') = some minus)
    (natural : ∀ n : Nat, step v s (.word (Text.digits n)) = some (result (Int64.ofInt n)))
    (negative : ∀ n : Nat,
      step v minus (.word (Text.digits n)) = some (result (Int64.ofInt (-n))))
    (value : Int64) {rest : List Char} (boundary : Boundary rest) :
    read v s ((Text.ofInt value.toInt).toList ++ rest) = read v (result value) rest := by
  have same := Int64.ofInt_toInt value
  cases spelled : value.toInt with
  | ofNat n =>
    have spells : Int64.ofInt n = value := by
      rw [← same, spelled]
      rfl
    rw [Text.ofInt, Text.ofNat, String.toList_ofList, Reading.read, scan_digits n boundary, run,
      natural, spells]
    rfl
  | negSucc n =>
    have spells : Int64.ofInt (-(n + 1 : Nat)) = value := by
      rw [← same, spelled]
      rfl
    have chars : (Text.ofInt (.negSucc n)).toList ++ rest =
        '-' :: (Text.digits (n + 1) ++ rest) := by
      simp [Text.ofInt, Text.ofNat]
    rw [chars]
    show (step v s (.sign '-')).bind _ = _
    rw [sign]
    show run v minus (scan .between (Text.digits (n + 1) ++ rest)) = _
    rw [scan_digits (n + 1) boundary, run, negative, spells]
    rfl

end Reading

section

variable {width : Nat}

open Layout

/-! ## Literals and names -/

/-- A name takes the reader where its word takes it. -/
theorem Layout.leads_name {s t : State} {name : String} (isName : IsName name)
    (steps : step language s (.word name.toList) = some t) :
    (text name).Leads language width Boundary s t :=
  leads_word isName.1.1 isName.1.2.1 steps

/-- A name is read as an operand. -/
theorem Layout.leads_reference {name : String} (isName : IsName name) (pending : Pending)
    (frames : List Frame) :
    (text name).Leads language width Boundary ⟨.start, pending, frames⟩
      ⟨.operand (.reference ⟨name, .any⟩), pending, frames⟩ := by
  refine leads_name isName ?_
  show (language name.toList).map _ = _
  rw [language_name isName]
  rfl

/-- A string literal is read as its value, on one line or as a block. -/
theorem Layout.leads_quoted (position : Nat) {value : String}
    (plain : ∀ c ∈ value.toList, IsStringChar c) (pending : Pending) (frames : List Frame) :
    (quoted position value).Leads language width Anything ⟨.start, pending, frames⟩
      ⟨.operand (.string value), pending, frames⟩ := by
  have line : Text.lines value = [value] := by
    refine Text.lines_of_unbroken fun c mem => ?_
    obtain ⟨-, -, noFeed, noReturn⟩ := plain c mem
    exact ⟨noReturn, noFeed⟩
  unfold quoted
  rw [line]
  intro _ rest _
  have chars : (text "\"" ++ text value ++ text "\"").chars width =
      '"' :: (value.toList ++ ['"']) := by
    rw [chars_append rfl, chars_append rfl, chars_text, chars_text]
    rfl
  rw [chars, List.cons_append, List.append_assoc, List.singleton_append, Reading.read,
    scan_string plain, run]
  show read language ⟨.operand (.string (String.ofList value.toList)), pending, frames⟩ rest = _
  rw [String.ofList_toList]

/-- An integer literal is read as its value, with its sign. -/
theorem Layout.leads_integer (value : Int64) (pending : Pending) (frames : List Frame) :
    (text (Text.ofInt value.toInt)).Leads language width Boundary ⟨.start, pending, frames⟩
      ⟨.operand (.integer value), pending, frames⟩ := by
  intro _ rest boundary
  rw [chars_text]
  have sign : step language ⟨.start, pending, frames⟩ (.sign '-') =
      some ⟨.minus, pending, frames⟩ := rfl
  refine read_number (fun n => ⟨.operand (.integer n), pending, frames⟩) sign (fun n => ?_)
    (fun n => ?_) value boundary
  · show (language (Text.digits n)).map _ = _
    rw [language_digits]
    rfl
  · show (natural? (Text.digits n)).map _ = _
    rw [natural?_digits]
    rfl

/-! ## Slices -/

namespace Reading

variable (v : Vocabulary) (receiver : Expr) (before : List (Option Int64)) (pending : Pending)
  (frames : List Frame)

/-- A number between the brackets of a slice is the bound being read. -/
theorem step_bounds_word {w : List Char} {n : Nat} (spelled : natural? w = some n)
    (negative : Bool) :
    step v ⟨.bounds receiver before negative none, pending, frames⟩ (.word w) =
      some ⟨.bounds receiver before false (some (Int64.ofInt (if negative then -n else n))),
        pending, frames⟩ := by
  have steps : step v ⟨.bounds receiver before negative none, pending, frames⟩ (.word w) =
      (natural? w).map fun (n : Nat) =>
        ⟨.bounds receiver before false (some (Int64.ofInt (if negative then -n else n))), pending,
          frames⟩ := by
    cases negative <;> rfl
  rw [steps, spelled]
  rfl

/-- A colon ends a bound. -/
theorem step_bounds_colon (current : Option Int64) :
    step v ⟨.bounds receiver before false current, pending, frames⟩ (.sign ':') =
      some ⟨.bounds receiver (before ++ [current]) false none, pending, frames⟩ := by
  cases current <;> rfl

/-- The bracket ends the bounds. -/
theorem step_bounds_close (current : Option Int64) :
    step v ⟨.bounds receiver before false current, pending, frames⟩ (.sign ']') =
      (bounds? (before ++ [current])).map fun bounds =>
        ⟨.operand (.slice receiver bounds), pending, frames⟩ := by
  cases current <;> rfl

/-- A bound is read as it is written, also one that is left out. -/
theorem read_bound (bound : Option Int64) {rest : List Char} (boundary : Boundary rest) :
    read v ⟨.bounds receiver before false none, pending, frames⟩
        ((Bounds.boundText bound).toList ++ rest) =
      read v ⟨.bounds receiver before false bound, pending, frames⟩ rest := by
  cases bound with
  | none => rfl
  | some value =>
    have sign : step v ⟨.bounds receiver before false none, pending, frames⟩ (.sign '-') =
        some ⟨.bounds receiver before true none, pending, frames⟩ := rfl
    exact read_number (fun n => ⟨.bounds receiver before false (some n), pending, frames⟩) sign
      (fun n => step_bounds_word v receiver before pending frames (natural?_digits n) false)
      (fun n => step_bounds_word v receiver before pending frames (natural?_digits n) true)
      value boundary

/-- A bound and its colon are read. -/
theorem read_bound_colon (bound : Option Int64) (rest : List Char) :
    read v ⟨.bounds receiver before false none, pending, frames⟩
        ((Bounds.boundText bound).toList ++ ':' :: rest) =
      read v ⟨.bounds receiver (before ++ [bound]) false none, pending, frames⟩ rest := by
  rw [read_bound v receiver before pending frames bound (boundary_cons (by decide) rest)]
  show (step v _ (.sign ':')).bind _ = _
  rw [step_bounds_colon]
  rfl

/-- The last bound and the bracket behind it are read. -/
theorem read_bound_close {bound : Option Int64} {bounds : Bounds}
    (complete : bounds? (before ++ [bound]) = some bounds) (rest : List Char) :
    read v ⟨.bounds receiver before false none, pending, frames⟩
        ((Bounds.boundText bound).toList ++ ']' :: rest) =
      read v ⟨.operand (.slice receiver bounds), pending, frames⟩ rest := by
  rw [read_bound v receiver before pending frames bound (boundary_cons (by decide) rest)]
  show (step v _ (.sign ']')).bind _ = _
  rw [step_bounds_close, complete]
  rfl

end Reading

/-- The bounds of a slice are read behind its receiver. -/
theorem Layout.leads_bounds {v : Vocabulary} (receiver : Expr) (bounds : Bounds)
    (pending : Pending) (frames : List Frame) :
    (Layout.bounds bounds).Leads v width Anything ⟨.operand receiver, pending, frames⟩
      ⟨.operand (.slice receiver bounds), pending, frames⟩ := by
  refine (sameText_bounds bounds).leads ?_
  obtain ⟨start, stop, step⟩ := bounds
  refine leads_text fun rest => ?_
  cases step with
  | none =>
    have chars : ("[" ++ Bounds.text ⟨start, stop, none⟩ ++ "]").toList ++ rest =
        '[' :: ((Bounds.boundText start).toList
          ++ ':' :: ((Bounds.boundText stop).toList ++ ']' :: rest)) := by
      simp [Bounds.text]
    rw [chars]
    show read v ⟨.bounds receiver [] false none, pending, frames⟩ _ = _
    rw [read_bound_colon, List.nil_append, read_bound_close _ _ _ _ _ rfl]
  | some n =>
    have chars : ("[" ++ Bounds.text ⟨start, stop, some n⟩ ++ "]").toList ++ rest =
        '[' :: ((Bounds.boundText start).toList
          ++ ':' :: ((Bounds.boundText stop).toList
            ++ ':' :: ((Bounds.boundText (some n)).toList ++ ']' :: rest))) := by
      simp [Bounds.text, Bounds.boundText]
    rw [chars]
    show read v ⟨.bounds receiver [] false none, pending, frames⟩ _ = _
    rw [read_bound_colon, List.nil_append, read_bound_colon, List.singleton_append,
      read_bound_close _ _ _ _ _ rfl]

/-- A slice goes to the operand that is read last, and what waits goes on waiting. -/
theorem Expr.readsTo_slice {v : Vocabulary} {receiver last : Expr} {waiting : Pending → Pending}
    (isRead : receiver.ReadsTo v width last waiting) (bounds : Bounds) :
    (Expr.slice receiver bounds).ReadsTo v width (.slice last bounds) waiting := by
  intro p m pending frames
  have chars : ("[" ++ bounds.text ++ "]").toList =
      '[' :: (bounds.text.toList ++ "]".toList) := by
    rw [String.toList_append, String.toList_append]
    rfl
  have separates : (Layout.bounds bounds).Separates width :=
    (sameText_bounds bounds).separates (separates_text chars (by decide))
  have whole := (isRead p .continueLine pending frames).append_separated
    (leads_bounds last bounds (waiting pending) frames) separates
  rw [Expr.layout, append_assoc]
  exact ((leads_lead _ p m _).append whole).weaken

end

end StarlarkCode
