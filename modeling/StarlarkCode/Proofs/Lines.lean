import StarlarkCode.Proofs.Verbatim

/-!
# Line breaks in one style

The lines of a text, said without reading it from the left. A text is brought to one style of breaks
first: every pair of a carriage return and a line feed becomes a line feed, and then every carriage
return that is left does. Its lines are what stands between the line feeds of the result
(`lineChars_eq_splitOn`), and there is one more of them than there are breaks (`length_lineChars`),
where a line feed right behind a carriage return is no break of its own.

The lines also come one at a time. `cutLine` takes the line at the front of a text and leaves what
follows its break; cutting until nothing is left comes to an end, and gives the lines
(`cutsInto_iff`).
-/

namespace StarlarkCode.Text

/-! ## One style -/

/-- Every pair of a carriage return and a line feed as one line feed. -/
def joinPairs : List Char → List Char
  | [] => []
  | '\r' :: '\n' :: cs => '\n' :: joinPairs cs
  | c :: cs => c :: joinPairs cs

/-- A carriage return as a line feed, and any other character as it is. -/
def feedFor (c : Char) : Char :=
  if c = '\r' then '\n' else c

/-- The characters with every break as a line feed. -/
def withFeeds (cs : List Char) : List Char :=
  (joinPairs cs).map feedFor

/-- A character other than a carriage return is kept. -/
theorem joinPairs_cons {c : Char} (cs : List Char) (other : c ≠ '\r') :
    joinPairs (c :: cs) = c :: joinPairs cs := by
  cases cs with
  | nil => simp [joinPairs]
  | cons d cs => simp [joinPairs, other]

/-- A carriage return without a line feed behind it is kept. -/
theorem joinPairs_return {cs : List Char} (alone : ∀ rest, cs ≠ '\n' :: rest) :
    joinPairs ('\r' :: cs) = '\r' :: joinPairs cs := by
  cases cs with
  | nil => rfl
  | cons d cs =>
    have other : d ≠ '\n' := fun same => alone cs (congrArg (· :: cs) same)
    simp [joinPairs, other]

/-- A line feed starts a new line. -/
theorem splitOn_feed (cs : List Char) : ('\n' :: cs).splitOn '\n' = [] :: cs.splitOn '\n' := by
  simp [List.splitOn_eq_splitOnP, List.splitOnP_cons_eq_if_modifyHead]

/-- Any other character goes to the first line. -/
theorem splitOn_cons {c : Char} (cs : List Char) (other : c ≠ '\n') :
    (c :: cs).splitOn '\n' = consFirst c (cs.splitOn '\n') := by
  have head : (c :: cs).splitOn '\n' = (cs.splitOn '\n').modifyHead (c :: ·) := by
    simp [List.splitOn_eq_splitOnP, List.splitOnP_cons_eq_if_modifyHead, other]
  obtain ⟨line, lines, split⟩ := List.exists_cons_of_ne_nil (List.splitOn_ne_nil '\n' cs)
  rw [head, split]
  rfl

/-- The lines of a text are what stands between its breaks, once they are all line feeds. -/
theorem lineChars_eq_splitOn (cs : List Char) : lineChars cs = (withFeeds cs).splitOn '\n' := by
  fun_induction lineChars cs with
  | case1 => rfl
  | case2 cs ih =>
    rw [ih, ← splitOn_feed]
    rfl
  | case3 cs alone ih =>
    rw [ih, ← splitOn_feed, withFeeds, withFeeds, joinPairs_return fun rest same => alone rest same]
    rfl
  | case4 cs ih =>
    rw [ih, ← splitOn_feed, withFeeds, withFeeds, joinPairs_cons cs (by decide)]
    rfl
  | case5 c cs _ noReturn noFeed ih =>
    have kept : feedFor c = c := if_neg noReturn
    rw [ih, ← splitOn_cons _ noFeed, withFeeds, withFeeds, joinPairs_cons cs noReturn,
      List.map_cons, kept]

/-! ## Counting breaks -/

/-- How often a line feed stands right behind a carriage return. -/
def pairCount (cs : List Char) : Nat :=
  (cs.zip cs.tail).count ('\r', '\n')

theorem isBreak_eq_false {c : Char} (noReturn : c ≠ '\r') (noFeed : c ≠ '\n') :
    isBreak c = false := by
  simp [isBreak, noReturn, noFeed]

/-- A carriage return with its line feed counts as a pair. -/
theorem pairCount_pair (cs : List Char) :
    pairCount ('\r' :: '\n' :: cs) = pairCount ('\n' :: cs) + 1 :=
  List.count_cons_self

theorem pairCount_cons {c : Char} (cs : List Char) (other : c ≠ '\r') :
    pairCount (c :: cs) = pairCount cs := by
  cases cs with
  | nil => rfl
  | cons d cs => exact List.count_cons_of_ne fun same => other (congrArg Prod.fst same)

/-- A carriage return alone does not. -/
theorem pairCount_return {cs : List Char} (alone : ∀ rest, cs ≠ '\n' :: rest) :
    pairCount ('\r' :: cs) = pairCount cs := by
  cases cs with
  | nil => rfl
  | cons d cs =>
    have other : d ≠ '\n' := fun same => alone cs (congrArg (· :: cs) same)
    exact List.count_cons_of_ne fun same => other (congrArg Prod.snd same)

/-- There is one more line than there are breaks. -/
theorem length_lineChars (cs : List Char) :
    (lineChars cs).length + pairCount cs = cs.countP isBreak + 1 := by
  fun_induction lineChars cs with
  | case1 => rfl
  | case2 cs ih =>
    rw [pairCount_pair, pairCount_cons cs (by decide), List.length_cons,
      List.countP_cons_of_pos rfl, List.countP_cons_of_pos rfl]
    omega
  | case3 cs alone ih =>
    rw [pairCount_return fun rest same => alone rest same, List.length_cons,
      List.countP_cons_of_pos rfl]
    omega
  | case4 cs ih =>
    rw [pairCount_cons cs (by decide), List.length_cons, List.countP_cons_of_pos rfl]
    omega
  | case5 c cs _ noReturn noFeed ih =>
    have inside : ¬isBreak c = true := by simp [isBreak_eq_false noReturn noFeed]
    have length : (consFirst c (lineChars cs)).length = (lineChars cs).length := by
      obtain ⟨line, lines, split⟩ := List.exists_cons_of_ne_nil (lineChars_ne_nil cs)
      rw [split]
      rfl
    rw [pairCount_cons cs noReturn, List.countP_cons_of_neg inside, length, ih]

/-! ## One line at a time -/

/-- What follows the break at the front of a text. -/
def afterBreak? : List Char → Option (List Char)
  | [] => none
  | '\r' :: '\n' :: cs => some cs
  | _ :: cs => some cs

/-- The line at the front of a text, and what follows its break if it has one. -/
def cutLine (cs : List Char) : List Char × Option (List Char) :=
  (cs.takeWhile (!isBreak ·), afterBreak? (cs.dropWhile (!isBreak ·)))

/-- Cutting lines off what is left, until nothing is left, comes to an end with these lines. -/
inductive CutsInto : Option (List Char) → List (List Char) → Prop where
  | done : CutsInto none []
  | cut {cs : List Char} {lines : List (List Char)} (rest : CutsInto (cutLine cs).2 lines) :
    CutsInto (some cs) ((cutLine cs).1 :: lines)

/-- A carriage return alone ends a line. -/
theorem cutLine_return {cs : List Char} (alone : ∀ rest, cs ≠ '\n' :: rest) :
    cutLine ('\r' :: cs) = ([], some cs) := by
  cases cs with
  | nil => rfl
  | cons d cs =>
    have other : d ≠ '\n' := fun same => alone cs (congrArg (· :: cs) same)
    simp [cutLine, afterBreak?, isBreak, other]

/-- A character that is no break belongs to the line. -/
theorem cutLine_cons {c : Char} (cs : List Char) (inside : isBreak c = false) :
    cutLine (c :: cs) = (c :: (cutLine cs).1, (cutLine cs).2) := by
  simp [cutLine, inside]

/-- Cutting line after line gives the lines of the text. -/
theorem cutsInto_lineChars (cs : List Char) : CutsInto (some cs) (lineChars cs) := by
  fun_induction lineChars cs with
  | case1 => exact .cut .done
  | case2 cs ih => exact @CutsInto.cut ('\r' :: '\n' :: cs) _ ih
  | case3 cs alone ih =>
    have whole := cutLine_return fun rest same => alone rest same
    have rest : CutsInto (cutLine ('\r' :: cs)).2 (lineChars cs) := by rwa [whole]
    have cuts := CutsInto.cut rest
    rwa [whole] at cuts
  | case4 cs ih => exact @CutsInto.cut ('\n' :: cs) _ ih
  | case5 c cs _ noReturn noFeed ih =>
    have whole := cutLine_cons cs (isBreak_eq_false noReturn noFeed)
    generalize lineChars cs = all at ih
    cases ih with
    | @cut _ lines rest =>
      have rest : CutsInto (cutLine (c :: cs)).2 lines := by rwa [whole]
      have cuts := CutsInto.cut rest
      rwa [whole] at cuts

/-- Cutting gives the lines, and nothing else. -/
theorem cutsInto_iff {cs : List Char} {lines : List (List Char)} :
    CutsInto (some cs) lines ↔ lines = lineChars cs := by
  have unique {left : Option (List Char)} {a b : List (List Char)} (cuts : CutsInto left a)
      (cuts' : CutsInto left b) : a = b := by
    induction cuts generalizing b with
    | done =>
      cases cuts'
      rfl
    | cut _ ih =>
      cases cuts' with
      | cut rest' => rw [ih rest']
  constructor
  · exact fun cuts => unique cuts (cutsInto_lineChars cs)
  · rintro rfl
    exact cutsInto_lineChars cs

/-- The lines of a text are those of the text in one style of breaks, where first every pair of a
carriage return and a line feed and then every other carriage return is a line feed: they stand
between its line feeds, hold no break themselves and give the text in one style when they are joined
again. Cutting one line after the other off the text ends, with these lines. There is always a line,
and one more than there are breaks; a pair counts as one break. -/
theorem lines_between_breaks (s : String) :
    (∀ row : List String,
        CutsInto (some s.toList) (row.map String.toList) ↔ row = lines s) ∧
      lines s = ((withFeeds s.toList).splitOn '\n').map String.ofList ∧
      (∀ line ∈ lines s, '\r' ∉ line.toList ∧ '\n' ∉ line.toList) ∧
      ("\n".intercalate (lines s)).toList = withFeeds s.toList ∧
      lines s ≠ [] ∧
      (lines s).length + pairCount s.toList = s.toList.countP isBreak + 1 := by
  have chars : (lines s).map String.toList = lineChars s.toList := by simp [lines]
  refine ⟨fun row => ?_, ?_, fun line mem => ?_, ?_, ?_, ?_⟩
  · have texts : Function.Injective String.toList := fun _ _ => String.toList_inj.mp
    rw [cutsInto_iff, ← chars, (List.map_injective_iff.mpr texts).eq_iff]
  · rw [lines, lineChars_eq_splitOn]
  · have unbroken := unbroken_lineChars s.toList line.toList
      (chars ▸ List.mem_map_of_mem mem)
    exact ⟨fun feed => (unbroken _ feed).1 rfl, fun feed => (unbroken _ feed).2 rfl⟩
  · rw [String.toList_intercalate, chars, lineChars_eq_splitOn]
    exact List.intercalate_splitOn '\n'
  · exact fun none => lineChars_ne_nil s.toList (chars ▸ congrArg _ none)
  · rw [lines, List.length_map, length_lineChars]

/-- A pair behind a carriage return, between letters of several bytes, and a break at the end. -/
theorem lines_between_breaks_mixed :
    lines "é\r\r\n漢\n\r" = ["é", "", "漢", "", ""] ∧
      CutsInto (some "é\r\r\n漢\n\r".toList) (["é", "", "漢", "", ""].map String.toList) ∧
      ("漢" ∈ lines "é\r\r\n漢\n\r" ∧ '\r' ∉ "漢".toList ∧ '\n' ∉ "漢".toList) ∧
      withFeeds "é\r\r\n漢\n\r".toList = "é\n\n漢\n\n".toList ∧
      (lines "é\r\r\n漢\n\r").length + 1 = 5 + 1 := by
  obtain ⟨cuts, -, unbroken, -, -, count⟩ := lines_between_breaks "é\r\r\n漢\n\r"
  have mem : "漢" ∈ lines "é\r\r\n漢\n\r" := by decide
  exact ⟨by decide, (cuts _).mpr (by decide), ⟨mem, unbroken _ mem⟩, by decide, count⟩

end StarlarkCode.Text
