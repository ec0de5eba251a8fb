import Mathlib.Data.List.DropRight
import StarlarkCode.File

/-!
# Names of modules

A module's name ends in the suffix of its kind: a name that does already, in letters of any case, is
kept, and any other gets the suffix. Whether it does is found on bytes, from an offset that is
counted from the end, and the name may have characters of several bytes there.

That never goes wrong. An offset passes the test on its byte exactly when it stands between two
characters (`isBoundary_iff`), and there the rest of the text can be taken
(`fromOffset?_eq_some_iff`). Letters of the two cases take one byte each, and no byte of another
character is one of them, so bytes that are the same up to case are characters that are
(`sameLetters_iff`). So the test on bytes always has an answer, and it is that for the last
characters (`endsIn?_eq`).
-/

namespace StarlarkCode

namespace Text

/-! ## Bytes of characters -/

/-- The bytes of a text are those of its characters in a row. -/
theorem utf8_ofList (cs : List Char) :
    utf8 (String.ofList cs) = cs.flatMap String.utf8EncodeChar := by
  rw [utf8, String.toByteArray_ofList]
  show (cs.flatMap String.utf8EncodeChar).toByteArray.data.toList = _
  rw [List.data_toByteArray]

theorem utf8_eq_flatMap (s : String) : utf8 s = s.toList.flatMap String.utf8EncodeChar := by
  rw [← utf8_ofList, String.ofList_toList]

/-- Bytes of texts in a row are in a row. -/
theorem utf8_append (a b : String) : utf8 (a ++ b) = utf8 a ++ utf8 b := by
  rw [utf8_eq_flatMap, String.toList_append, List.flatMap_append, ← utf8_eq_flatMap,
    ← utf8_eq_flatMap]

/-- Bytes determine the text. -/
theorem utf8_injective : Function.Injective utf8 := by
  intro a b same
  have read := ofUtf8?_utf8 a
  rw [same, ofUtf8?_utf8] at read
  exact (Option.some.inj read).symm

/-- Continuation bytes are those from 128 to 191. -/
theorem isContinuation_ofNat {n : Nat} (small : n < 256) :
    isContinuation (UInt8.ofNat n) = true ↔ 128 ≤ n ∧ n < 192 := by
  have value : (UInt8.ofNat n).toNat = n := by
    rw [UInt8.toNat_ofNat']
    exact Nat.mod_eq_of_lt small
  simp [isContinuation, UInt8.le_iff_toNat_le, UInt8.lt_iff_toNat_lt, value]

/-- A character has a first byte that continues nothing, and then bytes that continue it. -/
theorem utf8EncodeChar_shape (c : Char) :
    ∃ first others, String.utf8EncodeChar c = first :: others ∧ isContinuation first = false ∧
      ∀ b ∈ others, isContinuation b = true := by
  have begins {n : Nat} (small : n < 256) (apart : n < 128 ∨ 192 ≤ n) :
      isContinuation (UInt8.ofNat n) = false := by
    refine Bool.eq_false_iff.mpr fun continues => ?_
    have := (isContinuation_ofNat small).mp continues
    omega
  have continues (n : Nat) : isContinuation (UInt8.ofNat (n % 64 + 128)) = true :=
    (isContinuation_ofNat (by omega)).mpr (by omega)
  unfold String.utf8EncodeChar
  dsimp only
  split
  · exact ⟨_, _, rfl, begins (by omega) (by omega), by simp⟩
  · split
    · refine ⟨_, _, rfl, begins (by omega) (by omega), ?_⟩
      exact List.forall_mem_singleton.mpr (continues _)
    · split
      · refine ⟨_, _, rfl, begins (by omega) (by omega), ?_⟩
        exact List.forall_mem_cons.mpr ⟨continues _, List.forall_mem_singleton.mpr (continues _)⟩
      · refine ⟨_, _, rfl, begins (by omega) (by omega), ?_⟩
        exact List.forall_mem_cons.mpr ⟨continues _, List.forall_mem_cons.mpr
          ⟨continues _, List.forall_mem_singleton.mpr (continues _)⟩⟩

/-- Bytes below 128 are characters of their own. -/
theorem high_of_mem_utf8EncodeChar {c : Char} (wide : 128 ≤ c.toNat) {b : UInt8}
    (mem : b ∈ String.utf8EncodeChar c) : 128 ≤ b.toNat := by
  have value (n : Nat) : (UInt8.ofNat n).toNat = n % 256 := UInt8.toNat_ofNat'
  have bound : c.val.toNat = c.toNat := rfl
  unfold String.utf8EncodeChar at mem
  dsimp only at mem
  split at mem
  · omega
  · split at mem
    · simp only [List.mem_cons, List.not_mem_nil, or_false] at mem
      rcases mem with rfl | rfl <;> rw [value] <;> omega
    · split at mem
      · simp only [List.mem_cons, List.not_mem_nil, or_false] at mem
        rcases mem with rfl | rfl | rfl <;> rw [value] <;> omega
      · simp only [List.mem_cons, List.not_mem_nil, or_false] at mem
        rcases mem with rfl | rfl | rfl | rfl <;> rw [value] <;> omega

/-- The bytes of a letter become those of the small letter, and other bytes stay. -/
theorem map_asciiLower_utf8EncodeChar (c : Char) :
    (String.utf8EncodeChar c).map asciiLower = String.utf8EncodeChar c.toLower := by
  by_cases ascii : c.toNat < 128
  · have all : ∀ n < 128, (String.utf8EncodeChar (Char.ofNat n)).map asciiLower =
        String.utf8EncodeChar (Char.ofNat n).toLower := by decide
    have here := all c.toNat ascii
    rwa [Char.ofNat_toNat] at here
  · have wide : 128 ≤ c.toNat := Nat.le_of_not_lt ascii
    have kept : c.toLower = c := by
      refine dif_neg fun capital => ?_
      have : c.toNat ≤ 90 := UInt32.le_iff_toNat_le.mp capital.2
      omega
    have bytes : (String.utf8EncodeChar c).map asciiLower = (String.utf8EncodeChar c).map id := by
      refine List.map_congr_left fun b mem => if_neg fun capital => ?_
      have high := high_of_mem_utf8EncodeChar wide mem
      have : b.toNat ≤ 90 := UInt8.le_iff_toNat_le.mp capital.2
      omega
    rw [kept, bytes, List.map_id]

/-! ## Offsets -/

/-- Where a text can be taken, the byte behind the offset begins a character. -/
theorem isBoundary_of_drop {s back : String} {offset : Nat} (inside : offset ≤ (utf8 s).length)
    (bytes : (utf8 s).drop offset = utf8 back) : isBoundary s offset = true := by
  unfold isBoundary
  rw [← List.head?_drop, bytes, utf8_eq_flatMap back]
  cases chars : back.toList with
  | nil =>
    rw [utf8_eq_flatMap back, chars] at bytes
    have ended := List.drop_eq_nil_iff.mp bytes
    exact beq_iff_eq.mpr (Nat.le_antisymm inside ended)
  | cons c cs =>
    obtain ⟨first, others, shape, begins, -⟩ := utf8EncodeChar_shape c
    simp [shape, begins]

/-- A byte that continues no character stands at the end of some characters. -/
theorem exists_append_of_boundary {cs : List Char} {offset : Nat}
    (inside : offset ≤ (cs.flatMap String.utf8EncodeChar).length)
    (begins : ∀ b, (cs.flatMap String.utf8EncodeChar)[offset]? = some b →
      isContinuation b = false) :
    ∃ front back, cs = front ++ back ∧ (front.flatMap String.utf8EncodeChar).length = offset := by
  induction cs generalizing offset with
  | nil => exact ⟨[], [], rfl, (Nat.le_zero.mp inside).symm⟩
  | cons c cs ih =>
    obtain ⟨first, others, shape, -, continues⟩ := utf8EncodeChar_shape c
    rw [List.flatMap_cons] at inside begins
    by_cases early : offset < (String.utf8EncodeChar c).length
    · -- Inside the first character only its own start is no continuation.
      refine ⟨[], c :: cs, rfl, ?_⟩
      rw [List.getElem?_append_left early, shape] at begins
      rw [shape] at early
      cases offset with
      | zero => rfl
      | succ offset =>
        have within : offset < others.length := Nat.lt_of_succ_lt_succ early
        have none := begins others[offset] (List.getElem?_eq_getElem within)
        rw [continues _ (List.getElem_mem within)] at none
        cases none
    · have behind : (String.utf8EncodeChar c).length ≤ offset := Nat.le_of_not_lt early
      rw [List.getElem?_append_right behind] at begins
      rw [List.length_append] at inside
      obtain ⟨front, back, rfl, length⟩ := ih (by omega) begins
      refine ⟨c :: front, back, rfl, ?_⟩
      rw [List.flatMap_cons, List.length_append, length]
      omega

/-- The test on the byte behind an offset tells whether it stands between characters. -/
theorem isBoundary_iff {s : String} {offset : Nat} :
    isBoundary s offset = true ↔
      ∃ front back, s = front ++ back ∧ (utf8 front).length = offset := by
  constructor
  · intro boundary
    have found : offset ≤ (utf8 s).length ∧
        ∀ b, (utf8 s)[offset]? = some b → isContinuation b = false := by
      unfold isBoundary at boundary
      cases byte : (utf8 s)[offset]? with
      | none =>
        rw [byte] at boundary
        exact ⟨Nat.le_of_eq (beq_iff_eq.mp boundary), nofun⟩
      | some b =>
        rw [byte] at boundary
        obtain ⟨inside, -⟩ := List.getElem?_eq_some_iff.mp byte
        refine ⟨Nat.le_of_lt inside, fun b' same => ?_⟩
        cases same
        simpa using boundary
    rw [utf8_eq_flatMap] at found
    obtain ⟨front, back, split, length⟩ := exists_append_of_boundary found.1 found.2
    refine ⟨String.ofList front, String.ofList back, ?_, ?_⟩
    · rw [← String.ofList_append, ← split, String.ofList_toList]
    · rw [utf8_ofList, length]
  · rintro ⟨front, back, rfl, rfl⟩
    have bytes : (utf8 (front ++ back)).drop (utf8 front).length = utf8 back := by
      rw [utf8_append, List.drop_left]
    refine isBoundary_of_drop ?_ bytes
    rw [utf8_append, List.length_append]
    exact Nat.le_add_right _ _

/-- The text behind an offset can be taken exactly where the offset stands between characters. -/
theorem fromOffset?_eq_some_iff {s back : String} {offset : Nat} :
    fromOffset? s offset = some back ↔
      ∃ front, s = front ++ back ∧ (utf8 front).length = offset := by
  unfold fromOffset?
  constructor
  · intro taken
    split at taken
    next inside =>
      have bytes := utf8_of_ofUtf8? taken
      have boundary := isBoundary_of_drop inside bytes.symm
      obtain ⟨front, back', rfl, rfl⟩ := isBoundary_iff.mp boundary
      rw [utf8_append, List.drop_left] at bytes
      rw [utf8_injective bytes]
      exact ⟨front, rfl, rfl⟩
    next => cases taken
  · rintro ⟨front, rfl, rfl⟩
    have inside : (utf8 front).length ≤ (utf8 (front ++ back)).length := by
      rw [utf8_append, List.length_append]
      exact Nat.le_add_right _ _
    rw [if_pos inside, utf8_append, List.drop_left, ofUtf8?_utf8]

/-! ## Letters -/

/-- Lowering ASCII letters byte by byte lowers them character by character. -/
theorem map_asciiLower_utf8 (s : String) :
    (utf8 s).map asciiLower = utf8 (String.ofList (s.toList.map Char.toLower)) := by
  rw [utf8_eq_flatMap, utf8_ofList, List.map_flatMap, List.flatMap_map]
  exact List.flatMap_congr fun c _ => map_asciiLower_utf8EncodeChar c

/-- Texts have the same letters when their characters are the same up to ASCII case. -/
theorem sameLetters_iff {a b : String} :
    sameLetters a b = true ↔ a.toList.map Char.toLower = b.toList.map Char.toLower := by
  rw [sameLetters, beq_iff_eq, map_asciiLower_utf8, map_asciiLower_utf8, utf8_injective.eq_iff,
    String.ofList_inj]

/-- Texts of the same letters have equally many bytes. -/
theorem length_utf8_of_sameLetters {a b : String} (same : sameLetters a b = true) :
    (utf8 a).length = (utf8 b).length := by
  have lengths := congrArg List.length (beq_iff_eq.mp same)
  rwa [List.length_map, List.length_map] at lengths

/-- The last characters of the name are those of the suffix, up to the case of ASCII letters. -/
def EndsInLetters (name suffix : String) : Prop :=
  (name.toList.rtake suffix.length).map Char.toLower = suffix.toList.map Char.toLower

instance (name suffix : String) : Decidable (EndsInLetters name suffix) :=
  inferInstanceAs (Decidable (_ = _))

/-- A name ends in the letters of a suffix when its last characters are the suffix up to case. -/
theorem endsInLetters_iff {name suffix : String} :
    EndsInLetters name suffix ↔
      ∃ front back, name = front ++ back ∧ sameLetters back suffix = true := by
  constructor
  · intro ends
    let kept := name.toList.length - suffix.length
    refine ⟨String.ofList (name.toList.take kept), String.ofList (name.toList.drop kept), ?_, ?_⟩
    · rw [← String.ofList_append, List.take_append_drop, String.ofList_toList]
    · rw [sameLetters_iff, String.toList_ofList]
      exact ends
  · rintro ⟨front, back, rfl, same⟩
    have letters := sameLetters_iff.mp same
    have lengths := congrArg List.length letters
    rw [List.length_map, List.length_map] at lengths
    have last : (front ++ back).toList.rtake suffix.length = back.toList := by
      rw [List.rtake, String.toList_append, List.length_append, ← String.length_toList, lengths,
        Nat.add_sub_cancel, List.drop_left]
    rw [EndsInLetters, last, letters]

/-- The test on bytes has an answer for every name, and it is that for the last characters. -/
theorem endsIn?_eq (name suffix : String) :
    endsIn? name suffix = some (decide (EndsInLetters name suffix)) := by
  -- A name that ends in the letters ends there at the offset that is counted in bytes.
  have counted {front back : String} (whole : name = front ++ back)
      (same : sameLetters back suffix = true) :
      (utf8 suffix).length ≤ (utf8 name).length ∧
        (utf8 front).length = (utf8 name).length - (utf8 suffix).length := by
    have lengths := length_utf8_of_sameLetters same
    rw [whole, utf8_append, List.length_append]
    omega
  unfold endsIn?
  dsimp only
  split
  next tested =>
    obtain ⟨-, boundary⟩ := Bool.and_eq_true_iff.mp tested
    obtain ⟨front, back, whole, offset⟩ := isBoundary_iff.mp boundary
    rw [fromOffset?_eq_some_iff.mpr ⟨front, whole, offset⟩, Option.map_some, Option.some_inj,
      Bool.eq_iff_iff, decide_eq_true_iff, endsInLetters_iff]
    refine ⟨fun same => ⟨front, back, whole, same⟩, ?_⟩
    rintro ⟨front', back', whole', same⟩
    have parts : utf8 front ++ utf8 back = utf8 front' ++ utf8 back' := by
      rw [← utf8_append, ← utf8_append, ← whole, ← whole']
    have ends := (List.append_inj parts (offset.trans (counted whole' same).2.symm)).2
    rwa [utf8_injective ends]
  next refused =>
    refine congrArg some (decide_eq_false fun ends => refused ?_).symm
    obtain ⟨front, back, whole, same⟩ := endsInLetters_iff.mp ends
    obtain ⟨fits, offset⟩ := counted whole same
    exact Bool.and_eq_true_iff.mpr
      ⟨decide_eq_true fits, isBoundary_iff.mpr ⟨front, back, whole, offset⟩⟩

/-- A suffix is added to names that do not end in its letters. -/
theorem withSuffix_eq (name suffix : String) :
    withSuffix name suffix = if EndsInLetters name suffix then name else name ++ suffix := by
  simp only [withSuffix, endsIn?_eq, Option.some_inj, decide_eq_true_iff]

/-- A suffix is added once. -/
theorem withSuffix_withSuffix (name suffix : String) :
    withSuffix (withSuffix name suffix) suffix = withSuffix name suffix := by
  have ends : EndsInLetters (withSuffix name suffix) suffix := by
    rw [withSuffix_eq name]
    split
    next ends => exact ends
    next => exact endsInLetters_iff.mpr ⟨name, suffix, rfl, beq_self_eq_true _⟩
  rw [withSuffix_eq (withSuffix name suffix), if_pos ends]

end Text

open Text

namespace File

/-- The name of a module is the name it is given when this ends in the suffix of its kind, in
letters of any case, and has the suffix added otherwise; naming a module by the name of a module
changes nothing. The end of the name is taken at an offset in bytes. Taking a text fails exactly
inside a character and behind the end, and that never happens there: the test has an answer for
every name, and it is the one for the characters. -/
theorem module_names (name : String) (statements : List Statement) :
    ((bzl name statements).name =
          (if (name.toList.rtake 4).map Char.toLower = ['.', 'b', 'z', 'l'] then name
            else name ++ ".bzl") ∧
        (star name statements).name =
          (if (name.toList.rtake 5).map Char.toLower = ['.', 's', 't', 'a', 'r'] then name
            else name ++ ".star")) ∧
      (∀ suffix, endsIn? name suffix = some (decide (EndsInLetters name suffix))) ∧
      (∀ offset back, fromOffset? name offset = some back ↔
        ∃ front, name = front ++ back ∧ (utf8 front).length = offset) ∧
      (bzl (bzl name statements).name statements).name = (bzl name statements).name ∧
      (star (star name statements).name statements).name = (star name statements).name := by
  refine ⟨⟨?_, ?_⟩, endsIn?_eq name, fun _ _ => fromOffset?_eq_some_iff, ?_, ?_⟩
  · exact withSuffix_eq name ".bzl"
  · exact withSuffix_eq name ".star"
  · exact withSuffix_withSuffix name ".bzl"
  · exact withSuffix_withSuffix name ".star"

-- Four bytes from the end of the first name is inside its first character.
example : (bzl "日é" []).name = "日é.bzl" ∧ (bzl "日.bZL" []).name = "日.bZL" := by decide

end File

end StarlarkCode
