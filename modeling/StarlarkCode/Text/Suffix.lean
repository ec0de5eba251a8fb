import StarlarkCode.Text.Utf8

/-!
# Suffixes

A name completed by a suffix it lacks. The case of ASCII letters does not count, so a name that ends
in the suffix in other letters is left as it is.

The end of a name is found by counting bytes. An offset that is found so may stand inside a
character, where no text begins, so it is looked at before the text behind it is taken.
-/

namespace StarlarkCode.Text

/-- An ASCII capital letter as the small one; other bytes as they are. -/
def asciiLower (b : UInt8) : UInt8 :=
  if 0x41 ≤ b ∧ b ≤ 0x5a then b + 0x20 else b

/-- The texts are the same when the case of ASCII letters is ignored. -/
def sameLetters (a b : String) : Bool :=
  (utf8 a).map asciiLower == (utf8 b).map asciiLower

/-- A byte that goes on with a character, and does not begin one. -/
def isContinuation (b : UInt8) : Bool :=
  0x80 ≤ b && b < 0xc0

/-- No character is cut at an offset in bytes: there is one that begins there, or the text ends. -/
def isBoundary (s : String) (offset : Nat) : Bool :=
  match (utf8 s)[offset]? with
  | some b => !isContinuation b
  | none => offset == (utf8 s).length

/-- The text from an offset on. There is none when the offset is inside a character or behind the
end. -/
def fromOffset? (s : String) (offset : Nat) : Option String :=
  if offset ≤ (utf8 s).length then ofUtf8? ((utf8 s).drop offset) else none

/-- Whether the name ends in the suffix when the case of ASCII letters is ignored. There is no
answer if the text to compare with cannot be taken from the name. -/
def endsIn? (name suffix : String) : Option Bool :=
  let size := (utf8 suffix).length
  let offset := (utf8 name).length - size
  if size ≤ (utf8 name).length && isBoundary name offset then
    (fromOffset? name offset).map (sameLetters · suffix)
  else some false

/-- The name with the suffix at its end, added where it is missing. -/
def withSuffix (name suffix : String) : String :=
  if endsIn? name suffix = some true then name else name ++ suffix

end StarlarkCode.Text
