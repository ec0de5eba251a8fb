import StarlarkCode.Text.Utf8

/-!
# The wire format: primitives

Trees are stored in the format bincode, version 1, with its default options. Here is how numbers,
texts, options and sequences are written as bytes in it, with the decoders that read them. Numbers
are little-endian and of fixed width. A text is preceded by its number of bytes, a sequence by its
number of items; an option starts with a byte that tells whether a value follows; what is a choice
between variants starts with the index of the variant, in four bytes.

A decoder reads from the left and leaves the bytes after what it has read. Every encoding has one
spelling, and the decoders refuse any other.
-/

namespace StarlarkCode.Wire

/-- Why bytes are no encoding: the first problem from the left. -/
inductive WireError where
  /-- The bytes end inside a value. -/
  | endOfInput
  /-- A text is not well-formed UTF-8. -/
  | invalidUtf8
  /-- The byte of a boolean is neither 0 nor 1. -/
  | invalidBool
  /-- The first byte of an option is neither 0 nor 1. -/
  | invalidOption
  /-- There is no variant with this index. -/
  | unknownVariant
deriving DecidableEq, Repr

/-- A reader of values from the front of some bytes. -/
abbrev Decoder := StateT (List UInt8) (Except WireError)

/-- The value at the front of some bytes; what comes after it is ignored. -/
def decode {α : Type} (decoder : Decoder α) (bytes : List UInt8) : Except WireError α :=
  (decoder.run bytes).map Prod.fst

/-! ## Numbers -/

/-- A number in the given number of bytes, the least significant first. -/
def littleEndian : Nat → Nat → List UInt8
  | 0, _ => []
  | width + 1, n => UInt8.ofNat n :: littleEndian width (n / 256)

/-- The number with these bytes, the least significant first. -/
def ofLittleEndian : List UInt8 → Nat
  | [] => 0
  | b :: bs => b.toNat + 256 * ofLittleEndian bs

/-- The first bytes and the bytes after them, if there are that many. -/
def splitExact : Nat → List UInt8 → Option (List UInt8 × List UInt8)
  | 0, bytes => some ([], bytes)
  | _ + 1, [] => none
  | n + 1, b :: bytes => (splitExact n bytes).map fun (first, rest) => (b :: first, rest)

/-- Reads that many bytes. -/
def readBytes (n : Nat) : Decoder (List UInt8) := fun bytes =>
  match splitExact n bytes with
  | some read => .ok read
  | none => .error .endOfInput

/-- Reads a number of the given width. -/
def readNumber (width : Nat) : Decoder Nat := do
  return ofLittleEndian (← readBytes width)

/-- A 64-bit word. -/
def encodeWord (w : UInt64) : List UInt8 :=
  littleEndian 8 w.toNat

/-- Reads a 64-bit word. -/
def readWord : Decoder UInt64 := do
  return UInt64.ofNat (← readNumber 8)

/-- A signed integer by its two's complement. -/
def encodeInt (i : Int64) : List UInt8 :=
  encodeWord i.toUInt64

/-- Reads a signed integer. -/
def readInt : Decoder Int64 := do
  return (← readWord).toInt64

/-! ## Choices -/

/-- The width of the index of a variant. -/
def variantWidth : Nat := 4

/-- The index of a variant. -/
def variant (index : Nat) : List UInt8 :=
  littleEndian variantWidth index

/-- Reads the index of a variant. -/
def readVariant : Decoder Nat :=
  readNumber variantWidth

/-- A variant without fields, from its index. -/
def readEnumerated {α : Type} (ofIndex? : Nat → Option α) : Decoder α := do
  match ofIndex? (← readVariant) with
  | some a => return a
  | none => throw .unknownVariant

/-- A boolean as one byte. -/
def encodeBool (b : Bool) : List UInt8 :=
  [if b then 1 else 0]

/-- Reads a byte that is 0 or 1. -/
def readFlag (refusal : WireError) : Decoder Bool := do
  match ← readNumber 1 with
  | 0 => return false
  | 1 => return true
  | _ => throw refusal

/-- Reads a boolean. -/
def readBool : Decoder Bool :=
  readFlag .invalidBool

/-- An option: a byte 0, or a byte 1 and the value. -/
def encodeOption {α : Type} (encode : α → List UInt8) : Option α → List UInt8
  | none => [0]
  | some a => 1 :: encode a

/-- Reads an option. -/
def readOption {α : Type} (item : Decoder α) : Decoder (Option α) := do
  if ← readFlag .invalidOption then return some (← item) else return none

/-! ## Sequences -/

/-- The number of items of a sequence, or of bytes of a text. -/
def encodeCount (n : Nat) : List UInt8 :=
  littleEndian 8 n

/-- Reads a count. -/
def readCount : Decoder Nat :=
  readNumber 8

/-- A text: the number of its bytes and the bytes. -/
def encodeString (s : String) : List UInt8 :=
  encodeCount (Text.utf8 s).length ++ Text.utf8 s

/-- Reads a text. -/
def readString : Decoder String := do
  match Text.ofUtf8? (← readBytes (← readCount)) with
  | some s => return s
  | none => throw .invalidUtf8

/-- A sequence: the number of items and the items. -/
def encodeList {α : Type} (encode : α → List UInt8) (items : List α) : List UInt8 :=
  encodeCount items.length ++ items.flatMap encode

/-- Reads that many items. -/
def readItems {α : Type} (item : Decoder α) : Nat → Decoder (List α)
  | 0 => return []
  | n + 1 => do
    let first ← item
    return first :: (← readItems item n)

/-- Reads a sequence. -/
def readList {α : Type} (item : Decoder α) : Decoder (List α) := do
  readItems item (← readCount)

end StarlarkCode.Wire
