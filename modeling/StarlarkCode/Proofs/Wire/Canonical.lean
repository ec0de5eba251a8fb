import StarlarkCode.Proofs.Wire.RoundTrip

/-!
# Every accepted input is an encoding

Bytes that decode to a tree are the encoding of that tree and what is left unread, for any bytes at
all, and the tree is within the limits of the format. So decoding accepts exactly the encodings of
such trees, and a tree has one spelling: two inputs that decode to it differ only after what was
read.

`Spells reader encode limits` says this of a reader. It is shown for the primitives, where each
reader has to refuse every other spelling, and then for each reader that is put together from them.
The reader of expressions goes layer by layer: if the inner reader accepts only encodings, so does a
layer over it.
-/

namespace StarlarkCode

namespace Wire

variable {α : Type}

/-- What the reader takes from the front of some bytes is the encoding of the value it gives, and
that value is within the limits. -/
def Spells (reader : Decoder α) (encode : α → List UInt8) (limits : α → Prop) : Prop :=
  ∀ bytes a rest, reader.run bytes = .ok (a, rest) → limits a ∧ bytes = encode a ++ rest

/-- The reader accepts one spelling of each value within the limits, and nothing else. -/
structure Canonical (reader : Decoder α) (encode : α → List UInt8) (limits : α → Prop) :
    Prop where
  /-- What is read is the encoding of the value, and every encoding is read. -/
  accepts_iff : ∀ bytes a rest,
    reader.run bytes = .ok (a, rest) ↔ limits a ∧ bytes = encode a ++ rest
  /-- Inputs that give the same value differ only in what is left unread. -/
  unique : ∀ bytes bytes' a rest rest', reader.run bytes = .ok (a, rest) →
    reader.run bytes' = .ok (a, rest') → ∃ used, bytes = used ++ rest ∧ bytes' = used ++ rest'

/-- A reader that spells what it gives, and reads back all encodings, accepts one spelling of each
value. -/
theorem Spells.canonical {reader : Decoder α} {encode : α → List UInt8} {limits : α → Prop}
    (spells : Spells reader encode limits) (reads : ∀ a, limits a → Reads reader (encode a) a) :
    Canonical reader encode limits := by
  constructor
  · intro bytes a rest
    constructor
    · exact spells bytes a rest
    · rintro ⟨small, rfl⟩
      exact reads a small rest
  · intro bytes bytes' a rest rest' read read'
    exact ⟨encode a, (spells bytes a rest read).2, (spells bytes' a rest' read').2⟩

/-! ## Primitives -/

/-- What is read as some bytes are the bytes at the front. -/
theorem readBytes_spells {n : Nat} {bytes first rest : List UInt8}
    (h : readBytes n bytes = .ok (first, rest)) : first.length = n ∧ bytes = first ++ rest := by
  unfold readBytes at h
  split at h
  · cases h
    exact eq_append_of_splitExact ‹_›
  · cases h

/-- A number that was read fits in the bytes it was read from. -/
theorem readNumber_spells (width : Nat) :
    Spells (readNumber width) (littleEndian width) (· < 256 ^ width) := by
  intro bytes n rest h
  obtain ⟨digits, left, read, h⟩ := bind_eq_ok.mp h
  cases h
  obtain ⟨rfl, rfl⟩ := readBytes_spells read
  rw [littleEndian_ofLittleEndian]
  exact ⟨ofLittleEndian_lt digits, rfl⟩

/-- A word is read from the eight bytes that encode it. -/
theorem readWord_spells : Spells readWord encodeWord fun _ => True := by
  intro bytes w rest h
  obtain ⟨n, left, read, h⟩ := bind_eq_ok.mp h
  cases h
  obtain ⟨small, spelled⟩ := readNumber_spells 8 _ _ _ read
  rw [encodeWord, UInt64.toNat_ofNat_of_lt' small]
  exact ⟨trivial, spelled⟩

/-- An integer is read from the eight bytes that encode it. -/
theorem readInt_spells : Spells readInt encodeInt fun _ => True := by
  intro bytes i rest h
  obtain ⟨w, left, read, h⟩ := bind_eq_ok.mp h
  cases h
  exact readWord_spells _ _ _ read

/-- An index is read from the bytes that encode it, and fits into them. -/
theorem readVariant_spells : Spells readVariant variant (· < 256 ^ variantWidth) :=
  readNumber_spells variantWidth

/-- A variant without fields is read from the bytes of its index, if no two indices stand for it. -/
theorem readEnumerated_spells {ofIndex? : Nat → Option α} {index : α → Nat}
    (inverse : ∀ i a, ofIndex? i = some a → index a = i) :
    Spells (readEnumerated ofIndex?) (fun a => variant (index a)) fun _ => True := by
  intro bytes a rest h
  obtain ⟨i, left, read, h⟩ := bind_eq_ok.mp h
  cases known : ofIndex? i with
  | none =>
    simp only [known] at h
    cases h
  | some a =>
    simp only [known] at h
    cases h
    obtain ⟨-, spelled⟩ := readVariant_spells _ _ _ read
    rw [← inverse i a known] at spelled
    exact ⟨trivial, spelled⟩

/-- A boolean is read from its byte, and no third byte is taken for one. -/
theorem readFlag_spells (refusal : WireError) :
    Spells (readFlag refusal) encodeBool fun _ => True := by
  intro bytes b rest h
  obtain ⟨n, left, read, h⟩ := bind_eq_ok.mp h
  obtain ⟨-, spelled⟩ := readNumber_spells 1 _ _ _ read
  refine ⟨trivial, ?_⟩
  split at h
  · cases h
    exact spelled
  · cases h
    exact spelled
  · cases h

section

variable {item : Decoder α} {encode : α → List UInt8} {limits : α → Prop}

/-- An option is read from its encoding if its value is. -/
theorem readOption_spells (spells : Spells item encode limits) :
    Spells (readOption item) (encodeOption encode) fun o => ∀ a ∈ o.toList, limits a := by
  intro bytes o rest h
  obtain ⟨flag, left, read, h⟩ := bind_eq_ok.mp h
  obtain ⟨-, spelled⟩ := readFlag_spells _ _ _ _ read
  cases flag with
  | false =>
    cases h
    exact ⟨List.forall_mem_nil _, spelled⟩
  | true =>
    obtain ⟨a, left, readItem, h⟩ := bind_eq_ok.mp h
    cases h
    obtain ⟨small, rfl⟩ := spells _ _ _ readItem
    exact ⟨List.forall_mem_singleton.mpr small, spelled⟩

/-- A count is read from its encoding, and is less than 2⁶⁴. -/
theorem readCount_spells : Spells readCount encodeCount (· < 2 ^ 64) :=
  readNumber_spells 8

/-- A text is read from its encoding: no two byte sequences are well-formed UTF-8 of one text. -/
theorem readString_spells :
    Spells readString encodeString fun s => (Text.utf8 s).length < 2 ^ 64 := by
  intro bytes s rest h
  obtain ⟨count, left, readCount, h⟩ := bind_eq_ok.mp h
  obtain ⟨content, left, readContent, h⟩ := bind_eq_ok.mp h
  cases valid : Text.ofUtf8? content with
  | none =>
    simp only [valid] at h
    cases h
  | some s =>
    simp only [valid] at h
    cases h
    obtain rfl := Text.utf8_of_ofUtf8? valid
    obtain ⟨rfl, rfl⟩ := readBytes_spells readContent
    obtain ⟨small, rfl⟩ := readCount_spells _ _ _ readCount
    rw [encodeString, List.append_assoc]
    exact ⟨small, rfl⟩

/-- Items are read from their encodings in a row, as many as were asked for. -/
theorem readItems_spells (spells : Spells item encode limits) {n : Nat} {bytes rest : List UInt8}
    {items : List α} (h : readItems item n bytes = .ok (items, rest)) :
    items.length = n ∧ (∀ a ∈ items, limits a) ∧ bytes = items.flatMap encode ++ rest := by
  induction n generalizing bytes items with
  | zero =>
    cases h
    exact ⟨rfl, List.forall_mem_nil _, rfl⟩
  | succ n ih =>
    obtain ⟨first, left, readFirst, h⟩ := bind_eq_ok.mp h
    obtain ⟨others, left, readOthers, h⟩ := bind_eq_ok.mp h
    cases h
    obtain ⟨length, small, rfl⟩ := ih readOthers
    obtain ⟨smallFirst, rfl⟩ := spells _ _ _ readFirst
    refine ⟨by rw [List.length_cons, length], List.forall_mem_cons.mpr ⟨smallFirst, small⟩, ?_⟩
    rw [List.flatMap_cons, List.append_assoc]

/-- A sequence is read from its count and its items. -/
theorem readList_spells (spells : Spells item encode limits) :
    Spells (readList item) (encodeList encode)
      fun items => items.length < 2 ^ 64 ∧ ∀ a ∈ items, limits a := by
  intro bytes items rest h
  obtain ⟨count, left, read, h⟩ := bind_eq_ok.mp h
  obtain ⟨rfl, small, rfl⟩ := readItems_spells spells h
  obtain ⟨smallCount, rfl⟩ := readCount_spells _ _ _ read
  rw [encodeList, List.append_assoc]
  exact ⟨⟨smallCount, small⟩, rfl⟩

end

end Wire

open Wire

/-! ## Expressions -/

theorem ValueKind.spells :
    Spells (readEnumerated ValueKind.ofIndex?) (fun k => variant k.index) fun _ => True := by
  refine readEnumerated_spells fun i k h => ?_
  unfold ValueKind.ofIndex? at h
  split at h <;> cases h <;> rfl

theorem BinaryOp.spells :
    Spells (readEnumerated BinaryOp.ofIndex?) (fun op => variant op.index) fun _ => True := by
  refine readEnumerated_spells fun i op h => ?_
  unfold BinaryOp.ofIndex? at h
  split at h <;> cases h <;> rfl

theorem FileKind.spells :
    Spells (readEnumerated FileKind.ofIndex?) (fun k => variant k.index) fun _ => True := by
  refine readEnumerated_spells fun i k h => ?_
  unfold FileKind.ofIndex? at h
  split at h <;> cases h <;> rfl

/-- A reference is read from its encoding. -/
theorem Reference.spells :
    Spells Reference.decoder Reference.encode fun r => (Text.utf8 r.name).length < 2 ^ 64 := by
  intro bytes r rest h
  obtain ⟨name, left, readName, h⟩ := bind_eq_ok.mp h
  obtain ⟨kind, left, readKind, h⟩ := bind_eq_ok.mp h
  cases h
  obtain ⟨-, rfl⟩ := ValueKind.spells _ _ _ readKind
  obtain ⟨small, rfl⟩ := readString_spells _ _ _ readName
  rw [Reference.encode, List.append_assoc]
  exact ⟨small, rfl⟩

/-- The bounds of a slice are read from their encoding. -/
theorem Bounds.spells : Spells Bounds.decoder Bounds.encode fun _ => True := by
  intro bytes b rest h
  obtain ⟨start, left, readStart, h⟩ := bind_eq_ok.mp h
  obtain ⟨stop, left, readStop, h⟩ := bind_eq_ok.mp h
  obtain ⟨step, left, readStep, h⟩ := bind_eq_ok.mp h
  cases h
  have bound := readOption_spells readInt_spells
  obtain ⟨-, rfl⟩ := bound _ _ _ readStep
  obtain ⟨-, rfl⟩ := bound _ _ _ readStop
  obtain ⟨-, rfl⟩ := bound _ _ _ readStart
  rw [Bounds.encode, List.append_assoc, List.append_assoc]
  exact ⟨trivial, rfl⟩

/-- A tree is within the limits when the texts and lists of its root are, and its parts are. -/
theorem Node.WithinLimits.intro {n : Node}
    (texts : ∀ s ∈ n.texts, (Text.utf8 s).length < 2 ^ 64) (counts : ∀ c ∈ n.counts, c < 2 ^ 64)
    (parts : ∀ part ∈ n.parts, part.node.WithinLimits) : n.WithinLimits :=
  (Node.withinLimits_iff n).mpr ⟨⟨texts, counts⟩, parts⟩

section

variable {expr : Decoder Expr}
  (spells : Spells expr Expr.encode fun e => (Node.expression e).WithinLimits)
include spells

/-- An argument is read from its encoding, if the reader of expressions spells. -/
theorem Arg.decoderOver_spells :
    Spells (Arg.decoderOver expr) Arg.encode fun a => (Node.argument a).WithinLimits := by
  intro bytes a rest h
  obtain ⟨name, left, readName, h⟩ := bind_eq_ok.mp h
  obtain ⟨value, left, readValue, h⟩ := bind_eq_ok.mp h
  cases h
  obtain ⟨inValue, rfl⟩ := spells _ _ _ readValue
  obtain ⟨inName, rfl⟩ := readOption_spells readString_spells _ _ _ readName
  refine ⟨.intro inName (List.forall_mem_nil _) (List.forall_mem_singleton.mpr inValue), ?_⟩
  rw [Arg.encode, List.append_assoc]

/-- An entry is read from its encoding, if the reader of expressions spells. -/
theorem Entry.decoderOver_spells :
    Spells (Entry.decoderOver expr) Entry.encode
      fun e => ∀ x ∈ e.parts, (Node.expression x).WithinLimits := by
  intro bytes e rest h
  obtain ⟨key, left, readKey, h⟩ := bind_eq_ok.mp h
  obtain ⟨value, left, readValue, h⟩ := bind_eq_ok.mp h
  cases h
  obtain ⟨inValue, rfl⟩ := spells _ _ _ readValue
  obtain ⟨inKey, rfl⟩ := spells _ _ _ readKey
  refine ⟨List.forall_mem_cons.mpr ⟨inKey, List.forall_mem_singleton.mpr inValue⟩, ?_⟩
  rw [Entry.encode, List.append_assoc]

/-- A comprehension's body is read from its encoding, if the reader of expressions spells. -/
theorem Body.decoderOver_spells :
    Spells (Body.decoderOver expr) Body.encode
      fun b => ∀ x ∈ b.parts, (Node.expression x).WithinLimits := by
  intro bytes b rest h
  obtain ⟨index, left, readIndex, h⟩ := bind_eq_ok.mp h
  rw [(readVariant_spells _ _ _ readIndex).2]
  match index, h with
  | 0, h =>
    obtain ⟨value, left, readValue, h⟩ := bind_eq_ok.mp h
    cases h
    obtain ⟨inValue, rfl⟩ := spells _ _ _ readValue
    rw [Body.encode, List.append_assoc]
    exact ⟨List.forall_mem_singleton.mpr inValue, rfl⟩
  | 1, h =>
    obtain ⟨e, left, readEntry, h⟩ := bind_eq_ok.mp h
    cases h
    obtain ⟨inEntry, rfl⟩ := Entry.decoderOver_spells spells _ _ _ readEntry
    rw [Body.encode, List.append_assoc]
    exact ⟨inEntry, rfl⟩
  | _ + 2, h => cases h

/-- A clause is read from its encoding, if the reader of expressions spells. -/
theorem Clause.decoderOver_spells :
    Spells (Clause.decoderOver expr) Clause.encode fun c => (Node.clause c).WithinLimits := by
  intro bytes c rest h
  obtain ⟨index, left, readIndex, h⟩ := bind_eq_ok.mp h
  rw [(readVariant_spells _ _ _ readIndex).2]
  match index, h with
  | 0, h =>
    obtain ⟨targets, left, readTargets, h⟩ := bind_eq_ok.mp h
    obtain ⟨iterable, left, readIterable, h⟩ := bind_eq_ok.mp h
    cases h
    obtain ⟨inIterable, rfl⟩ := spells _ _ _ readIterable
    obtain ⟨⟨count, inTargets⟩, rfl⟩ := readList_spells spells _ _ _ readTargets
    refine ⟨.intro (List.forall_mem_nil _) (List.forall_mem_singleton.mpr count) ?_, ?_⟩
    · exact List.forall_mem_append.mpr
        ⟨List.forall_mem_map.mpr inTargets, List.forall_mem_singleton.mpr inIterable⟩
    · simp only [Clause.encode, Expr.encodeAll_eq_flatMap, encodeList, List.append_assoc]
  | 1, h =>
    obtain ⟨condition, left, readCondition, h⟩ := bind_eq_ok.mp h
    cases h
    obtain ⟨inCondition, rfl⟩ := spells _ _ _ readCondition
    refine ⟨.intro (List.forall_mem_nil _) (List.forall_mem_nil _)
      (List.forall_mem_singleton.mpr inCondition), ?_⟩
    rw [Clause.encode, List.append_assoc]
  | _ + 2, h => cases h

/-- A layer over a reader that accepts only encodings accepts only encodings. -/
theorem Expr.decoderOver_spells :
    Spells (Expr.decoderOver expr) Expr.encode fun e => (Node.expression e).WithinLimits := by
  have noTexts := List.forall_mem_nil fun s => (Text.utf8 s).length < 2 ^ 64
  have noCounts := List.forall_mem_nil fun c => c < 2 ^ 64
  have noParts := List.forall_mem_nil fun part : Placed => part.node.WithinLimits
  -- In each case the fields are taken from the last to the first: what a field leaves unread is
  -- the spelling of the fields after it.
  intro bytes e rest h
  obtain ⟨index, left, readIndex, h⟩ := bind_eq_ok.mp h
  rw [(readVariant_spells _ _ _ readIndex).2]
  match index, h with
  | 0, h =>
    obtain ⟨value, left, readValue, h⟩ := bind_eq_ok.mp h
    cases h
    obtain ⟨inValue, rfl⟩ := readString_spells _ _ _ readValue
    rw [Expr.encode, List.append_assoc]
    exact ⟨.intro (List.forall_mem_singleton.mpr inValue) noCounts noParts, rfl⟩
  | 1, h =>
    obtain ⟨value, left, readValue, h⟩ := bind_eq_ok.mp h
    cases h
    obtain ⟨-, rfl⟩ := readInt_spells _ _ _ readValue
    rw [Expr.encode, List.append_assoc]
    exact ⟨.intro noTexts noCounts noParts, rfl⟩
  | 2, h =>
    obtain ⟨bits, left, readBits, h⟩ := bind_eq_ok.mp h
    cases h
    obtain ⟨-, rfl⟩ := readWord_spells _ _ _ readBits
    rw [Expr.encode, List.append_assoc]
    exact ⟨.intro noTexts noCounts noParts, rfl⟩
  | 3, h =>
    obtain ⟨value, left, readValue, h⟩ := bind_eq_ok.mp h
    cases h
    obtain ⟨-, rfl⟩ := readFlag_spells _ _ _ _ readValue
    rw [Expr.encode, List.append_assoc]
    exact ⟨.intro noTexts noCounts noParts, rfl⟩
  | 4, h =>
    cases h
    rw [Expr.encode]
    exact ⟨.intro noTexts noCounts noParts, rfl⟩
  | 5, h =>
    obtain ⟨target, left, readTarget, h⟩ := bind_eq_ok.mp h
    cases h
    obtain ⟨inTarget, rfl⟩ := Reference.spells _ _ _ readTarget
    rw [Expr.encode, List.append_assoc]
    exact ⟨.intro (List.forall_mem_singleton.mpr inTarget) noCounts noParts, rfl⟩
  | 6, h =>
    obtain ⟨name, left, readName, h⟩ := bind_eq_ok.mp h
    obtain ⟨receiver, left, readReceiver, h⟩ := bind_eq_ok.mp h
    obtain ⟨args, left, readArgs, h⟩ := bind_eq_ok.mp h
    cases h
    obtain ⟨⟨count, inArgs⟩, rfl⟩ :=
      readList_spells (Arg.decoderOver_spells spells) _ _ _ readArgs
    obtain ⟨inReceiver, rfl⟩ := readOption_spells spells _ _ _ readReceiver
    obtain ⟨inName, rfl⟩ := readString_spells _ _ _ readName
    refine ⟨.intro (List.forall_mem_singleton.mpr inName)
      (List.forall_mem_singleton.mpr count) ?_, ?_⟩
    · exact List.forall_mem_append.mpr
        ⟨List.forall_mem_map.mpr inReceiver, List.forall_mem_map.mpr inArgs⟩
    · simp only [Expr.encode, Expr.encodeReceiver_eq, Arg.encodeAll_eq_flatMap, encodeList,
        List.append_assoc]
  | 7, h =>
    obtain ⟨kind, left, readKind, h⟩ := bind_eq_ok.mp h
    obtain ⟨l, left, readLeft, h⟩ := bind_eq_ok.mp h
    obtain ⟨op, left, readOp, h⟩ := bind_eq_ok.mp h
    obtain ⟨r, left, readRight, h⟩ := bind_eq_ok.mp h
    cases h
    obtain ⟨inRight, rfl⟩ := spells _ _ _ readRight
    obtain ⟨-, rfl⟩ := BinaryOp.spells _ _ _ readOp
    obtain ⟨inLeft, rfl⟩ := spells _ _ _ readLeft
    obtain ⟨-, rfl⟩ := ValueKind.spells _ _ _ readKind
    refine ⟨.intro noTexts noCounts (List.forall_mem_cons.mpr
      ⟨inLeft, List.forall_mem_singleton.mpr inRight⟩), ?_⟩
    simp only [Expr.encode, List.append_assoc]
  | 8, h =>
    obtain ⟨body, left, readBody, h⟩ := bind_eq_ok.mp h
    obtain ⟨clauses, left, readClauses, h⟩ := bind_eq_ok.mp h
    cases h
    obtain ⟨⟨count, inClauses⟩, rfl⟩ :=
      readList_spells (Clause.decoderOver_spells spells) _ _ _ readClauses
    obtain ⟨inBody, rfl⟩ := Body.decoderOver_spells spells _ _ _ readBody
    refine ⟨.intro noTexts (List.forall_mem_singleton.mpr count) ?_, ?_⟩
    · exact List.forall_mem_append.mpr
        ⟨List.forall_mem_map.mpr inBody, List.forall_mem_map.mpr inClauses⟩
    · simp only [Expr.encode, Clause.encodeAll_eq_flatMap, encodeList, List.append_assoc]
  | 9, h =>
    obtain ⟨receiver, left, readReceiver, h⟩ := bind_eq_ok.mp h
    obtain ⟨bounds, left, readBounds, h⟩ := bind_eq_ok.mp h
    cases h
    obtain ⟨-, rfl⟩ := Bounds.spells _ _ _ readBounds
    obtain ⟨inReceiver, rfl⟩ := spells _ _ _ readReceiver
    refine ⟨.intro noTexts noCounts (List.forall_mem_singleton.mpr inReceiver), ?_⟩
    simp only [Expr.encode, List.append_assoc]
  | 10, h =>
    obtain ⟨items, left, readItems, h⟩ := bind_eq_ok.mp h
    cases h
    obtain ⟨⟨count, inItems⟩, rfl⟩ := readList_spells spells _ _ _ readItems
    refine ⟨.intro noTexts (List.forall_mem_singleton.mpr count)
      (List.forall_mem_map.mpr inItems), ?_⟩
    simp only [Expr.encode, Expr.encodeAll_eq_flatMap, encodeList, List.append_assoc]
  | 11, h =>
    obtain ⟨items, left, readItems, h⟩ := bind_eq_ok.mp h
    cases h
    obtain ⟨⟨count, inItems⟩, rfl⟩ := readList_spells spells _ _ _ readItems
    refine ⟨.intro noTexts (List.forall_mem_singleton.mpr count)
      (List.forall_mem_map.mpr inItems), ?_⟩
    simp only [Expr.encode, Expr.encodeAll_eq_flatMap, encodeList, List.append_assoc]
  | 12, h =>
    obtain ⟨entries, left, readEntries, h⟩ := bind_eq_ok.mp h
    cases h
    obtain ⟨⟨count, inEntries⟩, rfl⟩ :=
      readList_spells (Entry.decoderOver_spells spells) _ _ _ readEntries
    refine ⟨.intro noTexts (List.forall_mem_singleton.mpr count) (List.forall_mem_map.mpr ?_), ?_⟩
    · intro x mem
      obtain ⟨e, memEntries, mem⟩ := List.mem_flatMap.mp mem
      exact inEntries e memEntries x mem
    · simp only [Expr.encode, Entry.encodeAll_eq_flatMap, encodeList, List.append_assoc]
  | 13, h =>
    obtain ⟨s, left, readText, h⟩ := bind_eq_ok.mp h
    cases h
    obtain ⟨inText, rfl⟩ := readString_spells _ _ _ readText
    rw [Expr.encode, List.append_assoc]
    exact ⟨.intro (List.forall_mem_singleton.mpr inText) noCounts noParts, rfl⟩
  | _ + 14, h => cases h

end

/-- With any number of layers, an expression is read from its encoding. -/
theorem Expr.decoderWithin_spells (layers : Nat) :
    Spells (Expr.decoderWithin layers) Expr.encode
      fun e => (Node.expression e).WithinLimits := by
  induction layers with
  | zero =>
    intro bytes e rest h
    cases h
  | succ layers ih => exact Expr.decoderOver_spells ih

/-- An expression is read from its encoding. -/
theorem Expr.decoder_spells :
    Spells Expr.decoder Expr.encode fun e => (Node.expression e).WithinLimits :=
  fun bytes => Expr.decoderWithin_spells bytes.length bytes

/-! ## Statements and files -/

/-- A symbol is read from its encoding. -/
theorem Symbol.decoder_spells :
    Spells Symbol.decoder Symbol.encode fun s => (Node.symbol s).WithinLimits := by
  intro bytes s rest h
  obtain ⟨name, left, readName, h⟩ := bind_eq_ok.mp h
  obtain ⟨localName, left, readLocal, h⟩ := bind_eq_ok.mp h
  cases h
  obtain ⟨inLocal, rfl⟩ := readOption_spells readString_spells _ _ _ readLocal
  obtain ⟨inName, rfl⟩ := readString_spells _ _ _ readName
  refine ⟨.intro (List.forall_mem_cons.mpr ⟨inName, inLocal⟩) (List.forall_mem_nil _)
    (List.forall_mem_nil _), ?_⟩
  rw [Symbol.encode, List.append_assoc]

/-- A load is read from its encoding. -/
theorem Load.decoder_spells :
    Spells Load.decoder Load.encode fun l => (Node.statement (.load l)).WithinLimits := by
  intro bytes l rest h
  obtain ⟨label, left, readLabel, h⟩ := bind_eq_ok.mp h
  obtain ⟨symbols, left, readSymbols, h⟩ := bind_eq_ok.mp h
  cases h
  obtain ⟨⟨count, inSymbols⟩, rfl⟩ := readList_spells Symbol.decoder_spells _ _ _ readSymbols
  obtain ⟨inLabel, rfl⟩ := readString_spells _ _ _ readLabel
  refine ⟨.intro (List.forall_mem_singleton.mpr inLabel) (List.forall_mem_singleton.mpr count)
    (List.forall_mem_map.mpr inSymbols), ?_⟩
  rw [Load.encode, List.append_assoc]

/-- A statement is read from its encoding. -/
theorem Statement.decoder_spells :
    Spells Statement.decoder Statement.encode fun s => (Node.statement s).WithinLimits := by
  have noTexts := List.forall_mem_nil fun s => (Text.utf8 s).length < 2 ^ 64
  have noCounts := List.forall_mem_nil fun c => c < 2 ^ 64
  have noParts := List.forall_mem_nil fun part : Placed => part.node.WithinLimits
  intro bytes s rest h
  obtain ⟨index, left, readIndex, h⟩ := bind_eq_ok.mp h
  rw [(readVariant_spells _ _ _ readIndex).2]
  match index, h with
  | 0, h =>
    obtain ⟨value, left, readValue, h⟩ := bind_eq_ok.mp h
    cases h
    obtain ⟨inValue, rfl⟩ := Expr.decoder_spells _ _ _ readValue
    rw [Statement.encode, List.append_assoc]
    exact ⟨.intro noTexts noCounts (List.forall_mem_singleton.mpr inValue), rfl⟩
  | 1, h =>
    obtain ⟨name, left, readName, h⟩ := bind_eq_ok.mp h
    obtain ⟨value, left, readValue, h⟩ := bind_eq_ok.mp h
    cases h
    obtain ⟨inValue, rfl⟩ := Expr.decoder_spells _ _ _ readValue
    obtain ⟨inName, rfl⟩ := readString_spells _ _ _ readName
    refine ⟨.intro (List.forall_mem_singleton.mpr inName) noCounts
      (List.forall_mem_singleton.mpr inValue), ?_⟩
    simp only [Statement.encode, List.append_assoc]
  | 2, h =>
    obtain ⟨imported, left, readLoad, h⟩ := bind_eq_ok.mp h
    cases h
    obtain ⟨inLoad, rfl⟩ := Load.decoder_spells _ _ _ readLoad
    rw [Statement.encode, List.append_assoc]
    exact ⟨inLoad, rfl⟩
  | 3, h =>
    obtain ⟨s, left, readText, h⟩ := bind_eq_ok.mp h
    cases h
    obtain ⟨inText, rfl⟩ := readString_spells _ _ _ readText
    rw [Statement.encode, List.append_assoc]
    exact ⟨.intro (List.forall_mem_singleton.mpr inText) noCounts noParts, rfl⟩
  | 4, h =>
    cases h
    rw [Statement.encode]
    exact ⟨.intro noTexts noCounts noParts, rfl⟩
  | 5, h =>
    obtain ⟨s, left, readText, h⟩ := bind_eq_ok.mp h
    cases h
    obtain ⟨inText, rfl⟩ := readString_spells _ _ _ readText
    rw [Statement.encode, List.append_assoc]
    exact ⟨.intro (List.forall_mem_singleton.mpr inText) noCounts noParts, rfl⟩
  | _ + 6, h => cases h

/-- A file is read from its encoding. -/
theorem File.decoder_spells :
    Spells File.decoder File.encode fun f => (Node.file f).WithinLimits := by
  intro bytes f rest h
  obtain ⟨kind, left, readKind, h⟩ := bind_eq_ok.mp h
  obtain ⟨name, left, readName, h⟩ := bind_eq_ok.mp h
  obtain ⟨statements, left, readStatements, h⟩ := bind_eq_ok.mp h
  cases h
  obtain ⟨⟨count, inStatements⟩, rfl⟩ :=
    readList_spells Statement.decoder_spells _ _ _ readStatements
  obtain ⟨inName, rfl⟩ := readString_spells _ _ _ readName
  obtain ⟨-, rfl⟩ := FileKind.spells _ _ _ readKind
  refine ⟨.intro (List.forall_mem_singleton.mpr inName) (List.forall_mem_singleton.mpr count)
    (List.forall_mem_map.mpr inStatements), ?_⟩
  simp only [File.encode, List.append_assoc]

/-- Decoding gives a file, statement, expression, clause or argument exactly when it is within the
limits of the format and the bytes are its encoding and what is left unread. So a tree has no second
spelling. -/
theorem decoders_accept_exactly_encodings :
    Canonical File.decoder File.encode (fun f => (Node.file f).WithinLimits) ∧
      Canonical Statement.decoder Statement.encode (fun s => (Node.statement s).WithinLimits) ∧
      Canonical Expr.decoder Expr.encode (fun e => (Node.expression e).WithinLimits) ∧
      Canonical Clause.decoder Clause.encode (fun c => (Node.clause c).WithinLimits) ∧
      Canonical Arg.decoder Arg.encode (fun a => (Node.argument a).WithinLimits) := by
  refine ⟨?_, ?_, ?_, ?_, ?_⟩
  · exact File.decoder_spells.canonical fun f limits => File.reads limits
  · exact Statement.decoder_spells.canonical fun s limits => Statement.reads limits
  · exact Expr.decoder_spells.canonical fun e limits => Expr.reads limits
  · exact (Clause.decoderOver_spells Expr.decoder_spells).canonical fun c limits =>
      (Node.clause c).readsOver_decoder limits
  · exact (Arg.decoderOver_spells Expr.decoder_spells).canonical fun a limits =>
      (Node.argument a).readsOver_decoder limits

/-- A list of `None` and `True` with a byte after it. -/
theorem decoder_accepts_list_encoding :
    Expr.decoder.run [10, 0, 0, 0, 2, 0, 0, 0, 0, 0, 0, 0, 4, 0, 0, 0, 3, 0, 0, 0, 1, 9] =
        .ok (.list [.none, .boolean true], [9]) ∧
      [10, 0, 0, 0, 2, 0, 0, 0, 0, 0, 0, 0, 4, 0, 0, 0, 3, 0, 0, 0, 1, 9] =
        (Expr.list [.none, .boolean true]).encode ++ [9] :=
  ⟨rfl, ((decoders_accept_exactly_encodings.2.2.1.accepts_iff _ _ _).mp rfl).2⟩

end StarlarkCode
