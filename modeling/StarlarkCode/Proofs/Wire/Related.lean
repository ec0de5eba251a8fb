import StarlarkCode.Wire.Decode

/-!
# Readers compared

Readers are put together from values, refusals, numbers of bytes and sequencing, and from nothing
else. So a relation of readers that respects these four (`Compositional`) relates any two readers
that are put together alike from related ones. The readers of trees are gone through here once,
field by field; what is to be said of two readers afterwards is said by a relation, and shown of the
four ways alone.
-/

namespace StarlarkCode

namespace Wire

/-- A relation of readers that respects the ways in which they are put together. -/
structure Compositional (related : ∀ α : Type, Decoder α → Decoder α → Prop) : Prop where
  of_pure : ∀ {α : Type} (a : α), related α (pure a) (pure a)
  of_throw : ∀ {α : Type} (e : WireError), related α (throw e) (throw e)
  of_readBytes : ∀ n, related (List UInt8) (readBytes n) (readBytes n)
  of_bind : ∀ {α β : Type} {first first' : Decoder α} {next next' : α → Decoder β},
    related α first first' → (∀ a, related β (next a) (next' a)) →
      related β (first >>= next) (first' >>= next')

namespace Compositional

variable {related : ∀ α : Type, Decoder α → Decoder α → Prop} {α β : Type}

/-- The last field of a value. -/
theorem of_map (comp : Compositional related) {reader reader' : Decoder α}
    (same : related α reader reader') (f : α → β) :
    related β (reader >>= fun a => pure (f a)) (reader' >>= fun a => pure (f a)) :=
  comp.of_bind same fun a => comp.of_pure (f a)

section

variable (comp : Compositional related)
include comp

/-! ## Primitives -/

/-- Numbers of any width. -/
theorem of_readNumber (width : Nat) : related Nat (readNumber width) (readNumber width) :=
  comp.of_map (comp.of_readBytes width) ofLittleEndian

/-- Words. -/
theorem of_readWord : related UInt64 readWord readWord :=
  comp.of_map (comp.of_readNumber 8) UInt64.ofNat

/-- Integers. -/
theorem of_readInt : related Int64 readInt readInt :=
  comp.of_map comp.of_readWord UInt64.toInt64

/-- Variants without fields. -/
theorem of_readEnumerated (ofIndex? : Nat → Option α) :
    related α (readEnumerated ofIndex?) (readEnumerated ofIndex?) := by
  refine comp.of_bind (comp.of_readNumber variantWidth) fun index => ?_
  cases ofIndex? index with
  | none => exact comp.of_throw _
  | some a => exact comp.of_pure a

/-- Booleans. -/
theorem of_readFlag (refusal : WireError) : related Bool (readFlag refusal) (readFlag refusal) := by
  refine comp.of_bind (comp.of_readNumber 1) fun n => ?_
  match n with
  | 0 => exact comp.of_pure false
  | 1 => exact comp.of_pure true
  | _ + 2 => exact comp.of_throw refusal

/-- Texts. -/
theorem of_readString : related String readString readString := by
  refine comp.of_bind (comp.of_readNumber 8) fun count =>
    comp.of_bind (comp.of_readBytes count) fun content => ?_
  cases Text.ofUtf8? content with
  | none => exact comp.of_throw _
  | some s => exact comp.of_pure s

section

variable {item item' : Decoder α} (same : related α item item')
include same

/-- Options over related readers of the value. -/
theorem of_readOption : related (Option α) (readOption item) (readOption item') := by
  refine comp.of_bind (comp.of_readFlag _) fun present => ?_
  cases present with
  | false => exact comp.of_pure none
  | true => exact comp.of_map same some

/-- Items in a row, by induction on their number. -/
theorem of_readItems (n : Nat) : related (List α) (readItems item n) (readItems item' n) := by
  induction n with
  | zero => exact comp.of_pure []
  | succ n ih => exact comp.of_bind same fun first => comp.of_map ih (first :: ·)

/-- Sequences over related readers of the items. -/
theorem of_readList : related (List α) (readList item) (readList item') :=
  comp.of_bind (comp.of_readNumber 8) (comp.of_readItems same)

end

/-! ## Expressions -/

theorem of_reference : related Reference Reference.decoder Reference.decoder :=
  comp.of_bind comp.of_readString fun name =>
    comp.of_map (comp.of_readEnumerated _) (Reference.mk name)

theorem of_bounds : related Bounds Bounds.decoder Bounds.decoder := by
  have bound := comp.of_readOption comp.of_readInt
  exact comp.of_bind bound fun start => comp.of_bind bound fun stop =>
    comp.of_map bound (Bounds.mk start stop)

section

variable {expr expr' : Decoder Expr} (same : related Expr expr expr')
include same

/-- Arguments over related readers of expressions. -/
theorem of_arg : related Arg (Arg.decoderOver expr) (Arg.decoderOver expr') :=
  comp.of_bind (comp.of_readOption comp.of_readString) fun name => comp.of_map same (Arg.mk name)

/-- Entries over related readers of expressions. -/
theorem of_entry : related Entry (Entry.decoderOver expr) (Entry.decoderOver expr') :=
  comp.of_bind same fun key => comp.of_map same (Entry.mk key)

/-- Bodies of comprehensions over related readers of expressions. -/
theorem of_body : related Body (Body.decoderOver expr) (Body.decoderOver expr') := by
  refine comp.of_bind (comp.of_readNumber variantWidth) fun index => ?_
  match index with
  | 0 => exact comp.of_map same Body.element
  | 1 => exact comp.of_map (comp.of_entry same) Body.entry
  | _ + 2 => exact comp.of_throw _

/-- Clauses over related readers of expressions. -/
theorem of_clause : related Clause (Clause.decoderOver expr) (Clause.decoderOver expr') := by
  refine comp.of_bind (comp.of_readNumber variantWidth) fun index => ?_
  match index with
  | 0 =>
    exact comp.of_bind (comp.of_readList same) fun targets =>
      comp.of_map same (Clause.loop targets)
  | 1 => exact comp.of_map same Clause.guard
  | _ + 2 => exact comp.of_throw _

/-- A layer reads the index of a variant first, and then fields whose readers are related. -/
theorem exists_fields : ∃ fields fields' : Nat → Decoder Expr,
    Expr.decoderOver expr = readVariant >>= fields ∧
      Expr.decoderOver expr' = readVariant >>= fields' ∧
      ∀ index, related Expr (fields index) (fields' index) := by
  refine ⟨_, _, rfl, rfl, fun index => ?_⟩
  have items := comp.of_readList same
  match index with
  | 0 => exact comp.of_map comp.of_readString Expr.string
  | 1 => exact comp.of_map comp.of_readInt Expr.integer
  | 2 => exact comp.of_map comp.of_readWord fun bits => Expr.float ⟨bits⟩
  | 3 => exact comp.of_map (comp.of_readFlag _) Expr.boolean
  | 4 => exact comp.of_pure Expr.none
  | 5 => exact comp.of_map comp.of_reference Expr.reference
  | 6 =>
    have args := comp.of_readList (comp.of_arg same)
    exact comp.of_bind comp.of_readString fun name =>
      comp.of_bind (comp.of_readOption same) fun receiver =>
        comp.of_map args (Expr.call receiver name)
  | 7 =>
    exact comp.of_bind (comp.of_readEnumerated _) fun kind => comp.of_bind same fun left =>
      comp.of_bind (comp.of_readEnumerated _) fun op =>
        comp.of_map same (Expr.binary kind left op)
  | 8 =>
    have clauses := comp.of_readList (comp.of_clause same)
    exact comp.of_bind (comp.of_body same) fun body =>
      comp.of_map clauses (Expr.comprehension body)
  | 9 =>
    exact comp.of_bind same fun receiver => comp.of_map comp.of_bounds (Expr.slice receiver)
  | 10 => exact comp.of_map items Expr.list
  | 11 => exact comp.of_map items Expr.tuple
  | 12 => exact comp.of_map (comp.of_readList (comp.of_entry same)) Expr.dictionary
  | 13 => exact comp.of_map comp.of_readString Expr.raw
  | _ + 14 => exact comp.of_throw _

/-- Layers over related readers are related. -/
theorem of_layer : related Expr (Expr.decoderOver expr) (Expr.decoderOver expr') := by
  obtain ⟨fields, fields', layer, layer', related⟩ := comp.exists_fields same
  rw [layer, layer']
  exact comp.of_bind (comp.of_readNumber variantWidth) related

end

/-! ## Statements and files -/

theorem of_symbol : related Symbol Symbol.decoder Symbol.decoder :=
  comp.of_bind comp.of_readString fun name =>
    comp.of_map (comp.of_readOption comp.of_readString) (Symbol.mk name)

theorem of_load : related Load Load.decoder Load.decoder :=
  comp.of_bind comp.of_readString fun label =>
    comp.of_map (comp.of_readList comp.of_symbol) (Load.mk label)

section

variable (same : related Expr Expr.decoder Expr.decoder)
include same

/-- Statements. -/
theorem of_statement : related Statement Statement.decoder Statement.decoder := by
  refine comp.of_bind (comp.of_readNumber variantWidth) fun index => ?_
  match index with
  | 0 => exact comp.of_map same Statement.expression
  | 1 =>
    exact comp.of_bind comp.of_readString fun name =>
      comp.of_map same (Statement.assignment name)
  | 2 => exact comp.of_map comp.of_load Statement.load
  | 3 => exact comp.of_map comp.of_readString Statement.raw
  | 4 => exact comp.of_pure Statement.emptyLine
  | 5 => exact comp.of_map comp.of_readString Statement.comment
  | _ + 6 => exact comp.of_throw _

/-- Files. -/
theorem of_file : related File File.decoder File.decoder :=
  comp.of_bind (comp.of_readEnumerated _) fun kind => comp.of_bind comp.of_readString fun name =>
    comp.of_map (comp.of_readList (comp.of_statement same)) (File.mk kind name)

end

end

end Compositional

end Wire

end StarlarkCode
