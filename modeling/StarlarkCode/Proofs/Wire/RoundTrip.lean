import StarlarkCode.Proofs.Parts
import StarlarkCode.Proofs.Wire.Primitives

/-!
# Decoding what was encoded

Every tree is read back from its bytes exactly, whatever bytes come after them.

`Reads reader bytes a` says that a reader gets `a` from these bytes and leaves what follows. Readers
are put together by binding, and what they read is put together by `++` (`Reads.bind`), so each
reader is compared with its encoding field by field.
-/

namespace StarlarkCode

namespace Wire

variable {α β : Type}

/-- The reader gets the value from the bytes and leaves whatever follows them. -/
def Reads (reader : Decoder α) (bytes : List UInt8) (a : α) : Prop :=
  ∀ rest, reader (bytes ++ rest) = .ok (a, rest)

/-- A decoder that reads nothing takes no bytes. -/
theorem reads_pure (a : α) : Reads (pure a) [] a := fun _ => rfl

/-- Two decoders in a row read two encodings in a row. -/
theorem Reads.bind {first : Decoder α} {next : α → Decoder β} {bytes bytes' : List UInt8} {a : α}
    {b : β} (readsFirst : Reads first bytes a) (readsNext : Reads (next a) bytes' b) :
    Reads (first >>= next) (bytes ++ bytes') b := by
  intro rest
  rw [List.append_assoc, bind_eq_ok]
  exact ⟨a, bytes' ++ rest, readsFirst _, readsNext rest⟩

/-- The last field of a value. -/
theorem Reads.map {reader : Decoder α} {bytes : List UInt8} {a : α} (reads : Reads reader bytes a)
    (f : α → β) : Reads (reader >>= fun a => pure (f a)) bytes (f a) := by
  have whole : Reads (reader >>= fun a => pure (f a)) (bytes ++ []) (f a) :=
    reads.bind (reads_pure (f a))
  rwa [List.append_nil] at whole

/-! ## Primitives -/

/-- Bytes are read as they are. -/
theorem reads_readBytes (bytes : List UInt8) : Reads (readBytes bytes.length) bytes bytes := by
  intro rest
  rw [readBytes, splitExact_append]

/-- A number that fits into the width is read back. -/
theorem reads_readNumber {width n : Nat} (small : n < 256 ^ width) :
    Reads (readNumber width) (littleEndian width n) n := by
  have reads := (reads_readBytes (littleEndian width n)).map ofLittleEndian
  rwa [length_littleEndian, ofLittleEndian_littleEndian small] at reads

/-- Every word is read back. -/
theorem reads_readWord (w : UInt64) : Reads readWord (encodeWord w) w := by
  have digits : Reads (readNumber 8) (encodeWord w) w.toNat := reads_readNumber w.toNat_lt
  have reads := digits.map UInt64.ofNat
  rwa [UInt64.ofNat_toNat] at reads

/-- Every integer is read back, negative ones by their two's complement. -/
theorem reads_readInt (i : Int64) : Reads readInt (encodeInt i) i :=
  (reads_readWord i.toUInt64).map UInt64.toInt64

/-- No choice has as many variants as a byte has values, so an index always fits. -/
theorem reads_readVariant (index : Fin 256) : Reads readVariant (variant index) index := by
  have byte : 256 ≤ 256 ^ variantWidth := by decide
  exact reads_readNumber (Nat.lt_of_lt_of_le index.isLt byte)

/-- A variant without fields is read back from an index that is known. -/
theorem reads_readEnumerated {ofIndex? : Nat → Option α} (index : Fin 256) {a : α}
    (known : ofIndex? index = some a) : Reads (readEnumerated ofIndex?) (variant index) a := by
  intro rest
  rw [readEnumerated, bind_eq_ok]
  refine ⟨index, rest, reads_readVariant index rest, ?_⟩
  rw [known]
  rfl

/-- A boolean is read back, whatever would be reported of another byte. -/
theorem reads_readFlag (refusal : WireError) (b : Bool) :
    Reads (readFlag refusal) (encodeBool b) b := by
  intro rest
  cases b <;> rfl

/-- An option is read back if its value is. -/
theorem reads_readOption {item : Decoder α} {encode : α → List UInt8} {o : Option α}
    (reads : ∀ a, o = some a → Reads item (encode a) a) :
    Reads (readOption item) (encodeOption encode o) o := by
  cases o with
  | none =>
    have flag := reads_readFlag .invalidOption false
    exact flag.bind (reads_pure none)
  | some a =>
    have flag := reads_readFlag .invalidOption true
    exact flag.bind ((reads a rfl).map some)

/-- A count of less than 2⁶⁴ is read back. -/
theorem reads_readCount {n : Nat} (small : n < 2 ^ 64) : Reads readCount (encodeCount n) n :=
  reads_readNumber small

/-- A text is read back if its length can be counted. -/
theorem reads_readString {s : String} (small : (Text.utf8 s).length < 2 ^ 64) :
    Reads readString (encodeString s) s := by
  intro rest
  rw [readString, encodeString, List.append_assoc, bind_eq_ok]
  refine ⟨_, _, reads_readCount small _, bind_eq_ok.mpr ?_⟩
  refine ⟨_, _, reads_readBytes (Text.utf8 s) rest, ?_⟩
  rw [Text.ofUtf8?_utf8]
  rfl

/-- Items in a row are read back if each of them is. -/
theorem reads_readItems {item : Decoder α} {encode : α → List UInt8} {items : List α}
    (reads : ∀ a ∈ items, Reads item (encode a) a) :
    Reads (readItems item items.length) (items.flatMap encode) items := by
  induction items with
  | nil => exact reads_pure []
  | cons a items ih =>
    have first := reads a List.mem_cons_self
    have others := ih fun b mem => reads b (List.mem_cons_of_mem a mem)
    exact first.bind (others.map (a :: ·))

/-- A sequence is read back if each item is and their number can be counted. -/
theorem reads_readList {item : Decoder α} {encode : α → List UInt8} {items : List α}
    (small : items.length < 2 ^ 64) (reads : ∀ a ∈ items, Reads item (encode a) a) :
    Reads (readList item) (encodeList encode items) items :=
  (reads_readCount small).bind (reads_readItems reads)

end Wire

open Wire

/-! ## Limits

Texts and lists are counted in 64 bits. -/

/-- The lengths of the lists that a node holds itself. -/
def Node.counts : Node → List Nat
  | .file f => [f.statements.length]
  | .statement (.load imported) => [imported.symbols.length]
  | .expression (.call _ _ args) => [args.length]
  | .expression (.comprehension _ clauses) => [clauses.length]
  | .expression (.list items) => [items.length]
  | .expression (.tuple items) => [items.length]
  | .expression (.dictionary entries) => [entries.length]
  | .clause (.loop targets _) => [targets.length]
  | _ => []

/-- The texts and lists that a node holds itself are shorter than `2 ^ 64`. -/
def Node.Countable (n : Node) : Prop :=
  (∀ s ∈ n.texts, (Text.utf8 s).length < 2 ^ 64) ∧ ∀ c ∈ n.counts, c < 2 ^ 64

/-- All texts and lists of a tree are shorter than `2 ^ 64`. -/
def Node.WithinLimits (n : Node) : Prop :=
  ∀ placed ∈ n.preorder, placed.node.Countable

/-- A tree is within limits when the node's own lengths are and all its parts are. -/
theorem Node.withinLimits_iff (n : Node) :
    n.WithinLimits ↔ n.Countable ∧ ∀ part ∈ n.parts, part.node.WithinLimits :=
  Node.forall_mem_preorder

/-! ## Expressions -/

theorem ValueKind.reads (k : ValueKind) :
    Reads (readEnumerated ValueKind.ofIndex?) (variant k.index) k := by
  cases k with
  | string => exact reads_readEnumerated 0 rfl
  | number => exact reads_readEnumerated 1 rfl
  | boolean => exact reads_readEnumerated 2 rfl
  | list => exact reads_readEnumerated 3 rfl
  | dictionary => exact reads_readEnumerated 4 rfl
  | tuple => exact reads_readEnumerated 5 rfl
  | any => exact reads_readEnumerated 6 rfl

theorem BinaryOp.reads (op : BinaryOp) :
    Reads (readEnumerated BinaryOp.ofIndex?) (variant op.index) op := by
  cases op with
  | plus => exact reads_readEnumerated 0 rfl
  | percent => exact reads_readEnumerated 1 rfl

theorem FileKind.reads (k : FileKind) :
    Reads (readEnumerated FileKind.ofIndex?) (variant k.index) k := by
  cases k with
  | workspace => exact reads_readEnumerated 0 rfl
  | build => exact reads_readEnumerated 1 rfl
  | bzl => exact reads_readEnumerated 2 rfl
  | star => exact reads_readEnumerated 3 rfl

/-- A reference is read back, with its kind. -/
theorem Reference.reads {r : Reference} (small : (Text.utf8 r.name).length < 2 ^ 64) :
    Reads Reference.decoder r.encode r :=
  (reads_readString small).bind (r.kind.reads.map (Reference.mk r.name))

/-- The bounds of a slice are read back, each of them present or absent. -/
theorem Bounds.reads (b : Bounds) : Reads Bounds.decoder b.encode b := by
  have start := reads_readOption fun (i : Int64) (_ : b.start = some i) => reads_readInt i
  have stop := reads_readOption fun (i : Int64) (_ : b.stop = some i) => reads_readInt i
  have step := reads_readOption fun (i : Int64) (_ : b.step = some i) => reads_readInt i
  rw [Bounds.encode, List.append_assoc]
  exact start.bind (stop.bind (step.map (Bounds.mk b.start b.stop)))

/-- The bytes of a node are read back by its reader over a given reader of expressions. -/
def Node.ReadsOver (expr : Decoder Expr) : Node → Prop
  | .expression e => Reads expr e.encode e
  | .clause c => Reads (Clause.decoderOver expr) c.encode c
  | .argument a => Reads (Arg.decoderOver expr) a.encode a
  | .file _ | .statement _ | .symbol _ => True

section

variable {expr : Decoder Expr}

/-- An argument is read back by a reader that reads back its value. -/
theorem Arg.readsOver {a : Arg} (limits : (Node.argument a).Countable)
    (value : Reads expr a.value.encode a.value) : (Node.argument a).ReadsOver expr := by
  obtain ⟨name, value⟩ := a
  have readsName : Reads (readOption readString) (encodeOption encodeString name) name := by
    refine reads_readOption fun s same => reads_readString (limits.1 s ?_)
    rw [same]
    exact List.mem_singleton_self s
  exact readsName.bind (value.map (Arg.mk name))

/-- An entry is read back by a reader that reads back its key and value. -/
theorem Entry.readsOver {e : Entry} (parts : ∀ x ∈ e.parts, Reads expr x.encode x) :
    Reads (Entry.decoderOver expr) e.encode e := by
  obtain ⟨key, value⟩ := e
  have readsKey := parts key List.mem_cons_self
  have readsValue := parts value (List.mem_cons_of_mem _ List.mem_cons_self)
  exact readsKey.bind (readsValue.map (Entry.mk key))

/-- A comprehension's body is read back by a reader that reads back its expressions. -/
theorem Body.readsOver {b : Body} (parts : ∀ x ∈ b.parts, Reads expr x.encode x) :
    Reads (Body.decoderOver expr) b.encode b := by
  cases b with
  | element value =>
    have readsValue := parts value List.mem_cons_self
    exact (reads_readVariant 0).bind (readsValue.map Body.element)
  | entry e => exact (reads_readVariant 1).bind ((Entry.readsOver parts).map Body.entry)

/-- A clause is read back by a reader that reads back its parts. -/
theorem Clause.readsOver {c : Clause} (limits : (Node.clause c).Countable)
    (parts : ∀ part ∈ c.parts, part.node.ReadsOver expr) : (Node.clause c).ReadsOver expr := by
  cases c with
  | loop targets iterable =>
    have readsTargets : Reads (readList expr) (encodeList Expr.encode targets) targets :=
      reads_readList (limits.2 _ List.mem_cons_self) fun x mem =>
        parts _ (List.mem_append_left _ (List.mem_map_of_mem mem))
    have readsIterable : Reads expr iterable.encode iterable :=
      parts _ (List.mem_append_right _ List.mem_cons_self)
    have bytes : (Clause.loop targets iterable).encode =
        variant 0 ++ (encodeList Expr.encode targets ++ iterable.encode) := by
      simp only [Clause.encode, Expr.encodeAll_eq_flatMap, encodeList, List.append_assoc]
    rw [Node.ReadsOver, bytes]
    exact (reads_readVariant 0).bind
      (readsTargets.bind (readsIterable.map (Clause.loop targets)))
  | guard condition =>
    have readsCondition : Reads expr condition.encode condition := parts _ List.mem_cons_self
    exact (reads_readVariant 1).bind (readsCondition.map Clause.guard)

/-- One layer of the reader reads back an expression if the reader below reads back its parts. -/
theorem Expr.reads_decoderOver {e : Expr} (limits : (Node.expression e).Countable)
    (parts : ∀ part ∈ e.parts, part.node.ReadsOver expr) :
    Reads (Expr.decoderOver expr) e.encode e := by
  cases e with
  | string value =>
    have readsValue := reads_readString (limits.1 value List.mem_cons_self)
    exact (reads_readVariant 0).bind (readsValue.map Expr.string)
  | integer value =>
    exact (reads_readVariant 1).bind ((reads_readInt value).map Expr.integer)
  | float value =>
    have readsValue := (reads_readWord value.bits).map fun bits => Expr.float ⟨bits⟩
    exact (reads_readVariant 2).bind readsValue
  | boolean value =>
    exact (reads_readVariant 3).bind
      ((reads_readFlag .invalidBool value).map Expr.boolean)
  | none => exact (reads_readVariant 4).map fun _ => Expr.none
  | reference target =>
    have readsTarget := Reference.reads (limits.1 target.name List.mem_cons_self)
    exact (reads_readVariant 5).bind (readsTarget.map Expr.reference)
  | call receiver name args =>
    have readsName := reads_readString (limits.1 name List.mem_cons_self)
    have readsReceiver : Reads (readOption expr) (encodeOption Expr.encode receiver) receiver := by
      refine reads_readOption fun x same => ?_
      subst same
      exact parts (.expression 0 x) (List.mem_append_left _ List.mem_cons_self)
    have readsArgs : Reads (readList (Arg.decoderOver expr)) (encodeList Arg.encode args) args :=
      reads_readList (limits.2 _ List.mem_cons_self) fun a mem =>
        parts _ (List.mem_append_right _ (List.mem_map_of_mem mem))
    have bytes : (Expr.call receiver name args).encode = variant 6 ++ (encodeString name ++
        (encodeOption Expr.encode receiver ++ encodeList Arg.encode args)) := by
      simp only [Expr.encode, Expr.encodeReceiver_eq, Arg.encodeAll_eq_flatMap, encodeList,
        List.append_assoc]
    rw [bytes]
    exact (reads_readVariant 6).bind
      (readsName.bind (readsReceiver.bind (readsArgs.map (Expr.call receiver name))))
  | binary kind left op right =>
    have readsLeft : Reads expr left.encode left := parts _ List.mem_cons_self
    have readsRight : Reads expr right.encode right :=
      parts _ (List.mem_cons_of_mem _ List.mem_cons_self)
    have bytes : (Expr.binary kind left op right).encode = variant 7 ++ (variant kind.index ++
        (left.encode ++ (variant op.index ++ right.encode))) := by
      simp only [Expr.encode, List.append_assoc]
    rw [bytes]
    exact (reads_readVariant 7).bind
      (kind.reads.bind (readsLeft.bind (op.reads.bind (readsRight.map (Expr.binary kind left op)))))
  | comprehension body clauses =>
    have readsBody := Body.readsOver fun x mem =>
      parts _ (List.mem_append_left _ (List.mem_map_of_mem mem))
    have readsClauses : Reads (readList (Clause.decoderOver expr))
        (encodeList Clause.encode clauses) clauses :=
      reads_readList (limits.2 _ List.mem_cons_self) fun c mem =>
        parts _ (List.mem_append_right _ (List.mem_map_of_mem mem))
    have bytes : (Expr.comprehension body clauses).encode =
        variant 8 ++ (body.encode ++ encodeList Clause.encode clauses) := by
      simp only [Expr.encode, Clause.encodeAll_eq_flatMap, encodeList, List.append_assoc]
    rw [bytes]
    exact (reads_readVariant 8).bind
      (readsBody.bind (readsClauses.map (Expr.comprehension body)))
  | slice receiver bounds =>
    have readsReceiver : Reads expr receiver.encode receiver := parts _ List.mem_cons_self
    rw [Expr.encode, List.append_assoc]
    exact (reads_readVariant 9).bind
      (readsReceiver.bind (bounds.reads.map (Expr.slice receiver)))
  | list items =>
    have readsItems : Reads (readList expr) (encodeList Expr.encode items) items :=
      reads_readList (limits.2 _ List.mem_cons_self) fun x mem =>
        parts _ (List.mem_map_of_mem mem)
    rw [Expr.encode, Expr.encodeAll_eq_flatMap, List.append_assoc]
    exact (reads_readVariant 10).bind (readsItems.map Expr.list)
  | tuple items =>
    have readsItems : Reads (readList expr) (encodeList Expr.encode items) items :=
      reads_readList (limits.2 _ List.mem_cons_self) fun x mem =>
        parts _ (List.mem_map_of_mem mem)
    rw [Expr.encode, Expr.encodeAll_eq_flatMap, List.append_assoc]
    exact (reads_readVariant 11).bind (readsItems.map Expr.tuple)
  | dictionary entries =>
    have readsEntries : Reads (readList (Entry.decoderOver expr))
        (encodeList Entry.encode entries) entries :=
      reads_readList (limits.2 _ List.mem_cons_self) fun e mem =>
        Entry.readsOver fun x memEntry =>
          parts _ (List.mem_map_of_mem (List.mem_flatMap.mpr ⟨e, mem, memEntry⟩))
    rw [Expr.encode, Entry.encodeAll_eq_flatMap, List.append_assoc]
    exact (reads_readVariant 12).bind (readsEntries.map Expr.dictionary)
  | raw s =>
    have readsText := reads_readString (limits.1 s List.mem_cons_self)
    exact (reads_readVariant 13).bind (readsText.map Expr.raw)

end

/-! ## Indices of variants -/

/-- An expression starts with its place among the constructs of expressions. -/
theorem Expr.variant_prefix_encode (e : Expr) : variant e.ctorIdx <+: e.encode := by
  cases e with
  | none => exact List.prefix_refl _
  | _ =>
    simp only [Expr.encode, List.append_assoc]
    exact List.prefix_append _ _

/-- A statement starts with its place among the statements. -/
theorem Statement.variant_prefix_encode (s : Statement) : variant s.ctorIdx <+: s.encode := by
  cases s with
  | emptyLine => exact List.prefix_refl _
  | _ =>
    simp only [Statement.encode, List.append_assoc]
    exact List.prefix_append _ _

/-- A clause starts with its place among the clauses. -/
theorem Clause.variant_prefix_encode (c : Clause) : variant c.ctorIdx <+: c.encode := by
  cases c <;> simp only [Clause.encode, List.append_assoc] <;> exact List.prefix_append _ _

/-- A comprehension's body starts with its place among the bodies. -/
theorem Body.variant_prefix_encode (b : Body) : variant b.ctorIdx <+: b.encode := by
  cases b <;> exact List.prefix_append _ _

/-- Value kinds are numbered in the order of their declaration. -/
theorem ValueKind.index_eq_ctorIdx (kind : ValueKind) : kind.index = kind.ctorIdx := by
  cases kind <;> rfl

/-- Operators are numbered in the order of their declaration. -/
theorem BinaryOp.index_eq_ctorIdx (op : BinaryOp) : op.index = op.ctorIdx := by
  cases op <;> rfl

/-- A file starts with the place of its kind among the kinds of files. -/
theorem File.variant_prefix_encode (f : File) : variant f.kind.ctorIdx <+: f.encode := by
  have place : f.kind.index = f.kind.ctorIdx := by cases f.kind <;> rfl
  rw [File.encode, place, List.append_assoc]
  exact List.prefix_append _ _

/-! ## Layers

A reader of as many layers as there are bytes has enough of them, because each node has bytes of its
own in front of those of its parts. -/

/-- An item takes no more bytes than the items in a row. -/
private theorem length_le_length_flatMap {α : Type} {xs : List α} {x : α} (encode : α → List UInt8)
    (mem : x ∈ xs) : (encode x).length ≤ (xs.flatMap encode).length := by
  obtain ⟨before, after, rfl⟩ := List.append_of_mem mem
  simp only [List.flatMap_append, List.flatMap_cons, List.length_append]
  omega

/-- An expression of an entry takes no more bytes than the entry. -/
theorem Entry.length_encode_of_mem_parts {e : Entry} {x : Expr} (h : x ∈ e.parts) :
    x.encode.length ≤ e.encode.length := by
  obtain ⟨key, value⟩ := e
  simp only [Entry.parts, List.mem_cons, List.not_mem_nil, or_false] at h
  rcases h with rfl | rfl <;> simp only [Entry.encode, List.length_append] <;> omega

/-- An expression of a body takes no more bytes than the body. -/
theorem Body.length_encode_of_mem_parts {b : Body} {x : Expr} (h : x ∈ b.parts) :
    x.encode.length ≤ b.encode.length := by
  cases b with
  | element value =>
    rw [Body.parts, List.mem_singleton] at h
    rw [h, Body.encode, List.length_append]
    omega
  | entry e =>
    have := Entry.length_encode_of_mem_parts h
    rw [Body.encode, List.length_append]
    omega

/-- The index of its variant makes an expression longer than each of its parts. -/
theorem Expr.length_encode_of_mem_parts {e : Expr} {part : Placed} (h : part ∈ e.parts) :
    part.node.encode.length < e.encode.length := by
  have tag : 0 < variantWidth := by decide
  cases e with
  | call receiver name args =>
    simp only [Expr.encode, Expr.encodeReceiver_eq, Arg.encodeAll_eq_flatMap, List.length_append,
      length_variant]
    rcases List.mem_append.mp h with h | h
    · cases receiver with
      | none => cases h
      | some receiver =>
        rw [Option.toList_some, List.map_singleton, List.mem_singleton] at h
        subst h
        simp only [Placed.expression, Node.encode, encodeOption, List.length_cons]
        omega
    · obtain ⟨a, mem, rfl⟩ := List.mem_map.mp h
      have := length_le_length_flatMap Arg.encode mem
      simp only [Node.encode]
      omega
  | binary kind left op right =>
    simp only [Expr.parts, List.mem_cons, List.not_mem_nil, or_false] at h
    simp only [Expr.encode, List.length_append, length_variant]
    rcases h with rfl | rfl <;> simp only [Placed.expression, Node.encode] <;> omega
  | comprehension body clauses =>
    simp only [Expr.encode, Clause.encodeAll_eq_flatMap, List.length_append, length_variant]
    rcases List.mem_append.mp h with h | h
    · obtain ⟨x, mem, rfl⟩ := List.mem_map.mp h
      have := Body.length_encode_of_mem_parts mem
      simp only [Placed.expression, Node.encode]
      omega
    · obtain ⟨c, mem, rfl⟩ := List.mem_map.mp h
      have := length_le_length_flatMap Clause.encode mem
      simp only [Node.encode]
      omega
  | slice receiver bounds =>
    rw [Expr.parts, List.mem_singleton] at h
    subst h
    simp only [Placed.expression, Node.encode, Expr.encode, List.length_append, length_variant]
    omega
  | list items =>
    obtain ⟨x, mem, rfl⟩ := List.mem_map.mp h
    have := length_le_length_flatMap Expr.encode mem
    simp only [Placed.expression, Node.encode, Expr.encode, Expr.encodeAll_eq_flatMap,
      List.length_append, length_variant]
    omega
  | tuple items =>
    obtain ⟨x, mem, rfl⟩ := List.mem_map.mp h
    have := length_le_length_flatMap Expr.encode mem
    simp only [Placed.expression, Node.encode, Expr.encode, Expr.encodeAll_eq_flatMap,
      List.length_append, length_variant]
    omega
  | dictionary entries =>
    obtain ⟨x, mem, rfl⟩ := List.mem_map.mp h
    obtain ⟨e, memEntry, mem⟩ := List.mem_flatMap.mp mem
    have := Entry.length_encode_of_mem_parts mem
    have := length_le_length_flatMap Entry.encode memEntry
    simp only [Placed.expression, Node.encode, Expr.encode, Entry.encodeAll_eq_flatMap,
      List.length_append, length_variant]
    omega
  | _ => cases h

/-- A part of a clause takes no more bytes than the clause. -/
theorem Clause.length_encode_of_mem_parts {c : Clause} {part : Placed} (h : part ∈ c.parts) :
    part.node.encode.length ≤ c.encode.length := by
  cases c with
  | loop targets iterable =>
    simp only [Clause.encode, Expr.encodeAll_eq_flatMap, List.length_append]
    rcases List.mem_append.mp h with h | h
    · obtain ⟨x, mem, rfl⟩ := List.mem_map.mp h
      have := length_le_length_flatMap Expr.encode mem
      simp only [Placed.expression, Node.encode]
      omega
    · rw [List.mem_singleton] at h
      subst h
      simp only [Placed.expression, Node.encode]
      omega
  | guard condition =>
    rw [Clause.parts, List.mem_singleton] at h
    subst h
    simp only [Placed.expression, Node.encode, Clause.encode, List.length_append]
    omega

/-- The value of an argument takes no more bytes than the argument. -/
theorem Arg.length_encode_value (a : Arg) : a.value.encode.length ≤ a.encode.length := by
  obtain ⟨name, value⟩ := a
  rw [Arg.encode, List.length_append]
  exact Nat.le_add_left _ _

/-- A node is read back when there are at least as many layers as it has bytes. -/
theorem Node.readsOver_decoderWithin (n : Node) (limits : n.WithinLimits) :
    ∀ layers, n.encode.length ≤ layers → n.ReadsOver (Expr.decoderWithin layers) := by
  induction n using Node.induction with
  | step n ih =>
    intro layers enough
    obtain ⟨own, inner⟩ := (Node.withinLimits_iff _).mp limits
    cases n with
    | expression e =>
      cases layers with
      | zero =>
        have tag := e.variant_prefix_encode.length_le
        rw [length_variant] at tag
        exact absurd (Nat.le_trans tag enough) (by decide)
      | succ layers =>
        -- One layer reads the node; each part is shorter, so the layers left are enough for it.
        refine Expr.reads_decoderOver own fun part mem => ih part mem (inner part mem) layers ?_
        have shorter := Expr.length_encode_of_mem_parts mem
        rw [Node.encode] at enough
        omega
    | clause c =>
      refine Clause.readsOver own fun part mem => ih part mem (inner part mem) layers ?_
      exact Nat.le_trans (Clause.length_encode_of_mem_parts mem) enough
    | argument a =>
      have readsValue := ih _ List.mem_cons_self (inner _ List.mem_cons_self) layers
      exact Arg.readsOver own (readsValue (Nat.le_trans a.length_encode_value enough))
    | _ => trivial

/-! ## Whole trees -/

/-- Every expression within limits is read back: its bytes are layers enough. -/
theorem Expr.reads {e : Expr} (limits : (Node.expression e).WithinLimits) :
    Reads Expr.decoder e.encode e := by
  intro rest
  have enough : e.encode.length ≤ (e.encode ++ rest).length := by
    rw [List.length_append]
    omega
  exact (Node.expression e).readsOver_decoderWithin limits _ enough rest

/-- The readers of arguments and clauses read their expressions with all layers. -/
theorem Node.readsOver_decoder (n : Node) (limits : n.WithinLimits) :
    n.ReadsOver Expr.decoder := by
  induction n using Node.induction with
  | step n ih =>
    obtain ⟨own, inner⟩ := (Node.withinLimits_iff _).mp limits
    cases n with
    | expression e => exact Expr.reads limits
    | clause c => exact Clause.readsOver own fun part mem => ih part mem (inner part mem)
    | argument a =>
      exact Arg.readsOver own (ih _ List.mem_cons_self (inner _ List.mem_cons_self))
    | _ => trivial

/-- A symbol is read back, with its local name if it has one. -/
theorem Symbol.reads {s : Symbol} (limits : (Node.symbol s).Countable) :
    Reads Symbol.decoder s.encode s := by
  obtain ⟨name, localName⟩ := s
  have readsName := reads_readString (limits.1 name List.mem_cons_self)
  have readsLocal :
      Reads (readOption readString) (encodeOption encodeString localName) localName := by
    refine reads_readOption fun s same => reads_readString (limits.1 s (List.mem_cons_of_mem _ ?_))
    rw [same]
    exact List.mem_singleton_self s
  exact readsName.bind (readsLocal.map (Symbol.mk name))

/-- A load within limits is read back. -/
theorem Load.reads {l : Load} (limits : (Node.statement (.load l)).WithinLimits) :
    Reads Load.decoder l.encode l := by
  obtain ⟨own, inner⟩ := (Node.withinLimits_iff _).mp limits
  have readsFile := reads_readString (own.1 l.file List.mem_cons_self)
  have readsSymbols : Reads (readList Symbol.decoder) (encodeList Symbol.encode l.symbols)
      l.symbols := by
    refine reads_readList (own.2 _ List.mem_cons_self) fun s mem => Symbol.reads ?_
    have limits := inner _ (List.mem_map_of_mem mem)
    exact ((Node.withinLimits_iff _).mp limits).1
  exact readsFile.bind (readsSymbols.map (Load.mk l.file))

/-- A statement within limits is read back. -/
theorem Statement.reads {s : Statement} (limits : (Node.statement s).WithinLimits) :
    Reads Statement.decoder s.encode s := by
  obtain ⟨own, inner⟩ := (Node.withinLimits_iff _).mp limits
  cases s with
  | expression value =>
    have readsValue := Expr.reads (inner _ List.mem_cons_self)
    exact (reads_readVariant 0).bind (readsValue.map Statement.expression)
  | assignment name value =>
    have readsName := reads_readString (own.1 name List.mem_cons_self)
    have readsValue := Expr.reads (inner _ List.mem_cons_self)
    rw [Statement.encode, List.append_assoc]
    exact (reads_readVariant 1).bind
      (readsName.bind (readsValue.map (Statement.assignment name)))
  | load imported =>
    exact (reads_readVariant 2).bind ((Load.reads limits).map Statement.load)
  | raw s =>
    have readsText := reads_readString (own.1 s List.mem_cons_self)
    exact (reads_readVariant 3).bind (readsText.map Statement.raw)
  | emptyLine => exact (reads_readVariant 4).map fun _ => Statement.emptyLine
  | comment s =>
    have readsText := reads_readString (own.1 s List.mem_cons_self)
    exact (reads_readVariant 5).bind (readsText.map Statement.comment)

/-- A file within limits is read back, whether or not its name has the suffix of its kind. -/
theorem File.reads {f : File} (limits : (Node.file f).WithinLimits) :
    Reads File.decoder f.encode f := by
  obtain ⟨own, inner⟩ := (Node.withinLimits_iff _).mp limits
  have readsName := reads_readString (own.1 f.name List.mem_cons_self)
  have readsStatements : Reads (readList Statement.decoder)
      (encodeList Statement.encode f.statements) f.statements := by
    refine reads_readList (own.2 _ List.mem_cons_self) fun s mem => Statement.reads ?_
    exact inner _ (List.mem_map_of_mem mem)
  rw [File.encode, List.append_assoc]
  exact f.kind.reads.bind (readsName.bind (readsStatements.map (File.mk f.kind f.name)))

/-- Files, statements, expressions, clauses and arguments are read back from their bytes as they
were, whatever bytes follow, and these are left unread. A choice between variants is written as the
place of the variant in the order of declaration, also for the kinds of values and the operators
inside expressions. -/
theorem decoders_read_back_encodings :
    (∀ f : File, (Node.file f).WithinLimits →
        ∀ rest, File.decoder.run (f.encode ++ rest) = .ok (f, rest)) ∧
      (∀ s : Statement, (Node.statement s).WithinLimits →
        ∀ rest, Statement.decoder.run (s.encode ++ rest) = .ok (s, rest)) ∧
      (∀ e : Expr, (Node.expression e).WithinLimits →
        ∀ rest, Expr.decoder.run (e.encode ++ rest) = .ok (e, rest)) ∧
      (∀ c : Clause, (Node.clause c).WithinLimits →
        ∀ rest, Clause.decoder.run (c.encode ++ rest) = .ok (c, rest)) ∧
      (∀ a : Arg, (Node.argument a).WithinLimits →
        ∀ rest, Arg.decoder.run (a.encode ++ rest) = .ok (a, rest)) ∧
      (∀ f : File, variant f.kind.ctorIdx <+: f.encode) ∧
      (∀ s : Statement, variant s.ctorIdx <+: s.encode) ∧
      (∀ e : Expr, variant e.ctorIdx <+: e.encode) ∧
      (∀ c : Clause, variant c.ctorIdx <+: c.encode) ∧
      (∀ b : Body, variant b.ctorIdx <+: b.encode) ∧
      (∀ kind : ValueKind, kind.index = kind.ctorIdx) ∧
      ∀ op : BinaryOp, op.index = op.ctorIdx := by
  refine ⟨fun f limits => File.reads limits, fun s limits => Statement.reads limits,
    fun e limits => Expr.reads limits, fun c limits => ?_, fun a limits => ?_,
    File.variant_prefix_encode, Statement.variant_prefix_encode, Expr.variant_prefix_encode,
    Clause.variant_prefix_encode, Body.variant_prefix_encode, ValueKind.index_eq_ctorIdx,
    BinaryOp.index_eq_ctorIdx⟩
  · exact (Node.clause c).readsOver_decoder limits
  · exact (Node.argument a).readsOver_decoder limits

namespace Sample

/-- A loop over a typed name. -/
def clause : Clause := .loop [.reference ⟨"x", .list⟩] .none

/-- A named argument that is a NaN with a payload. -/
def argument : Arg := ⟨some "n", .float ⟨0x7ff4000000000001⟩⟩

/-- A method call on a comprehension. -/
def expression : Expr :=
  .call (some (.comprehension (.element (.string "é")) [clause])) "f" [argument]

/-- A module whose name lacks its suffix, as only decoding can give it. -/
def file : File := ⟨.bzl, "m", [.assignment "v" expression]⟩

/-- The sample trees are within limits. -/
theorem withinLimits :
    (Node.file file).WithinLimits ∧ (Node.statement (.assignment "v" expression)).WithinLimits ∧
      (Node.expression expression).WithinLimits ∧ (Node.clause clause).WithinLimits ∧
      (Node.argument argument).WithinLimits := by
  simp [file, expression, clause, argument, Node.withinLimits_iff (.file _),
    Node.withinLimits_iff (.statement _), Node.withinLimits_iff (.expression _),
    Node.withinLimits_iff (.clause _), Node.withinLimits_iff (.argument _), Node.parts,
    Statement.parts, Expr.parts, Clause.parts, Body.parts, Node.Countable, Node.texts,
    Statement.texts, Expr.texts, Node.counts]
  decide

/-- The sample trees are read back with a byte after them. -/
theorem decoders_read_back :
    ((Node.file file).WithinLimits ∧
        (Node.statement (.assignment "v" expression)).WithinLimits ∧
        (Node.expression expression).WithinLimits ∧ (Node.clause clause).WithinLimits ∧
        (Node.argument argument).WithinLimits) ∧
      File.decoder.run (file.encode ++ [0]) = .ok (file, [0]) ∧
      Statement.decoder.run ((Statement.assignment "v" expression).encode ++ [0]) =
        .ok (.assignment "v" expression, [0]) ∧
      Expr.decoder.run (expression.encode ++ [0]) = .ok (expression, [0]) ∧
      Clause.decoder.run (clause.encode ++ [0]) = .ok (clause, [0]) ∧
      Arg.decoder.run (argument.encode ++ [0]) = .ok (argument, [0]) := by
  obtain ⟨files, statements, expressions, clauses, arguments, -⟩ := decoders_read_back_encodings
  obtain ⟨inFile, inStatement, inExpression, inClause, inArgument⟩ := withinLimits
  exact ⟨withinLimits, files _ inFile _, statements _ inStatement _, expressions _ inExpression _,
    clauses _ inClause _, arguments _ inArgument _⟩

end Sample

end StarlarkCode
