import Mathlib.Algebra.BigOperators.Ring.List
import Mathlib.Algebra.Order.BigOperators.Group.List
import Mathlib.Algebra.Order.Ring.Nat
import StarlarkCode.Proofs.Wire.Canonical
import StarlarkCode.Proofs.Wire.Related

/-!
# What some bytes can hold

Bytes that are not trusted can announce lists of any length, but they cannot make a tree larger than
they are. Every statement, expression and clause has the index of its variant among the bytes, and
no item of a list takes fewer bytes than such an index. So a tree has at most one node for four
bytes, and a list whose count asks for more items than there can be in the bytes after it is
refused, as soon as these are used up.

The reader of expressions has as many layers as there are bytes. That is never too few: one more
layer changes nothing (`Expr.decoderWithin_succ`), and the reader is the layer over itself
(`Expr.decoder_eq_decoderOver`), without a word about layers.
-/

namespace StarlarkCode

open Wire

/-! ## Nodes and their bytes -/

/-- A statement, an expression or a clause. These start with the index of a variant. -/
def Node.isVariant : Node → Bool
  | .statement _ | .expression _ | .clause _ => true
  | .file _ | .argument _ | .symbol _ => false

/-- The number of statements, expressions and clauses in a tree. -/
def Node.nodeCount (n : Node) : Nat :=
  n.preorder.countP (·.node.isVariant)

/-- The nodes counted are those of the parts and the node itself, if it has an index. -/
theorem Node.nodeCount_eq (n : Node) :
    n.nodeCount = (n.parts.map (·.node.nodeCount)).sum + if n.isVariant then 1 else 0 := by
  have inner (part : Placed) :
      (part.node.preorder.map (·.below part.depth)).countP (·.node.isVariant) =
        part.node.nodeCount := by
    rw [List.countP_map]
    rfl
  rw [nodeCount, preorder_eq, List.countP_cons, List.countP_flatMap]
  simp only [Function.comp_def, inner]

theorem Entry.encode_eq_flatMap (e : Entry) : e.encode = e.parts.flatMap Expr.encode := by
  obtain ⟨key, value⟩ := e
  simp [Entry.encode, Entry.parts]

/-- The body of a comprehension is written as its index and its expressions. -/
theorem Body.length_encode (b : Body) :
    b.encode.length = variantWidth + (b.parts.flatMap Expr.encode).length := by
  cases b with
  | element value => simp [Body.encode, Body.parts]
  | entry e => simp [Body.encode, Body.parts, Entry.encode_eq_flatMap]

/-- The bytes of placed nodes, one after the other. -/
def Placed.encodeAll (parts : List Placed) : List UInt8 :=
  parts.flatMap (·.node.encode)

namespace Placed

theorem encodeAll_append (parts parts' : List Placed) :
    encodeAll (parts ++ parts') = encodeAll parts ++ encodeAll parts' :=
  List.flatMap_append

theorem encodeAll_expressions (depth : Nat) (es : List Expr) :
    encodeAll (es.map (.expression depth)) = es.flatMap Expr.encode :=
  List.flatMap_map ..

theorem encodeAll_arguments (depth : Nat) (as : List Arg) :
    encodeAll (as.map (⟨depth, .argument ·⟩)) = as.flatMap Arg.encode :=
  List.flatMap_map ..

theorem encodeAll_clauses (depth : Nat) (cs : List Clause) :
    encodeAll (cs.map (⟨depth, .clause ·⟩)) = cs.flatMap Clause.encode :=
  List.flatMap_map ..

theorem encodeAll_symbols (depth : Nat) (ss : List Symbol) :
    encodeAll (ss.map (⟨depth, .symbol ·⟩)) = ss.flatMap Symbol.encode :=
  List.flatMap_map ..

theorem encodeAll_statements (depth : Nat) (ss : List Statement) :
    encodeAll (ss.map (⟨depth, .statement ·⟩)) = ss.flatMap Statement.encode :=
  List.flatMap_map ..

theorem encodeAll_expression (depth : Nat) (e : Expr) :
    encodeAll [.expression depth e] = e.encode :=
  List.append_nil _

end Placed

/-- An expression takes at least the bytes of its parts and those of its index. -/
theorem Expr.length_parts_le (e : Expr) :
    (Placed.encodeAll e.parts).length + variantWidth ≤ e.encode.length := by
  cases e with
  | call receiver name args =>
    have receiverBytes : (receiver.toList.flatMap Expr.encode).length ≤
        (encodeOption Expr.encode receiver).length := by
      cases receiver <;> simp [encodeOption]
    simp only [Expr.parts, Placed.encodeAll_append, Placed.encodeAll_expressions,
      Placed.encodeAll_arguments, Expr.encode, Expr.encodeReceiver_eq, Arg.encodeAll_eq_flatMap,
      List.length_append, length_variant]
    omega
  | binary kind left op right =>
    have both := Placed.encodeAll_expressions 0 [left, right]
    rw [List.map_cons, List.map_singleton] at both
    simp only [Expr.parts, both, List.flatMap_cons, List.flatMap_nil, List.append_nil, Expr.encode,
      List.length_append, length_variant]
    omega
  | comprehension body clauses =>
    simp only [Expr.parts, Placed.encodeAll_append, Placed.encodeAll_expressions,
      Placed.encodeAll_clauses, Expr.encode, Clause.encodeAll_eq_flatMap, Body.length_encode,
      List.length_append, length_variant]
    omega
  | slice receiver bounds =>
    simp only [Expr.parts, Placed.encodeAll_expression, Expr.encode, List.length_append,
      length_variant]
    omega
  | list items | tuple items =>
    simp only [Expr.parts, Placed.encodeAll_expressions, Expr.encode, Expr.encodeAll_eq_flatMap,
      List.length_append, length_variant]
    omega
  | dictionary entries =>
    have rows :
        (entries.flatMap Entry.parts).flatMap Expr.encode = entries.flatMap Entry.encode := by
      rw [List.flatMap_assoc]
      exact List.flatMap_congr fun e _ => e.encode_eq_flatMap.symm
    simp only [Expr.parts, Placed.encodeAll_expressions, rows, Expr.encode,
      Entry.encodeAll_eq_flatMap, List.length_append, length_variant]
    omega
  | _ => simp [Expr.parts, Placed.encodeAll, Expr.encode]

/-- A clause takes at least the bytes of its parts and those of its index. -/
theorem Clause.length_parts_le (c : Clause) :
    (Placed.encodeAll c.parts).length + variantWidth ≤ c.encode.length := by
  cases c with
  | loop targets iterable =>
    simp only [Clause.parts, Placed.encodeAll_append, Placed.encodeAll_expressions,
      Placed.encodeAll_expression, Clause.encode, Expr.encodeAll_eq_flatMap, List.length_append,
      length_variant]
    omega
  | guard condition =>
    simp only [Clause.parts, Placed.encodeAll_expression, Clause.encode, List.length_append,
      length_variant]
    omega

/-- A statement takes at least the bytes of its parts and those of its index. -/
theorem Statement.length_parts_le (s : Statement) :
    (Placed.encodeAll s.parts).length + variantWidth ≤ s.encode.length := by
  cases s with
  | expression value =>
    simp only [Statement.parts, Placed.encodeAll_expression, Statement.encode, List.length_append,
      length_variant]
    omega
  | assignment name value =>
    simp only [Statement.parts, Placed.encodeAll_expression, Statement.encode, List.length_append,
      length_variant]
    omega
  | load imported =>
    simp only [Statement.parts, Placed.encodeAll_symbols, Statement.encode, Load.encode, encodeList,
      List.length_append, length_variant]
    omega
  | _ => simp [Statement.parts, Placed.encodeAll, Statement.encode]

/-- The bytes of a node hold those of its parts, and an index besides if it has one. -/
theorem Node.length_parts_le (n : Node) :
    (Placed.encodeAll n.parts).length + (if n.isVariant then variantWidth else 0) ≤
      n.encode.length := by
  cases n with
  | file f =>
    simp only [Node.parts, Placed.encodeAll_statements, Node.isVariant, Node.encode, File.encode,
      encodeList, List.length_append, Bool.false_eq_true, if_false]
    omega
  | statement s => exact s.length_parts_le
  | expression e => exact e.length_parts_le
  | clause c => exact c.length_parts_le
  | argument a =>
    rw [Node.parts, Placed.encodeAll_expression]
    exact a.length_encode_value
  | symbol s => exact Nat.zero_le _

/-- A tree has four bytes for each of its statements, expressions and clauses. -/
theorem Node.nodeCount_le (n : Node) : 4 * n.nodeCount ≤ n.encode.length := by
  induction n using Node.induction with
  | step n ih =>
    have inner : (n.parts.map fun part => 4 * part.node.nodeCount).sum ≤
        (Placed.encodeAll n.parts).length := by
      rw [Placed.encodeAll, List.length_flatMap]
      exact List.sum_le_sum ih
    have whole := n.length_parts_le
    rw [List.sum_map_mul_left] at inner
    rw [nodeCount_eq]
    by_cases tagged : n.isVariant
    · rw [if_pos tagged] at whole ⊢
      unfold variantWidth at whole
      omega
    · rw [if_neg tagged] at whole ⊢
      omega

/-! ## Lists and their counts -/

namespace Wire

variable {α : Type}

/-- Reading a value takes at least four bytes. -/
def TakesFour (item : Decoder α) : Prop :=
  ∀ bytes a rest, item.run bytes = .ok (a, rest) → rest.length + 4 ≤ bytes.length

/-- A reader that spells takes four bytes if every encoding does. -/
theorem Spells.takesFour {item : Decoder α} {encode : α → List UInt8} {limits : α → Prop}
    (spells : Spells item encode limits) (wide : ∀ a, 4 ≤ (encode a).length) : TakesFour item := by
  intro bytes a rest read
  obtain ⟨-, rfl⟩ := spells bytes a rest read
  have := wide a
  rw [List.length_append]
  omega

/-- Items take four bytes each. -/
theorem TakesFour.readItems {item : Decoder α} (takes : TakesFour item) {n : Nat}
    {bytes rest : List UInt8} {items : List α}
    (read : (readItems item n).run bytes = .ok (items, rest)) :
    rest.length + 4 * n ≤ bytes.length := by
  induction n generalizing bytes items with
  | zero =>
    cases read
    exact Nat.le_refl _
  | succ n ih =>
    obtain ⟨first, left, readFirst, read⟩ := bind_eq_ok.mp read
    obtain ⟨others, left', readOthers, read⟩ := bind_eq_ok.mp read
    cases read
    have := takes _ _ _ readFirst
    have := ih readOthers
    omega

/-- What goes wrong among some items goes wrong whatever comes after them. -/
theorem readItems_error {item : Decoder α} {n : Nat} {bytes : List UInt8} {e : WireError}
    (failed : (readItems item n).run bytes = .error e) {more : Nat} (further : n ≤ more) :
    (readItems item more).run bytes = .error e := by
  induction n generalizing bytes more with
  | zero => cases failed
  | succ n ih =>
    obtain ⟨more, rfl⟩ := Nat.exists_eq_add_of_le' further
    rcases bind_eq_error.mp failed with first | ⟨a, left, first, others⟩
    · exact bind_eq_error.mpr (.inl first)
    · refine bind_eq_error.mpr (.inr ⟨a, left, first, ?_⟩)
      rcases bind_eq_error.mp others with others | ⟨as, left', -, other⟩
      · exact bind_eq_error.mpr (.inl (ih others (Nat.le_add_left n more)))
      · cases other

/-- A list that announces more items than a quarter of the bytes behind its count is refused. The
items that could be there and one more decide how, so no more of them are ever read, whatever number
is announced. -/
def RefusesExcess (item : Decoder α) : Prop :=
  ∀ bytes count left, readCount.run bytes = .ok (count, left) → left.length / 4 < count →
    ∃ e, (readList item).run bytes = .error e ∧
      (readItems item (left.length / 4 + 1)).run left = .error e

/-- Items of four bytes and more run out before the count does, if the count is too large. -/
theorem TakesFour.refusesExcess {item : Decoder α} (takes : TakesFour item) :
    RefusesExcess item := by
  intro bytes count left read excess
  cases early : (Wire.readItems item (left.length / 4 + 1)).run left with
  | ok read =>
    have := takes.readItems early
    omega
  | error e =>
    exact ⟨e, bind_eq_error.mpr (.inr ⟨count, left, read, readItems_error early excess⟩), rfl⟩

end Wire

/-- Every expression takes four bytes: its index does. -/
theorem Expr.four_le_length_encode (e : Expr) : 4 ≤ e.encode.length :=
  Nat.le_trans (Nat.le_add_left _ _) e.length_parts_le

/-- So does every clause. -/
theorem Clause.four_le_length_encode (c : Clause) : 4 ≤ c.encode.length :=
  Nat.le_trans (Nat.le_add_left _ _) c.length_parts_le

/-- So does every statement. -/
theorem Statement.four_le_length_encode (s : Statement) : 4 ≤ s.encode.length :=
  Nat.le_trans (Nat.le_add_left _ _) s.length_parts_le

/-- An argument takes four bytes because its value does. -/
theorem Arg.four_le_length_encode (a : Arg) : 4 ≤ a.encode.length :=
  Nat.le_trans a.value.four_le_length_encode a.length_encode_value

/-- An entry takes four bytes because its key does. -/
theorem Entry.four_le_length_encode (e : Entry) : 4 ≤ e.encode.length :=
  Nat.le_trans e.key.four_le_length_encode (Entry.length_encode_of_mem_parts List.mem_cons_self)

/-- A symbol takes four bytes: the length of its name does. -/
theorem Symbol.four_le_length_encode (s : Symbol) : 4 ≤ s.encode.length := by
  simp only [Symbol.encode, encodeString, encodeCount, List.length_append, length_littleEndian]
  omega

/-! ## Layers -/

namespace Wire

variable {α β : Type}

/-- The readers do the same with up to that many bytes, and leave no more than they were given. -/
def AgreeWithin (limit : Nat) (reader reader' : Decoder α) : Prop :=
  ∀ bytes, bytes.length ≤ limit → reader.run bytes = reader'.run bytes ∧
    ∀ a rest, reader.run bytes = .ok (a, rest) → rest.length ≤ bytes.length

/-- Readers in a row agree if each of them does, because the second is given no more bytes than the
first. -/
theorem AgreeWithin.bind {limit : Nat} {first first' : Decoder α} {next next' : α → Decoder β}
    (same : AgreeWithin limit first first') (sameNext : ∀ a, AgreeWithin limit (next a) (next' a)) :
    AgreeWithin limit (first >>= next) (first' >>= next') := by
  intro bytes small
  obtain ⟨equal, shorter⟩ := same bytes small
  rw [StateT.run_bind, StateT.run_bind, ← equal]
  cases outcome : first.run bytes with
  | error e => exact ⟨rfl, nofun⟩
  | ok read =>
    obtain ⟨a, left⟩ := read
    have less := shorter a left outcome
    obtain ⟨equal', shorter'⟩ := sameNext a left (Nat.le_trans less small)
    exact ⟨equal', fun b rest read => Nat.le_trans (shorter' b rest read) less⟩

/-- Agreement within a number of bytes respects the ways in which readers are put together. -/
theorem compositional_agreeWithin (limit : Nat) : Compositional fun _ => AgreeWithin limit where
  of_pure a bytes _ := ⟨rfl, fun _ _ read => by cases read; exact Nat.le_refl _⟩
  of_throw e bytes _ := ⟨rfl, nofun⟩
  of_readBytes n bytes _ := by
    refine ⟨rfl, fun first rest read => ?_⟩
    obtain ⟨-, rfl⟩ := readBytes_spells read
    simp
  of_bind := AgreeWithin.bind

/-- Behind the index of a variant there are fewer bytes, so it is enough to agree on fewer. -/
theorem agreeWithin_variant {limit : Nat} {next next' : Nat → Decoder α}
    (same : ∀ index, AgreeWithin limit (next index) (next' index)) :
    AgreeWithin (limit + 1) (readVariant >>= next) (readVariant >>= next') := by
  intro bytes small
  rw [StateT.run_bind, StateT.run_bind]
  cases outcome : readVariant.run bytes with
  | error e => exact ⟨rfl, nofun⟩
  | ok read =>
    obtain ⟨index, left⟩ := read
    have less : left.length + variantWidth = bytes.length := by
      rw [(readVariant_spells _ _ _ outcome).2, List.length_append, length_variant, Nat.add_comm]
    unfold variantWidth at less
    obtain ⟨equal, shorter⟩ := same index left (by omega)
    refine ⟨equal, fun a rest read => ?_⟩
    have := shorter a rest read
    omega

end Wire

/-- A layer over readers that agree agrees on more bytes than they do. -/
theorem Expr.decoderOver_agreeWithin {limit : Nat} {expr expr' : Decoder Expr}
    (same : AgreeWithin limit expr expr') :
    AgreeWithin (limit + 1) (Expr.decoderOver expr) (Expr.decoderOver expr') := by
  obtain ⟨fields, fields', layer, layer', related⟩ :=
    (compositional_agreeWithin limit).exists_fields same
  rw [layer, layer']
  exact agreeWithin_variant related

/-- With as many layers as there are bytes, one more changes nothing. -/
theorem Expr.decoderWithin_succ (layers : Nat) :
    AgreeWithin layers (Expr.decoderWithin layers) (Expr.decoderWithin (layers + 1)) := by
  induction layers with
  | zero =>
    intro bytes small
    rw [List.length_eq_zero_iff.mp (Nat.le_zero.mp small)]
    exact ⟨rfl, nofun⟩
  | succ layers ih => exact Expr.decoderOver_agreeWithin ih

/-- As many layers as there are bytes are as good as any greater number. -/
theorem Expr.decoderWithin_agreeWithin (layers : Nat) :
    AgreeWithin layers (Expr.decoderWithin layers) Expr.decoder := by
  intro bytes small
  have equal : (Expr.decoderWithin layers).run bytes = Expr.decoder.run bytes := by
    show Expr.decoderWithin layers bytes = Expr.decoderWithin bytes.length bytes
    induction layers, small using Nat.le_induction with
    | base => rfl
    | succ layers enough ih => exact (Expr.decoderWithin_succ layers bytes enough).1.symm.trans ih
  refine ⟨equal, fun e rest read => ?_⟩
  rw [((Expr.decoderWithin_spells layers) bytes e rest read).2, List.length_append]
  exact Nat.le_add_left _ _

/-- The reader of expressions is the layer over itself. -/
theorem Expr.decoder_eq_decoderOver : Expr.decoder = Expr.decoderOver Expr.decoder := by
  funext bytes
  cases length : bytes.length with
  | zero =>
    rw [List.length_eq_zero_iff.mp length]
    rfl
  | succ layers =>
    have layer := Expr.decoderOver_agreeWithin (Expr.decoderWithin_agreeWithin layers)
    show Expr.decoderWithin bytes.length bytes = _
    rw [length]
    exact (layer bytes (Nat.le_of_eq length)).1

/-! ## Trees -/

/-- What is read as a tree has four bytes for each of its statements, expressions and clauses. -/
def NodesWithin {α : Type} (reader : Decoder α) (node : α → Node) : Prop :=
  ∀ bytes a rest, reader.run bytes = .ok (a, rest) →
    ∃ used, bytes = used ++ rest ∧ (node a).nodeCount ≤ used.length / 4

/-- What is read from its encoding has no more nodes than a quarter of the bytes. -/
theorem Wire.Spells.nodesWithin {α : Type} {reader : Decoder α} {node : α → Node}
    {limits : α → Prop} (spells : Spells reader (fun a => (node a).encode) limits) :
    NodesWithin reader node := by
  intro bytes a rest read
  obtain ⟨-, spelled⟩ := spells bytes a rest read
  have := (node a).nodeCount_le
  exact ⟨(node a).encode, spelled, by omega⟩

/-- Decoding is bounded by the bytes it is given. A file, statement, expression, clause or argument
that is read from `n` bytes has at most `n / 4` statements, expressions and clauses. A list of
statements, of symbols, of arguments, of clauses, of expressions or of entries is refused when it
announces more items than a quarter of the bytes that follow, and no more items than that and one
are tried. The reader of expressions goes on as its own layers say, down to where it fails or the
bytes end, so its number of layers never stops it. -/
theorem decoding_bounded_by_bytes :
    (NodesWithin File.decoder .file ∧ NodesWithin Statement.decoder .statement ∧
        NodesWithin Expr.decoder .expression ∧ NodesWithin Clause.decoder .clause ∧
        NodesWithin Arg.decoder .argument) ∧
      (RefusesExcess Statement.decoder ∧ RefusesExcess Symbol.decoder ∧
        RefusesExcess Arg.decoder ∧ RefusesExcess Clause.decoder ∧ RefusesExcess Expr.decoder ∧
        RefusesExcess (Entry.decoderOver Expr.decoder)) ∧
      Expr.decoder = Expr.decoderOver Expr.decoder := by
  have expressions := Expr.decoder_spells
  have clauses := Clause.decoderOver_spells expressions
  have arguments := Arg.decoderOver_spells expressions
  have entries := Entry.decoderOver_spells expressions
  refine ⟨⟨?_, ?_, ?_, ?_, ?_⟩, ⟨?_, ?_, ?_, ?_, ?_, ?_⟩, Expr.decoder_eq_decoderOver⟩
  · exact File.decoder_spells.nodesWithin
  · exact Statement.decoder_spells.nodesWithin
  · exact expressions.nodesWithin
  · exact clauses.nodesWithin
  · exact arguments.nodesWithin
  · exact (Statement.decoder_spells.takesFour Statement.four_le_length_encode).refusesExcess
  · exact (Symbol.decoder_spells.takesFour Symbol.four_le_length_encode).refusesExcess
  · exact (arguments.takesFour Arg.four_le_length_encode).refusesExcess
  · exact (clauses.takesFour Clause.four_le_length_encode).refusesExcess
  · exact (expressions.takesFour Expr.four_le_length_encode).refusesExcess
  · exact (entries.takesFour Entry.four_le_length_encode).refusesExcess

namespace Sample

/-- The bytes of a list with a slice of `None` as its only item, and a byte after them. -/
def slicedNone : List UInt8 :=
  [10, 0, 0, 0, 1, 0, 0, 0, 0, 0, 0, 0, 9, 0, 0, 0, 4, 0, 0, 0, 0, 0, 0, 7]

/-- The greatest count there is, and the bytes of one `None`. -/
def endlessNones : List UInt8 :=
  [255, 255, 255, 255, 255, 255, 255, 255, 4, 0, 0, 0]

/-- The list has three nodes, with room for two more in its bytes. What is wrong with the list that
announces too much shows at its second item. -/
theorem decoding_bounded :
    (Expr.decoder.run slicedNone = .ok (.list [.slice .none ⟨none, none, none⟩], [7]) ∧
        ∃ used, slicedNone = used ++ [7] ∧
          (Node.expression (.list [.slice .none ⟨none, none, none⟩])).nodeCount ≤
            used.length / 4) ∧
      readCount.run endlessNones = .ok (2 ^ 64 - 1, [4, 0, 0, 0]) ∧
      ∃ e, (readList Expr.decoder).run endlessNones = .error e ∧
        (readItems Expr.decoder 2).run [4, 0, 0, 0] = .error e := by
  obtain ⟨⟨-, -, expressions, -⟩, ⟨-, -, -, -, lists, -⟩, -⟩ := decoding_bounded_by_bytes
  have read : Expr.decoder.run slicedNone =
      .ok (.list [.slice .none ⟨none, none, none⟩], [7]) := rfl
  have count : readCount.run endlessNones = .ok (2 ^ 64 - 1, [4, 0, 0, 0]) := rfl
  exact ⟨⟨read, expressions _ _ _ read⟩, count, lists _ _ _ count (by decide)⟩

end Sample

end StarlarkCode
