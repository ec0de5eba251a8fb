import StarlarkCode.Proofs.Wire.Related
import StarlarkCode.Proofs.Wire.RoundTrip

/-!
# Bytes that come later

What decoding makes of some bytes stands when more bytes come after them, unless the bytes ended too
early: a value stays that value, and an error stays that error. So some front of the input decides
it, and an encoding that is cut short is always found to end too early, wherever the cut is.

`Settles reader longer` compares a reader with one that is given more bytes. These are two readers
and not one, because the reader of expressions has as many layers as it is given bytes. Readers that
are put together from readers that settle each other settle each other (`compositional_settles`),
and the bytes are looked at only where a number of them is taken at once (`settles_readBytes`).
-/

namespace StarlarkCode

namespace Wire

variable {α β : Type}

/-- What the first reader makes of some bytes, the second makes of them with more bytes behind, and
leaves those unread too. Only when the first runs out of bytes nothing is said. -/
def Settles (reader longer : Decoder α) : Prop :=
  ∀ bytes more, reader.run bytes ≠ .error .endOfInput →
    longer.run (bytes ++ more) = (reader.run bytes).map fun read => (read.1, read.2 ++ more)

/-- A reader that always runs out of bytes settles nothing. -/
theorem settles_of_endOfInput {reader : Decoder α}
    (ends : ∀ bytes, reader.run bytes = .error .endOfInput) (longer : Decoder α) :
    Settles reader longer :=
  fun bytes _ decided => absurd (ends bytes) decided

/-- Readers in a row settle if each of them does. -/
theorem Settles.bind {first first' : Decoder α} {next next' : α → Decoder β}
    (settlesFirst : Settles first first') (settlesNext : ∀ a, Settles (next a) (next' a)) :
    Settles (first >>= next) (first' >>= next') := by
  intro bytes more decided
  have early := settlesFirst bytes more
  rw [StateT.run_bind] at decided
  rw [StateT.run_bind, StateT.run_bind]
  cases outcome : first.run bytes with
  | error e =>
    rw [outcome] at decided early
    rw [early]
    · rfl
    · intro ends
      cases ends
      exact decided rfl
  | ok read =>
    rw [outcome] at decided early
    rw [early nofun]
    exact settlesNext read.1 read.2 more decided

/-- The one place where it matters how many bytes there are: enough bytes stay enough. -/
theorem settles_readBytes (n : Nat) : Settles (readBytes n) (readBytes n) := by
  intro bytes more decided
  show readBytes n (bytes ++ more) = (readBytes n bytes).map _
  cases split : splitExact n bytes with
  | none =>
    refine absurd ?_ decided
    show readBytes n bytes = _
    rw [readBytes, split]
  | some read =>
    obtain ⟨first, rest⟩ := read
    have whole : splitExact n (bytes ++ more) = some (first, rest ++ more) := by
      obtain ⟨rfl, rfl⟩ := eq_append_of_splitExact split
      rw [List.append_assoc, splitExact_append]
    rw [readBytes, readBytes, split, whole]
    rfl

/-- Being settled respects the ways in which readers are put together. -/
theorem compositional_settles : Compositional fun _ => Settles where
  of_pure _ _ _ _ := rfl
  of_throw _ _ _ _ := rfl
  of_readBytes := settles_readBytes
  of_bind := Settles.bind

/-! ## What is decided -/

/-- What is decided on the bytes at hand did not run out of them. -/
theorem run_ne_of_decode_ne {reader : Decoder α} {bytes : List UInt8}
    (decided : decode reader bytes ≠ .error .endOfInput) :
    reader.run bytes ≠ .error .endOfInput := by
  intro ends
  rw [decode, ends] at decided
  exact decided rfl

/-- More bytes change nothing of what was decided. -/
theorem Settles.decode_append {reader : Decoder α} (settles : Settles reader reader)
    {bytes : List UInt8} (decided : decode reader bytes ≠ .error .endOfInput)
    (more : List UInt8) : decode reader (bytes ++ more) = decode reader bytes := by
  rw [decode, settles bytes more (run_ne_of_decode_ne decided), decode]
  cases reader.run bytes <;> rfl

/-- Of bytes that decide, some front decides and nothing shorter does. -/
theorem Settles.exists_front {reader : Decoder α} (settles : Settles reader reader)
    (bytes : List UInt8) (decided : decode reader bytes ≠ .error .endOfInput) :
    ∃ front, front <+: bytes ∧ (∀ more, decode reader (front ++ more) = decode reader bytes) ∧
      ∀ short, short <+: front → short ≠ front → decode reader short = .error .endOfInput := by
  -- Either something shorter decides already, and then it decides the same, or nothing does.
  by_cases early : ∃ short, short <+: bytes ∧ short ≠ bytes ∧
      decode reader short ≠ .error .endOfInput
  · obtain ⟨short, ⟨cut, rfl⟩, proper, shortDecided⟩ := early
    have shorter : short.length < (short ++ cut).length := by
      cases cut with
      | nil => exact absurd (List.append_nil short).symm proper
      | cons b cut => simp
    obtain ⟨front, inShort, same, least⟩ := settles.exists_front short shortDecided
    refine ⟨front, inShort.trans (List.prefix_append short cut), fun more => ?_, least⟩
    rw [same more, settles.decode_append shortDecided cut]
  · refine ⟨bytes, List.prefix_refl bytes, settles.decode_append decided, ?_⟩
    intro short cut proper
    exact Classical.byContradiction fun shortDecided =>
      early ⟨short, cut, proper, shortDecided⟩
termination_by bytes.length

/-- Bytes that end inside a value run out: had they decided, the whole value could not be read, or
would leave the missing bytes unread. -/
theorem Settles.truncated {reader : Decoder α} (settles : Settles reader reader)
    {whole : List UInt8} {a : α} (reads : Reads reader whole a) {bytes : List UInt8}
    (cut : bytes <+: whole) (proper : bytes ≠ whole) :
    decode reader bytes = .error .endOfInput := by
  obtain ⟨missing, rfl⟩ := cut
  apply Classical.byContradiction
  intro decided
  have read : reader.run (bytes ++ missing ++ []) = .ok (a, []) := reads []
  rw [List.append_nil, settles bytes missing (run_ne_of_decode_ne decided)] at read
  cases outcome : reader.run bytes with
  | error e =>
    rw [outcome] at read
    cases read
  | ok value =>
    rw [outcome] at read
    injection read with same
    obtain ⟨-, rfl⟩ := List.append_eq_nil_iff.mp (congrArg Prod.snd same)
    exact proper (List.append_nil bytes).symm

/-- More bytes behind an input change neither a value nor an error, unless the input ended too
early. -/
structure DecidedByFront (decoder : Decoder α) : Prop where
  /-- A value stays that value. -/
  value : ∀ bytes more a, decode decoder bytes = .ok a → decode decoder (bytes ++ more) = .ok a
  /-- An error stays that error. -/
  error : ∀ bytes more e, decode decoder bytes = .error e → e ≠ .endOfInput →
    decode decoder (bytes ++ more) = .error e
  /-- Some front of the input decides it, and anything shorter ends too early. -/
  front : ∀ bytes, decode decoder bytes ≠ .error .endOfInput →
    ∃ front, front <+: bytes ∧ (∀ more, decode decoder (front ++ more) = decode decoder bytes) ∧
      ∀ short, short <+: front → short ≠ front → decode decoder short = .error .endOfInput

/-- A reader that settles is decided by the bytes at the front. -/
theorem Settles.decidedByFront {decoder : Decoder α} (settles : Settles decoder decoder) :
    DecidedByFront decoder := by
  refine ⟨fun bytes more a read => ?_, fun bytes more e failed other => ?_, settles.exists_front⟩
  · have decided : decode decoder bytes ≠ .error .endOfInput := by
      rw [read]
      nofun
    rw [settles.decode_append decided, read]
  · have decided : decode decoder bytes ≠ .error .endOfInput := by
      rw [failed]
      intro ends
      cases ends
      exact other rfl
    rw [settles.decode_append decided, failed]

end Wire

open Wire

/-! ## Trees -/

/-- A reader settles every reader with at least as many layers. -/
theorem Expr.decoderWithin_settles {layers layers' : Nat} (enough : layers ≤ layers') :
    Settles (Expr.decoderWithin layers) (Expr.decoderWithin layers') := by
  induction layers generalizing layers' with
  | zero =>
    -- Where the layers end the reader says that the bytes end, which settles nothing.
    exact settles_of_endOfInput (fun _ => rfl) _
  | succ layers ih =>
    obtain ⟨further, rfl⟩ := Nat.exists_eq_add_of_le' enough
    exact compositional_settles.of_layer (ih (Nat.le_add_left layers further))

/-- Reading an expression is settled by its bytes. -/
theorem Expr.decoder_settles : Settles Expr.decoder Expr.decoder := by
  intro bytes more
  have enough : bytes.length ≤ (bytes ++ more).length := by
    rw [List.length_append]
    omega
  exact Expr.decoderWithin_settles enough bytes more

/-- So is reading a statement. -/
theorem Statement.decoder_settles : Settles Statement.decoder Statement.decoder :=
  compositional_settles.of_statement Expr.decoder_settles

/-- So is reading a file. -/
theorem File.decoder_settles : Settles File.decoder File.decoder :=
  compositional_settles.of_file Expr.decoder_settles

/-- Reading a clause is settled if reading its expressions is. -/
theorem Clause.decoderOver_settles {expr expr' : Decoder Expr} (settles : Settles expr expr') :
    Settles (Clause.decoderOver expr) (Clause.decoderOver expr') :=
  compositional_settles.of_clause settles

/-- Reading an argument is settled if reading its value is. -/
theorem Arg.decoderOver_settles {expr expr' : Decoder Expr} (settles : Settles expr expr') :
    Settles (Arg.decoderOver expr) (Arg.decoderOver expr') :=
  compositional_settles.of_arg settles

/-- Decoding a file, statement, expression, clause or argument is decided by the shortest front of
the input that gives a value or an error other than that the bytes end: whatever bytes come after
it, the outcome is the same. -/
theorem decoders_decided_by_front :
    DecidedByFront File.decoder ∧ DecidedByFront Statement.decoder ∧
      DecidedByFront Expr.decoder ∧ DecidedByFront Clause.decoder ∧
      DecidedByFront Arg.decoder :=
  ⟨File.decoder_settles.decidedByFront, Statement.decoder_settles.decidedByFront,
    Expr.decoder_settles.decidedByFront,
    (Clause.decoderOver_settles Expr.decoder_settles).decidedByFront,
    (Arg.decoderOver_settles Expr.decoder_settles).decidedByFront⟩

/-- The first of two items has an unknown index, and the bytes of a second do not change that; a
`None` is decided by its four bytes. -/
theorem decoder_decided_in_list :
    decode Expr.decoder [10, 0, 0, 0, 2, 0, 0, 0, 0, 0, 0, 0, 99, 0, 0, 0] =
        .error .unknownVariant ∧
      decode Expr.decoder ([10, 0, 0, 0, 2, 0, 0, 0, 0, 0, 0, 0, 99, 0, 0, 0] ++ [4, 0, 0, 0]) =
        .error .unknownVariant ∧
      decode Expr.decoder [4, 0, 0, 0] = .ok .none ∧
      decode Expr.decoder ([4, 0, 0, 0] ++ [1]) = .ok .none := by
  obtain ⟨-, -, expressions, -⟩ := decoders_decided_by_front
  exact ⟨rfl, expressions.error _ _ _ rfl (by decide), rfl, expressions.value _ _ _ rfl⟩

/-! ## Encodings cut short -/

/-- A file, statement, expression, clause or argument within the limits of the format, whose
encoding is cut short anywhere, be it inside a character, a count or the index of a variant, is
refused because the bytes end, and for no other reason. -/
theorem decoders_refuse_truncated_encodings :
    (∀ f : File, (Node.file f).WithinLimits → ∀ bytes, bytes <+: f.encode → bytes ≠ f.encode →
        decode File.decoder bytes = .error .endOfInput) ∧
      (∀ s : Statement, (Node.statement s).WithinLimits → ∀ bytes, bytes <+: s.encode →
        bytes ≠ s.encode → decode Statement.decoder bytes = .error .endOfInput) ∧
      (∀ e : Expr, (Node.expression e).WithinLimits → ∀ bytes, bytes <+: e.encode →
        bytes ≠ e.encode → decode Expr.decoder bytes = .error .endOfInput) ∧
      (∀ c : Clause, (Node.clause c).WithinLimits → ∀ bytes, bytes <+: c.encode →
        bytes ≠ c.encode → decode Clause.decoder bytes = .error .endOfInput) ∧
      ∀ a : Arg, (Node.argument a).WithinLimits → ∀ bytes, bytes <+: a.encode →
        bytes ≠ a.encode → decode Arg.decoder bytes = .error .endOfInput := by
  refine ⟨fun f limits _ cut proper => ?_, fun s limits _ cut proper => ?_,
    fun e limits _ cut proper => ?_, fun c limits _ cut proper => ?_,
    fun a limits _ cut proper => ?_⟩
  · exact File.decoder_settles.truncated (File.reads limits) cut proper
  · exact Statement.decoder_settles.truncated (Statement.reads limits) cut proper
  · exact Expr.decoder_settles.truncated (Expr.reads limits) cut proper
  · exact (Clause.decoderOver_settles Expr.decoder_settles).truncated
      ((Node.clause c).readsOver_decoder limits) cut proper
  · exact (Arg.decoderOver_settles Expr.decoder_settles).truncated
      ((Node.argument a).readsOver_decoder limits) cut proper

namespace Sample

/-- The file, the statement and the expression are cut inside the character of their string, the
clause and the argument inside a count. -/
theorem truncated_encodings :
    ((Node.file file).WithinLimits ∧
        (Node.statement (.assignment "v" expression)).WithinLimits ∧
        (Node.expression expression).WithinLimits ∧ (Node.clause clause).WithinLimits ∧
        (Node.argument argument).WithinLimits) ∧
      decode File.decoder (file.encode.take 69) = .error .endOfInput ∧
      decode Statement.decoder ((Statement.assignment "v" expression).encode.take 48) =
        .error .endOfInput ∧
      decode Expr.decoder (expression.encode.take 35) = .error .endOfInput ∧
      decode Clause.decoder (clause.encode.take 6) = .error .endOfInput ∧
      decode Arg.decoder (argument.encode.take 3) = .error .endOfInput := by
  obtain ⟨files, statements, expressions, clauses, arguments⟩ := decoders_refuse_truncated_encodings
  obtain ⟨inFile, inStatement, inExpression, inClause, inArgument⟩ := withinLimits
  exact ⟨withinLimits, files _ inFile _ (List.take_prefix _ _) (by decide),
    statements _ inStatement _ (List.take_prefix _ _) (by decide),
    expressions _ inExpression _ (List.take_prefix _ _) (by decide),
    clauses _ inClause _ (List.take_prefix _ _) (by decide),
    arguments _ inArgument _ (List.take_prefix _ _) (by decide)⟩

end Sample

end StarlarkCode
