import Mathlib.Algebra.Group.Nat.Defs
import StarlarkCode.Wire.Decode

/-!
# Numbers, and rows of nodes

The facts about the wire format that reading and writing share. Little-endian digits are inverse to
the number they spell, in both directions: a number below `256 ^ width` is read back from its bytes,
and bytes are the spelling of the number read from them. A row of nodes is the encodings of the
nodes one after the other.

`bind_eq_ok` and `bind_eq_error` open a reader that is put together from others.
-/

namespace StarlarkCode

namespace Wire

/-! ## Numbers -/

@[simp] theorem length_littleEndian (width n : Nat) : (littleEndian width n).length = width := by
  induction width generalizing n with
  | zero => rfl
  | succ width ih => rw [littleEndian, List.length_cons, ih]

@[simp] theorem length_variant (index : Nat) : (variant index).length = variantWidth :=
  length_littleEndian variantWidth index

/-- Bytes stand for a number that fits into them. -/
theorem ofLittleEndian_lt (bytes : List UInt8) : ofLittleEndian bytes < 256 ^ bytes.length := by
  induction bytes with
  | nil => decide
  | cons b bytes ih =>
    have digit := b.toNat_lt
    rw [ofLittleEndian, List.length_cons, Nat.pow_succ]
    omega

/-- A number is read back from its digits when there are enough of them. -/
theorem ofLittleEndian_littleEndian {width n : Nat} (small : n < 256 ^ width) :
    ofLittleEndian (littleEndian width n) = n := by
  induction width generalizing n with
  | zero =>
    rw [Nat.pow_zero, Nat.lt_one_iff] at small
    rw [small]
    rfl
  | succ width ih =>
    have rest : n / 256 < 256 ^ width := by
      rw [Nat.pow_succ] at small
      exact Nat.div_lt_of_lt_mul (by omega)
    have digit : (UInt8.ofNat n).toNat = n % 256 := UInt8.toNat_ofNat'
    rw [littleEndian, ofLittleEndian, ih rest, digit]
    omega

/-- Bytes are the digits of the number they spell. -/
theorem littleEndian_ofLittleEndian (bytes : List UInt8) :
    littleEndian bytes.length (ofLittleEndian bytes) = bytes := by
  induction bytes with
  | nil => rfl
  | cons b bytes ih =>
    have bound := b.toNat_lt
    have digit : UInt8.ofNat (b.toNat + 256 * ofLittleEndian bytes) = b := by
      apply UInt8.toNat_inj.mp
      rw [UInt8.toNat_ofNat']
      omega
    have rest : (b.toNat + 256 * ofLittleEndian bytes) / 256 = ofLittleEndian bytes := by omega
    rw [List.length_cons, ofLittleEndian, littleEndian, digit, rest, ih]

/-! ## Readers -/

variable {α β : Type}

/-- A reader made of two succeeds when the first does and the second does on what it leaves. -/
theorem bind_eq_ok {first : Decoder α} {next : α → Decoder β} {bytes rest : List UInt8} {b : β} :
    (first >>= next) bytes = .ok (b, rest) ↔
      ∃ a left, first bytes = .ok (a, left) ∧ next a left = .ok (b, rest) := by
  show (first bytes >>= fun read => next read.1 read.2) = _ ↔ _
  cases first bytes with
  | error e =>
    constructor
    · intro failed
      cases failed
    · rintro ⟨a, left, failed, -⟩
      cases failed
  | ok read =>
    constructor
    · exact fun whole => ⟨read.1, read.2, rfl, whole⟩
    · rintro ⟨a, left, same, whole⟩
      cases same
      exact whole

/-- A reader made of two fails when the first does, or the second on what the first leaves. -/
theorem bind_eq_error {first : Decoder α} {next : α → Decoder β} {bytes : List UInt8}
    {e : WireError} :
    (first >>= next) bytes = .error e ↔
      first bytes = .error e ∨ ∃ a left, first bytes = .ok (a, left) ∧ next a left = .error e := by
  show (first bytes >>= fun read => next read.1 read.2) = _ ↔ _
  cases first bytes with
  | error e' =>
    constructor
    · intro failed
      cases failed
      exact .inl rfl
    · rintro (failed | ⟨a, left, read, -⟩)
      · cases failed
        rfl
      · cases read
  | ok read =>
    constructor
    · exact fun failed => .inr ⟨read.1, read.2, rfl, failed⟩
    · rintro (failed | ⟨a, left, same, failed⟩)
      · cases failed
      · cases same
        exact failed

/-- Splitting takes the bytes at the front. -/
theorem splitExact_append (first rest : List UInt8) :
    splitExact first.length (first ++ rest) = some (first, rest) := by
  induction first with
  | nil => rfl
  | cons b first ih => rw [List.length_cons, List.cons_append, splitExact, ih, Option.map_some]

/-- Splitting loses no byte. -/
theorem eq_append_of_splitExact {n : Nat} {bytes first rest : List UInt8}
    (h : splitExact n bytes = some (first, rest)) : first.length = n ∧ bytes = first ++ rest := by
  fun_induction splitExact n bytes generalizing first with
  | case1 bytes =>
    cases h
    exact ⟨rfl, rfl⟩
  | case2 => cases h
  | case3 n b bytes ih =>
    obtain ⟨⟨inner, left⟩, split, same⟩ := Option.map_eq_some_iff.mp h
    cases same
    obtain ⟨length, rfl⟩ := ih split
    exact ⟨by rw [List.length_cons, length], rfl⟩

end Wire

/-! ## Rows of nodes -/

/-- Expressions are encoded in a row. -/
theorem Expr.encodeAll_eq_flatMap (es : List Expr) :
    Expr.encodeAll es = es.flatMap Expr.encode := by
  induction es with
  | nil => rfl
  | cons e es ih => rw [Expr.encodeAll, ih, List.flatMap_cons]

/-- Arguments are encoded in a row. -/
theorem Arg.encodeAll_eq_flatMap (as : List Arg) : Arg.encodeAll as = as.flatMap Arg.encode := by
  induction as with
  | nil => rfl
  | cons a as ih => rw [Arg.encodeAll, ih, List.flatMap_cons]

/-- Entries are encoded in a row. -/
theorem Entry.encodeAll_eq_flatMap (es : List Entry) :
    Entry.encodeAll es = es.flatMap Entry.encode := by
  induction es with
  | nil => rfl
  | cons e es ih => rw [Entry.encodeAll, ih, List.flatMap_cons]

/-- Clauses are encoded in a row. -/
theorem Clause.encodeAll_eq_flatMap (cs : List Clause) :
    Clause.encodeAll cs = cs.flatMap Clause.encode := by
  induction cs with
  | nil => rfl
  | cons c cs ih => rw [Clause.encodeAll, ih, List.flatMap_cons]

/-- A receiver is encoded as an option. -/
theorem Expr.encodeReceiver_eq (receiver : Option Expr) :
    Expr.encodeReceiver receiver = Wire.encodeOption Expr.encode receiver := by
  cases receiver <;> rfl

end StarlarkCode
