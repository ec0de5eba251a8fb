import StarlarkCode.Wire.Encode

/-!
# The wire format: decoding trees

The readers of trees from bincode 1, each the inverse of the encoding of its type: variants by their
index, fields in the order of their declaration. The reader of expressions is built layer by layer:
`Expr.decoderOver` reads one node with a given reader for the expressions inside it, and
`Expr.decoderWithin` puts as many layers on top of each other as it is given. A node takes up bytes
of its own before those of its parts, so there are never more layers than bytes, and `Expr.decoder`
takes that many: where the layers end, so do the bytes.
-/

namespace StarlarkCode

open Wire

/-! ## Leaves -/

/-- The value kind with an index. -/
def ValueKind.ofIndex? : Nat → Option ValueKind
  | 0 => some .string
  | 1 => some .number
  | 2 => some .boolean
  | 3 => some .list
  | 4 => some .dictionary
  | 5 => some .tuple
  | 6 => some .any
  | _ => none

/-- The operator with an index. -/
def BinaryOp.ofIndex? : Nat → Option BinaryOp
  | 0 => some .plus
  | 1 => some .percent
  | _ => none

/-- The kind of file with an index. -/
def FileKind.ofIndex? : Nat → Option FileKind
  | 0 => some .workspace
  | 1 => some .build
  | 2 => some .bzl
  | 3 => some .star
  | _ => none

/-- Reads a reference. -/
def Reference.decoder : Decoder Reference := do
  let name ← readString
  let kind ← readEnumerated ValueKind.ofIndex?
  return ⟨name, kind⟩

/-- Reads the bounds of a slice. -/
def Bounds.decoder : Decoder Bounds := do
  let start ← readOption readInt
  let stop ← readOption readInt
  let step ← readOption readInt
  return ⟨start, stop, step⟩

/-! ## Expressions -/

/-- Reads an argument. -/
def Arg.decoderOver (expr : Decoder Expr) : Decoder Arg := do
  let name ← readOption readString
  let value ← expr
  return ⟨name, value⟩

/-- Reads an entry. -/
def Entry.decoderOver (expr : Decoder Expr) : Decoder Entry := do
  let key ← expr
  let value ← expr
  return ⟨key, value⟩

/-- Reads the body of a comprehension. -/
def Body.decoderOver (expr : Decoder Expr) : Decoder Body := do
  match ← readVariant with
  | 0 => return .element (← expr)
  | 1 => return .entry (← Entry.decoderOver expr)
  | _ => throw .unknownVariant

/-- Reads a clause. -/
def Clause.decoderOver (expr : Decoder Expr) : Decoder Clause := do
  match ← readVariant with
  | 0 =>
    let targets ← readList expr
    let iterable ← expr
    return .loop targets iterable
  | 1 => return .guard (← expr)
  | _ => throw .unknownVariant

/-- Reads an expression whose parts are read by `expr`. -/
def Expr.decoderOver (expr : Decoder Expr) : Decoder Expr := do
  match ← readVariant with
  | 0 => return .string (← readString)
  | 1 => return .integer (← readInt)
  | 2 => return .float ⟨← readWord⟩
  | 3 => return .boolean (← readBool)
  | 4 => return .none
  | 5 => return .reference (← Reference.decoder)
  | 6 =>
    let name ← readString
    let receiver ← readOption expr
    let args ← readList (Arg.decoderOver expr)
    return .call receiver name args
  | 7 =>
    let kind ← readEnumerated ValueKind.ofIndex?
    let left ← expr
    let op ← readEnumerated BinaryOp.ofIndex?
    let right ← expr
    return .binary kind left op right
  | 8 =>
    let body ← Body.decoderOver expr
    let clauses ← readList (Clause.decoderOver expr)
    return .comprehension body clauses
  | 9 =>
    let receiver ← expr
    let bounds ← Bounds.decoder
    return .slice receiver bounds
  | 10 => return .list (← readList expr)
  | 11 => return .tuple (← readList expr)
  | 12 => return .dictionary (← readList (Entry.decoderOver expr))
  | 13 => return .raw (← readString)
  | _ => throw .unknownVariant

/-- Reads an expression of at most that many layers. -/
def Expr.decoderWithin : Nat → Decoder Expr
  | 0, _ => .error .endOfInput
  | layers + 1, bytes => Expr.decoderOver (Expr.decoderWithin layers) bytes

/-- Reads an expression. -/
def Expr.decoder : Decoder Expr := fun bytes =>
  Expr.decoderWithin bytes.length bytes

/-- Reads an argument. -/
def Arg.decoder : Decoder Arg :=
  Arg.decoderOver Expr.decoder

/-- Reads a clause. -/
def Clause.decoder : Decoder Clause :=
  Clause.decoderOver Expr.decoder

/-! ## Statements and files -/

/-- Reads a symbol. -/
def Symbol.decoder : Decoder Symbol := do
  let name ← readString
  let localName ← readOption readString
  return ⟨name, localName⟩

/-- Reads a load. -/
def Load.decoder : Decoder Load := do
  let file ← readString
  let symbols ← readList Symbol.decoder
  return ⟨file, symbols⟩

/-- Reads a statement. -/
def Statement.decoder : Decoder Statement := do
  match ← readVariant with
  | 0 => return .expression (← Expr.decoder)
  | 1 =>
    let name ← readString
    let value ← Expr.decoder
    return .assignment name value
  | 2 => return .load (← Load.decoder)
  | 3 => return .raw (← readString)
  | 4 => return .emptyLine
  | 5 => return .comment (← readString)
  | _ => throw .unknownVariant

/-- Reads a file. Its name is taken as it is. -/
def File.decoder : Decoder File := do
  let kind ← readEnumerated FileKind.ofIndex?
  let name ← readString
  let statements ← readList Statement.decoder
  return ⟨kind, name, statements⟩

end StarlarkCode
