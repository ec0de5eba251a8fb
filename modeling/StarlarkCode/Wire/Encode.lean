import StarlarkCode.Node
import StarlarkCode.Wire.Decoder

/-!
# The wire format: encoding trees

As bincode 1 has it, each node is written as its fields in the order of their declaration, after the
index of its variant where its type has several; variants are numbered from 0 in the order of their
declaration. Strings, lists and options are written as `Wire.Decoder` says.
-/

namespace StarlarkCode

open Wire

/-! ## Leaves -/

/-- The index of a value kind. -/
def ValueKind.index : ValueKind → Nat
  | .string => 0
  | .number => 1
  | .boolean => 2
  | .list => 3
  | .dictionary => 4
  | .tuple => 5
  | .any => 6

/-- The index of an operator. -/
def BinaryOp.index : BinaryOp → Nat
  | .plus => 0
  | .percent => 1

/-- The index of a kind of file. -/
def FileKind.index : FileKind → Nat
  | .workspace => 0
  | .build => 1
  | .bzl => 2
  | .star => 3

/-- A reference: name and kind. -/
def Reference.encode (r : Reference) : List UInt8 :=
  encodeString r.name ++ variant r.kind.index

/-- The bounds of a slice. -/
def Bounds.encode (b : Bounds) : List UInt8 :=
  encodeOption encodeInt b.start ++ encodeOption encodeInt b.stop ++ encodeOption encodeInt b.step

/-! ## Expressions -/

mutual

/-- The bytes of an expression. -/
def Expr.encode : Expr → List UInt8
  | .string value => variant 0 ++ encodeString value
  | .integer value => variant 1 ++ encodeInt value
  | .float value => variant 2 ++ encodeWord value.bits
  | .boolean value => variant 3 ++ encodeBool value
  | .none => variant 4
  | .reference target => variant 5 ++ target.encode
  | .call receiver name args =>
    variant 6 ++ encodeString name ++ Expr.encodeReceiver receiver
      ++ encodeCount args.length ++ Arg.encodeAll args
  | .binary kind left op right =>
    variant 7 ++ variant kind.index ++ left.encode ++ variant op.index ++ right.encode
  | .comprehension body clauses =>
    variant 8 ++ body.encode ++ encodeCount clauses.length ++ Clause.encodeAll clauses
  | .slice receiver bounds => variant 9 ++ receiver.encode ++ bounds.encode
  | .list items => variant 10 ++ encodeCount items.length ++ Expr.encodeAll items
  | .tuple items => variant 11 ++ encodeCount items.length ++ Expr.encodeAll items
  | .dictionary entries => variant 12 ++ encodeCount entries.length ++ Entry.encodeAll entries
  | .raw s => variant 13 ++ encodeString s

/-- The bytes of an optional receiver. -/
def Expr.encodeReceiver : Option Expr → List UInt8
  | Option.none => [0]
  | some e => 1 :: e.encode

def Expr.encodeAll : List Expr → List UInt8
  | [] => []
  | e :: es => e.encode ++ Expr.encodeAll es

/-- The bytes of an argument. -/
def Arg.encode : Arg → List UInt8
  | ⟨name, value⟩ => encodeOption encodeString name ++ value.encode

def Arg.encodeAll : List Arg → List UInt8
  | [] => []
  | a :: as => a.encode ++ Arg.encodeAll as

/-- The bytes of an entry. -/
def Entry.encode : Entry → List UInt8
  | ⟨key, value⟩ => key.encode ++ value.encode

def Entry.encodeAll : List Entry → List UInt8
  | [] => []
  | e :: es => e.encode ++ Entry.encodeAll es

/-- The bytes of a comprehension's body. -/
def Body.encode : Body → List UInt8
  | .element value => variant 0 ++ value.encode
  | .entry e => variant 1 ++ e.encode

/-- The bytes of a clause. -/
def Clause.encode : Clause → List UInt8
  | .loop targets iterable =>
    variant 0 ++ encodeCount targets.length ++ Expr.encodeAll targets ++ iterable.encode
  | .guard condition => variant 1 ++ condition.encode

def Clause.encodeAll : List Clause → List UInt8
  | [] => []
  | c :: cs => c.encode ++ Clause.encodeAll cs

end

/-- The fields of an expression without the index of its variant, for a reader who knows which
construct to expect. -/
def Expr.encodeFields (e : Expr) : List UInt8 :=
  e.encode.drop variantWidth

/-! ## Statements and files -/

/-- The bytes of a symbol. -/
def Symbol.encode (s : Symbol) : List UInt8 :=
  encodeString s.name ++ encodeOption encodeString s.localName

/-- The bytes of a load. -/
def Load.encode (l : Load) : List UInt8 :=
  encodeString l.file ++ encodeList Symbol.encode l.symbols

/-- The bytes of a statement. -/
def Statement.encode : Statement → List UInt8
  | .expression value => variant 0 ++ value.encode
  | .assignment name value => variant 1 ++ encodeString name ++ value.encode
  | .load imported => variant 2 ++ imported.encode
  | .raw s => variant 3 ++ encodeString s
  | .emptyLine => variant 4
  | .comment s => variant 5 ++ encodeString s

/-- The fields of a statement without the index of its variant. -/
def Statement.encodeFields (s : Statement) : List UInt8 :=
  s.encode.drop variantWidth

/-- The bytes of a file: kind, name and statements. -/
def File.encode (f : File) : List UInt8 :=
  variant f.kind.index ++ encodeString f.name ++ encodeList Statement.encode f.statements

/-- The bytes of a node. -/
def Node.encode : Node → List UInt8
  | .file f => f.encode
  | .statement s => s.encode
  | .expression e => e.encode
  | .clause c => c.encode
  | .argument a => a.encode
  | .symbol s => s.encode

end StarlarkCode
