/-!
# Kinds

The two classifications of a tree. A value kind says what type of value an expression is declared or
known to have; a construct says what a node is, and is what an error names.
-/

namespace StarlarkCode

/-- The type of an expression's value, as far as it is known without running the code. -/
inductive ValueKind where
  | string
  | number
  | boolean
  | list
  | dictionary
  | tuple
  | any
deriving DecidableEq, Hashable, Repr

/-- The name of a value kind. -/
def ValueKind.text : ValueKind → String
  | .string => "string"
  | .number => "number"
  | .boolean => "bool"
  | .list => "list"
  | .dictionary => "dict"
  | .tuple => "tuple"
  | .any => "any"

/-- What a comprehension builds. -/
inductive ComprehensionKind where
  | list
  | dictionary
deriving DecidableEq, Repr

/-- The kind of value that a comprehension builds. -/
def ComprehensionKind.valueKind : ComprehensionKind → ValueKind
  | .list => .list
  | .dictionary => .dictionary

/-- The bracket that opens a comprehension. -/
def ComprehensionKind.opening : ComprehensionKind → String
  | .list => "["
  | .dictionary => "\x7b"

/-- The bracket that closes a comprehension. -/
def ComprehensionKind.closing : ComprehensionKind → String
  | .list => "]"
  | .dictionary => "\x7d"

/-- The construct that a node of a tree is. -/
inductive Construct where
  | file
  | expressionStatement
  | assignment
  | load
  | symbol
  | rawStatement
  | emptyLine
  | comment
  | string
  | integer
  | float
  | boolean
  | none
  | reference
  | call
  | argument
  | binary
  | comprehension (kind : ComprehensionKind)
  | forClause
  | ifClause
  | slice
  | list
  | tuple
  | dictionary
  | rawText
deriving DecidableEq, Repr

/-- The name of a construct, as error messages give it. -/
def Construct.text : Construct → String
  | .file => "file"
  | .expressionStatement => "expression statement"
  | .assignment => "assignment"
  | .load => "load statement"
  | .symbol => "load symbol"
  | .rawStatement => "raw statement"
  | .emptyLine => "empty line"
  | .comment => "comment"
  | .string => "string literal"
  | .integer => "integer literal"
  | .float => "float literal"
  | .boolean => "boolean literal"
  | .none => "None"
  | .reference => "reference"
  | .call => "function call"
  | .argument => "argument"
  | .binary => "binary operation"
  | .comprehension .list => "list comprehension"
  | .comprehension .dictionary => "dictionary comprehension"
  | .forClause => "`for` clause"
  | .ifClause => "`if` clause"
  | .slice => "slice"
  | .list => "list"
  | .tuple => "tuple"
  | .dictionary => "dictionary"
  | .rawText => "raw text"

end StarlarkCode
