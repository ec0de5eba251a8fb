import StarlarkCode.Statement
import StarlarkCode.Text.Suffix

/-!
# Files

A file is its kind, its name and its statements. Workspace and build files have fixed names, with or
without the extension `.bazel`; the name of a module is completed by the suffix of its kind where it
does not already end in it.
-/

namespace StarlarkCode

/-- The kinds of files. -/
inductive FileKind where
  | workspace
  | build
  | bzl
  | star
deriving DecidableEq, Repr

/-- A file of statements. -/
structure File where
  kind : FileKind
  name : String
  statements : List Statement

namespace File

/-- The name of a file that may carry the extension `.bazel`. -/
def extendedName (base : String) (extended : Bool) : String :=
  if extended then base ++ ".bazel" else base

/-- A workspace file. -/
def workspace (extended : Bool) (statements : List Statement) : File :=
  ⟨.workspace, extendedName "WORKSPACE" extended, statements⟩

/-- A build file. -/
def build (extended : Bool) (statements : List Statement) : File :=
  ⟨.build, extendedName "BUILD" extended, statements⟩

/-- A module whose name ends in `.bzl`. -/
def bzl (name : String) (statements : List Statement) : File :=
  ⟨.bzl, Text.withSuffix name ".bzl", statements⟩

/-- A module whose name ends in `.star`. -/
def star (name : String) (statements : List Statement) : File :=
  ⟨.star, Text.withSuffix name ".star", statements⟩

/-- Two files have the same kind, name and statements. -/
instance : BEq File :=
  ⟨fun a b => a.kind == b.kind && a.name == b.name && a.statements == b.statements⟩

end File

end StarlarkCode
