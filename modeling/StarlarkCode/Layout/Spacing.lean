import StarlarkCode.Statement

/-!
# Blank lines between statements

Which neighbouring statements of a file get a blank line between them. Statements of one construct
form a group, except that calls and assignments stand apart; a comment belongs to what follows it,
and where an empty line is asked for, it is the only one.
-/

namespace StarlarkCode

namespace Statement

/-- Empty lines and comments bring their own spacing. -/
def isSpacing : Statement → Bool
  | .emptyLine => true
  | .comment _ => true
  | _ => false

/-- A blank line goes between a statement and the one before it. Two expressions are separated when
the second is a call, two assignments always, and otherwise statements of different constructs. -/
def wantsBlankLine (previous current : Statement) : Bool :=
  if previous.isSpacing || current.isSpacing then false
  else match previous, current with
    | .expression _, .expression value => value.construct == .call
    | .assignment _ _, .assignment _ _ => true
    | _, _ => previous.construct != current.construct

/-- A blank line goes before a statement; none before the first. -/
def wantsBlankLineAfter (previous : Option Statement) (current : Statement) : Bool :=
  previous.any (·.wantsBlankLine current)

end Statement

end StarlarkCode
