import StarlarkCode.Expr

/-!
# What fits on a line

The rules that choose a layout. They count items and look at their form; the width of the text plays
no part. A collection or call with at most one item stays on its line, and so does one with at most
five items that are all simple. A comprehension is broken up when what it computes is itself an
operation, a comprehension or a call.
-/

namespace StarlarkCode

/-- The number of items, and the length of a name, up to which a line is short. -/
def shortLimit : Nat := 5

/-- At most one item. -/
def atMostOne (count : Nat) : Bool :=
  count ≤ 1

/-- Few enough items for one line, if they are simple. -/
def isShort (count : Nat) : Bool :=
  count ≤ shortLimit

namespace Expr

/-- A number, a boolean or a short name. -/
def isSimple : Expr → Bool
  | .integer _ => true
  | .float _ => true
  | .boolean _ => true
  | .reference target => isShort target.name.length
  | _ => false

/-- An operation, a comprehension or a call. -/
def isCompound : Expr → Bool
  | .binary _ _ _ _ => true
  | .comprehension _ _ => true
  | .call _ _ _ => true
  | _ => false

end Expr

/-- An entry of which both parts are simple. -/
def Entry.isSimple (e : Entry) : Bool :=
  e.key.isSimple && e.value.isSimple

/-- Items stay on one line: at most one of them, or few and all simple. -/
def fitsBy {α : Type} (isSimple : α → Bool) (items : List α) : Bool :=
  atMostOne items.length || (isShort items.length && items.all isSimple)

/-- The items of a list or tuple stay on one line. -/
def itemsFit (items : List Expr) : Bool :=
  fitsBy Expr.isSimple items

/-- The entries of a dictionary stay on one line. -/
def entriesFit (entries : List Entry) : Bool :=
  fitsBy Entry.isSimple entries

/-- The arguments of a call stay on one line; names do not count. -/
def argsFit (args : List Arg) : Bool :=
  fitsBy (·.value.isSimple) args

/-- A comprehension with this body is broken up over several lines. -/
def Body.breaks : Body → Bool
  | .element value => value.isCompound
  | .entry e => e.value.isCompound

end StarlarkCode
