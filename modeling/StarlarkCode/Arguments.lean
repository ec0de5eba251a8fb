import StarlarkCode.Expr
import StarlarkCode.Text.Blank

/-!
# Accumulated arguments

The arguments of a call under construction, in the order in which they first appeared, with an index
from names to slots. A name occurs once: what is added under a name already present is joined to the
value in its slot, so that `deps = ["x"]` followed by `deps = ["y"]` is `deps = ["x"] + ["y"]`.
Under a blank name, and by `push`, a positional argument is added, to which no name leads.

The index is exact by construction: it gives a slot under a name precisely when the argument in the
slot has the name (`Indexes`). So the slot of a name is never out of bounds, and every operation
comes with the proof that its index is exact again.
-/

namespace StarlarkCode

/-- The index gives a slot under a name precisely when the name stands there. -/
def Indexes (index : List (String × Nat)) (names : List (Option String)) : Prop :=
  ∀ name slot, index.lookup name = some slot ↔ names[slot]? = some (some name)

namespace Indexes

variable {index : List (String × Nat)} {names : List (Option String)}

/-- An argument without a name, at the end, is not indexed. -/
theorem concat_none (h : Indexes index names) : Indexes index (names ++ [none]) := by
  intro name slot
  rw [h]
  grind

/-- A new name, at the end, is indexed with the slot behind the others. -/
theorem concat_some (h : Indexes index names) {name : String}
    (absent : index.lookup name = none) :
    Indexes ((name, names.length) :: index) (names ++ [some name]) := by
  intro other slot
  rw [List.lookup_cons]
  split
  next same =>
    rw [beq_iff_eq] at same
    subst other
    have unnamed : names[slot]? ≠ some (some name) := by
      rw [ne_eq, ← h, absent]
      nofun
    grind
  next apart =>
    rw [h]
    grind

end Indexes

/-- Arguments in order of first appearance, and the slot of every name among them. -/
structure Arguments where
  args : List Arg
  index : List (String × Nat)
  indexed : Indexes index (args.map Arg.name)

namespace Arguments

/-- No arguments. -/
def empty : Arguments :=
  ⟨[], [], fun _ _ => by simp⟩

/-- The number of arguments. -/
def size (s : Arguments) : Nat :=
  s.args.length

/-- There are no arguments. -/
def isEmpty (s : Arguments) : Bool :=
  s.args.isEmpty

/-- What the index gives is the slot of an argument. -/
theorem slot_lt (s : Arguments) {name : String} {slot : Nat}
    (found : s.index.lookup name = some slot) : slot < s.args.length := by
  obtain ⟨bound, -⟩ := List.getElem?_eq_some_iff.mp ((s.indexed name slot).mp found)
  rwa [List.length_map] at bound

/-- The slot of a name. -/
def slot? (s : Arguments) (name : String) : Option (Fin s.args.length) :=
  match found : s.index.lookup name with
  | some slot => some ⟨slot, s.slot_lt found⟩
  | none => none

theorem lookup_of_slot?_eq_none {s : Arguments} {name : String} (h : s.slot? name = none) :
    s.index.lookup name = none := by
  rw [slot?] at h
  split at h
  · cases h
  · assumption

/-- The argument with a name. -/
def get? (s : Arguments) (name : String) : Option Arg :=
  (s.slot? name).map s.args.get

/-- There is an argument with the name. -/
def contains (s : Arguments) (name : String) : Bool :=
  (s.index.lookup name).isSome

/-- Adds a positional argument at the end. -/
def push (s : Arguments) (value : Expr) : Arguments where
  args := s.args ++ [.positional value]
  index := s.index
  indexed := by
    rw [List.map_append]
    exact s.indexed.concat_none

/-- Joins a value to the one in a slot, where the argument stays under its name. -/
def join (s : Arguments) (slot : Fin s.args.length) (value : Expr) : Arguments where
  args := s.args.set slot ⟨(s.args.get slot).name, (s.args.get slot).value.operation .plus value⟩
  index := s.index
  indexed := by
    have names : (s.args.map Arg.name).set slot (s.args.get slot).name = s.args.map Arg.name := by
      have bound : slot.val < (s.args.map Arg.name).length := by simp
      have kept := List.set_getElem_self bound
      rwa [List.getElem_map] at kept
    rw [List.map_set, names]
    exact s.indexed

/-- Adds an argument at the end, under a name that is new. -/
def enter (s : Arguments) (name : String) (value : Expr) (absent : s.index.lookup name = none) :
    Arguments where
  args := s.args ++ [⟨some name, value⟩]
  index := (name, s.args.length) :: s.index
  indexed := by
    have indexed := s.indexed.concat_some absent
    rw [List.length_map] at indexed
    rwa [List.map_append]

/-- The arguments, and the one in a slot. -/
def readAt (s : Arguments) (slot : Fin s.args.length) : Arguments × Arg :=
  (s, s.args.get slot)

/-- Adds a value under a name: as a positional argument when the name is blank, onto the value in
its slot when the name is present, and as a new argument otherwise. Gives back the argument as it is
then stored. -/
def add (s : Arguments) (name : String) (value : Expr) : Arguments × Arg :=
  if Text.isBlank name then
    (s.push value).readAt ⟨s.args.length, by simp [push]⟩
  else match found : s.slot? name with
    | some slot => (s.join slot value).readAt ⟨slot, by simp [join]⟩
    | none =>
      (s.enter name value (lookup_of_slot?_eq_none found)).readAt ⟨s.args.length, by simp [enter]⟩

/-- The values added under their names, one after the other. -/
def ofList (pairs : List (String × Expr)) : Arguments :=
  pairs.foldl (fun s (name, value) => (s.add name value).1) empty

end Arguments

end StarlarkCode
