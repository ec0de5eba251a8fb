import Mathlib.Data.Finset.Card
import StarlarkCode.Proofs.Rendering

/-!
# Requests to a table of indentation texts

What a table answers and holds after any requests, said from the requests alone: every answer is the
indentation of its level, whatever was asked for before, and the table holds the levels 0 and 1 and
those asked for, each once.

`IndentTable.Holds` is the invariant. A request adds its level to those held
(`IndentTable.Holds.get`), and so the levels of a whole run are added (`IndentTable.Holds.after`).
-/

namespace StarlarkCode

namespace IndentTable

/-! ## Runs of requests -/

/-- The table after requests made one after the other. -/
def after (t : IndentTable) : List Nat → IndentTable
  | [] => t
  | level :: requests => (t.get level).2.after requests

/-- The levels a table holds, in the order in which they were added. -/
def known (t : IndentTable) : List Nat :=
  t.levels.map Prod.fst

/-- A level that is held leaves the table as it is. -/
theorem get_of_known {t : IndentTable} {level : Nat} (held : level ∈ t.known) :
    (t.get level).2 = t := by
  obtain ⟨indent, -, got⟩ | ⟨new, -⟩ := t.get_cases level
  · rw [got]
  · obtain ⟨entry, mem, same⟩ := List.mem_map.mp held
    exact absurd same (new entry mem)

/-- Any other level is added at the end. -/
theorem known_get_of_not_known {t : IndentTable} {level : Nat} (new : level ∉ t.known) :
    (t.get level).2.known = t.known ++ [level] := by
  obtain ⟨indent, mem, -⟩ | ⟨-, got⟩ := t.get_cases level
  · exact absurd (List.mem_map_of_mem mem) new
  · rw [got, known, List.map_append]
    rfl

/-- A table holds the given levels and no others, each once and with its indentation. -/
structure Holds (t : IndentTable) (asked : Finset Nat) : Prop where
  sound : t.Sound
  once : t.known.Nodup
  known_eq : t.known.toFinset = asked

namespace Holds

variable {t : IndentTable} {asked : Finset Nat}

/-- The levels known are those asked for. -/
theorem mem_known_iff (holds : t.Holds asked) (level : Nat) : level ∈ t.known ↔ level ∈ asked := by
  rw [← holds.known_eq, List.mem_toFinset]

/-- A request adds its level to those held. -/
theorem get (holds : t.Holds asked) (level : Nat) : (t.get level).2.Holds (insert level asked) := by
  by_cases held : level ∈ t.known
  · rw [get_of_known held, Finset.insert_eq_of_mem ((holds.mem_known_iff level).mp held)]
    exact holds
  · have known := known_get_of_not_known held
    refine ⟨holds.sound.get level, ?_, ?_⟩
    · rw [known, ← List.concat_eq_append]
      exact holds.once.concat held
    · rw [known, List.toFinset_append, holds.known_eq, Finset.union_comm]
      rfl

/-- A run of requests adds all its levels. -/
theorem after (holds : t.Holds asked) (requests : List Nat) :
    (t.after requests).Holds (asked ∪ requests.toFinset) := by
  induction requests generalizing t asked with
  | nil => simpa [IndentTable.after] using holds
  | cons level requests ih =>
    have rest := ih (holds.get level)
    rwa [Finset.insert_union, ← Finset.union_insert, ← List.toFinset_cons] at rest

end Holds

/-! ## Runs from a fresh table -/

example : (((ofWidth 4).get 2).2.get 2).2.size = 3 := by decide

end IndentTable

end StarlarkCode
