import Mathlib.Data.List.Induction
import StarlarkCode.Arguments

/-!
# Arguments from a history of additions

What a collection of arguments holds, said from the additions made to it and not from one addition
to the next. Every addition opens an argument of its own, except one under a name that was used
before; that one joins the argument opened first under the name. An argument with a name holds all
values added under it, summed from the left in the order of the additions, and each sum is of the
kind of the first value.

`Arguments.Holds` is the invariant: the arguments are those of the history. `Arguments.add_cases`
says all that an addition can do, in terms of slots; from it an addition keeps the invariant
(`Arguments.Holds.put`), and so it holds after any history. A name keeps its slot however many
additions follow (`Arguments.lookup_put`).
-/

namespace StarlarkCode

/-! ## Histories -/

/-- A value added to the arguments of a call, under a name or as a positional argument. -/
inductive Addition where
  | named (name : String) (value : Expr)
  | positional (value : Expr)

namespace Addition

/-- The value that is added. -/
def value : Addition → Expr
  | .named _ value => value
  | .positional value => value

/-- The name of the argument that the value goes to; a blank name is none. -/
def name? : Addition → Option String
  | .named name _ => if Text.isBlank name then none else some name
  | .positional _ => none

/-- The value, if it is added under the given name. -/
def valueUnder? (name : String) : Addition → Option Expr
  | .named other value => if other = name then some value else none
  | .positional _ => none

/-- The addition goes to an argument with a name, the one that the other goes to. -/
def joins (a b : Addition) : Bool :=
  a.name?.isSome && a.name? == b.name?

/-- The additions of a history that open an argument: of those that go to one argument the first. -/
def openings (history : List Addition) : List Addition :=
  history.eraseDupsBy joins

/-- The values that a history adds under a name, in order. -/
def valuesUnder (name : String) (history : List Addition) : List Expr :=
  history.filterMap (valueUnder? name)

end Addition

/-- Values joined by `+` from the left, of which there is at least one in every argument. Each sum
has the kind of the first value. -/
def Expr.leftSum : List Expr → Expr
  | [] => .none
  | first :: others =>
    others.foldl (fun sum value => .binary first.valueKind sum .plus value) first

open Addition

/-- The argument that an addition goes to, as it is after a history. -/
def Addition.argument (history : List Addition) (a : Addition) : Arg :=
  match a.name? with
  | some name => ⟨some name, .leftSum (valuesUnder name history)⟩
  | none => .positional a.value

namespace Arguments

/-- Makes an addition. -/
def put (s : Arguments) : Addition → Arguments
  | .named name value => (s.add name value).1
  | .positional value => s.push value

/-- The arguments after a history of additions. -/
def ofHistory (history : List Addition) : Arguments :=
  history.foldl put empty

/-- The arguments are those of the history. -/
def Holds (s : Arguments) (history : List Addition) : Prop :=
  s.args = (openings history).map (argument history)

end Arguments

/-! ## Sums -/

namespace Expr

/-- A sum to the left keeps the kind it is started with. -/
theorem valueKind_foldl_binary (kind : ValueKind) (values : List Expr) {first : Expr}
    (same : first.valueKind = kind) :
    (values.foldl (fun sum value => .binary kind sum .plus value) first).valueKind = kind := by
  induction values generalizing first with
  | nil => exact same
  | cons value values ih => exact ih rfl

/-- One more value is one more sum around what there is. -/
theorem leftSum_concat {values : List Expr} (nonempty : values ≠ []) (value : Expr) :
    leftSum (values ++ [value]) = (leftSum values).operation .plus value := by
  cases values with
  | nil => exact absurd rfl nonempty
  | cons first others =>
    rw [operation, leftSum, valueKind_foldl_binary first.valueKind others rfl, List.cons_append,
      leftSum, List.foldl_append, List.foldl_cons, List.foldl_nil]

end Expr

/-! ## One more addition -/

namespace Addition

/-- A value added under a name that is not blank goes by the name. -/
theorem name?_named {name : String} (full : Text.isBlank name = false) (value : Expr) :
    (named name value).name? = some name := by
  rw [name?, full]
  rfl

/-- A blank name counts as none. -/
theorem name?_of_isBlank {name : String} (blank : Text.isBlank name = true) (value : Expr) :
    (named name value).name? = none := by
  rw [name?, blank]
  rfl

/-- What goes to an argument with a name was added under that name, and the name is not blank. -/
theorem eq_named_of_name? {a : Addition} {name : String} (h : a.name? = some name) :
    a = .named name a.value ∧ Text.isBlank name = false := by
  cases a with
  | positional value => cases h
  | named other value =>
    cases blank : Text.isBlank other with
    | true =>
      rw [name?_of_isBlank blank] at h
      cases h
    | false =>
      rw [name?_named blank] at h
      cases h
      exact ⟨rfl, blank⟩

/-- Additions are joined to a named one when they go by its name. -/
theorem joins_iff {a b : Addition} {name : String} (h : a.name? = some name) :
    a.joins b = true ↔ b.name? = some name := by
  rw [joins, h, Option.isSome_some, Bool.true_and, beq_iff_eq]
  exact eq_comm

/-- Nothing is joined to a positional addition. -/
theorem joins_of_name?_eq_none {a : Addition} (h : a.name? = none) (b : Addition) :
    a.joins b = false := by
  rw [joins, h]
  rfl

/-- One more addition puts its value behind those under its name. -/
theorem valuesUnder_concat (name : String) (history : List Addition) (a : Addition) :
    valuesUnder name (history ++ [a]) =
      valuesUnder name history ++ (a.valueUnder? name).toList := by
  rw [valuesUnder, List.filterMap_append]
  cases h : a.valueUnder? name <;> simp [valuesUnder, h]

theorem valueUnder?_named (name : String) (value : Expr) :
    (named name value).valueUnder? name = some value :=
  if_pos rfl

/-- A name has values when something was added under it. -/
theorem valuesUnder_ne_nil_iff {name : String} {history : List Addition} :
    valuesUnder name history ≠ [] ↔ ∃ value, named name value ∈ history := by
  constructor
  · intro nonempty
    obtain ⟨value, mem⟩ := List.exists_mem_of_ne_nil _ nonempty
    obtain ⟨a, mem, under⟩ := List.mem_filterMap.mp mem
    cases a with
    | positional value => cases under
    | named other value =>
      rw [valueUnder?] at under
      split at under
      · subst other
        exact ⟨value, mem⟩
      · cases under
  · rintro ⟨value, mem⟩
    exact List.ne_nil_of_mem
      (List.mem_filterMap.mpr ⟨named name value, mem, valueUnder?_named name value⟩)

@[simp] theorem name_argument (history : List Addition) (a : Addition) :
    (a.argument history).name = a.name? := by
  rw [argument]
  cases a.name? <;> rfl

/-- A named addition makes the sum of all values under the name. -/
theorem argument_of_name? {a : Addition} {name : String} (h : a.name? = some name)
    (history : List Addition) :
    a.argument history = ⟨some name, .leftSum (valuesUnder name history)⟩ := by
  rw [argument, h]

/-- A positional addition makes an argument of its own. -/
theorem argument_of_name?_eq_none {a : Addition} (h : a.name? = none) (history : List Addition) :
    a.argument history = .positional a.value := by
  rw [argument, h]

/-- Additions that go to one argument see the same argument. -/
theorem argument_of_joins {a b : Addition} (h : a.joins b = true) (history : List Addition) :
    b.argument history = a.argument history := by
  cases key : a.name? with
  | none =>
    rw [joins_of_name?_eq_none key] at h
    cases h
  | some name => rw [argument_of_name? key, argument_of_name? ((joins_iff key).mp h)]

/-- An argument stays as it is when an addition goes elsewhere. -/
theorem argument_concat {a b : Addition} (h : a.joins b = false) (history : List Addition) :
    b.argument (history ++ [a]) = b.argument history := by
  cases key : b.name? with
  | none => rw [argument_of_name?_eq_none key, argument_of_name?_eq_none key]
  | some name =>
    obtain ⟨-, full⟩ := eq_named_of_name? key
    have elsewhere : a.valueUnder? name = none := by
      cases a with
      | positional value => rfl
      | named other value =>
        refine if_neg fun same => ?_
        subst other
        rw [(joins_iff (name?_named full value)).mpr key] at h
        cases h
    rw [argument_of_name? key, argument_of_name? key, valuesUnder_concat, elsewhere]
    simp

/-- The first value under a name is the argument's. -/
theorem argument_concat_of_unused {name : String} (full : Text.isBlank name = false)
    {history : List Addition} (unused : valuesUnder name history = []) (value : Expr) :
    (named name value).argument (history ++ [.named name value]) = ⟨some name, value⟩ := by
  rw [argument_of_name? (name?_named full value), valuesUnder_concat, valueUnder?_named, unused]
  rfl

/-- A further value under a name is added to the sum of those before it. -/
theorem argument_concat_of_used {name : String} (full : Text.isBlank name = false)
    {history : List Addition} (used : valuesUnder name history ≠ []) (value : Expr) :
    (named name value).argument (history ++ [.named name value]) =
      ⟨some name, (Expr.leftSum (valuesUnder name history)).operation .plus value⟩ := by
  rw [argument_of_name? (name?_named full value), valuesUnder_concat, valueUnder?_named,
    Option.toList_some, Expr.leftSum_concat used]

/-- An element at the end is kept unless it repeats one that was kept. -/
private theorem eraseDupsBy_loop_concat {α : Type} (r : α → α → Bool) (xs kept : List α) (x : α) :
    List.eraseDupsBy.loop r (xs ++ [x]) kept =
      if (List.eraseDupsBy.loop r xs kept).any (r x) then List.eraseDupsBy.loop r xs kept
      else List.eraseDupsBy.loop r xs kept ++ [x] := by
  induction xs generalizing kept with
  | nil =>
    rw [List.nil_append, List.eraseDupsBy.loop, List.eraseDupsBy.loop, List.any_reverse]
    cases kept.any (r x) <;> simp [List.eraseDupsBy.loop]
  | cons y xs ih =>
    rw [List.cons_append, List.eraseDupsBy.loop, List.eraseDupsBy.loop]
    cases kept.any (r y) with
    | true => exact ih kept
    | false => exact ih (y :: kept)

/-- An addition opens an argument unless it joins one that was opened before. -/
theorem openings_concat (history : List Addition) (a : Addition) :
    openings (history ++ [a]) =
      if (openings history).any a.joins then openings history else openings history ++ [a] :=
  eraseDupsBy_loop_concat joins history [] a

/-- A name has an argument when something was added under it. -/
theorem exists_opening_iff {name : String} (full : Text.isBlank name = false)
    (history : List Addition) :
    (∃ a ∈ openings history, a.name? = some name) ↔ ∃ value, named name value ∈ history := by
  -- On the last addition, since `openings_concat` says what one more addition does.
  induction history using List.reverseRecOn with
  | nil => simp [openings]
  | append_singleton history b ih =>
    rw [openings_concat]
    constructor
    · rintro ⟨a, mem, key⟩
      have origin : a ∈ openings history ∨ a = b := by
        split at mem
        · exact .inl mem
        · exact (List.mem_append.mp mem).imp_right List.mem_singleton.mp
      rcases origin with mem | rfl
      · obtain ⟨value, mem⟩ := ih.mp ⟨a, mem, key⟩
        exact ⟨value, List.mem_append_left _ mem⟩
      · obtain ⟨same, -⟩ := eq_named_of_name? key
        rw [same]
        exact ⟨a.value, List.mem_append_right _ List.mem_cons_self⟩
    · rintro ⟨value, mem⟩
      rcases List.mem_append.mp mem with mem | mem
      · obtain ⟨a, mem, key⟩ := ih.mpr ⟨value, mem⟩
        refine ⟨a, ?_, key⟩
        split
        · exact mem
        · exact List.mem_append_left _ mem
      · rw [List.mem_singleton] at mem
        subst b
        have key := name?_named full value
        split
        next repeated =>
          obtain ⟨a, mem, joins⟩ := List.any_eq_true.mp repeated
          exact ⟨a, mem, (joins_iff key).mp joins⟩
        next => exact ⟨_, List.mem_append_right _ List.mem_cons_self, key⟩

end Addition

/-! ## Slots -/

namespace Arguments

variable {s : Arguments} {name : String}

/-- A name leads to a slot precisely when the argument there has the name. -/
theorem slot?_eq_some_iff {slot : Fin s.args.length} :
    s.slot? name = some slot ↔ (s.args.get slot).name = some name := by
  have named : s.index.lookup name = some slot.val ↔ (s.args.get slot).name = some name := by
    rw [s.indexed]
    simp
  rw [← named, slot?]
  split
  next found => simp [found, Fin.ext_iff]
  next absent => simp [absent]

/-- What is found under a name is the argument with that name. -/
theorem get?_eq_some_iff {arg : Arg} :
    s.get? name = some arg ↔ arg ∈ s.args ∧ arg.name = some name := by
  rw [get?, Option.map_eq_some_iff, List.mem_iff_get]
  constructor
  · rintro ⟨slot, found, rfl⟩
    exact ⟨⟨slot, rfl⟩, slot?_eq_some_iff.mp found⟩
  · rintro ⟨⟨slot, rfl⟩, named⟩
    exact ⟨slot, slot?_eq_some_iff.mpr named, rfl⟩

/-- A name is contained when an argument is found under it. -/
theorem contains_eq (s : Arguments) (name : String) :
    s.contains name = (s.get? name).isSome := by
  rw [contains, get?, Option.isSome_map, slot?]
  split
  next found => simp [found]
  next absent => simp [absent]

/-- No two arguments are in the slot of a name. -/
theorem slot_unique {i j : Fin s.args.length} (first : (s.args.get i).name = some name)
    (second : (s.args.get j).name = some name) : i = j := by
  rw [← slot?_eq_some_iff] at first second
  exact Option.some_inj.mp (first.symm.trans second)

/-- The slot of a name is that of the first argument with the name. -/
theorem lookup_eq_findIdx? (s : Arguments) (name : String) :
    s.index.lookup name = s.args.findIdx? (·.name == some name) := by
  ext slot
  rw [s.indexed, List.findIdx?_eq_some_iff_getElem, List.getElem?_eq_some_iff]
  constructor
  · rintro ⟨bound, named⟩
    rw [List.getElem_map] at named
    rw [List.length_map] at bound
    refine ⟨bound, beq_iff_eq.mpr named, fun j before same => ?_⟩
    have eq : (⟨j, _⟩ : Fin s.args.length) = ⟨slot, bound⟩ :=
      slot_unique (beq_iff_eq.mp same) named
    exact absurd (Fin.mk.inj eq) (Nat.ne_of_lt before)
  · rintro ⟨bound, named, -⟩
    refine ⟨by rwa [List.length_map], ?_⟩
    rw [List.getElem_map]
    exact beq_iff_eq.mp named

/-- Replacing the argument in the slot of a name replaces the one with the name. -/
theorem set_slot {slot : Fin s.args.length} (named : (s.args.get slot).name = some name)
    (arg : Arg) :
    s.args.set slot arg =
      s.args.map fun other => if other.name == some name then arg else other := by
  refine List.ext_getElem (by simp) fun i inSet _ => ?_
  have bound : i < s.args.length := by simpa using inSet
  have same : slot.val = i ↔ s.args[i].name = some name := by
    constructor
    · rintro rfl
      exact named
    · intro other
      exact Fin.mk.inj (slot_unique (j := ⟨i, bound⟩) named other)
  simp only [List.getElem_set, List.getElem_map, same, beq_iff_eq]

/-- What is joined in a slot is read from there. -/
theorem get_join (slot : Fin s.args.length) (value : Expr)
    (h : slot < (s.join slot value).args.length) :
    (s.join slot value).args.get ⟨slot, h⟩ =
      ⟨(s.args.get slot).name, (s.args.get slot).value.operation .plus value⟩ := by
  simp [join]

/-- All that an addition can do, with the argument that it gives back. -/
theorem add_cases (s : Arguments) (name : String) (value : Expr) :
    (Text.isBlank name = true ∧ s.add name value = (s.push value, .positional value)) ∨
      (Text.isBlank name = false ∧ ∃ slot prior, s.args.get slot = ⟨some name, prior⟩ ∧
        s.add name value = (s.join slot value, ⟨some name, prior.operation .plus value⟩)) ∨
      (Text.isBlank name = false ∧ ∃ absent : s.index.lookup name = none,
        s.add name value = (s.enter name value absent, ⟨some name, value⟩)) := by
  rw [add]
  split
  next blank => exact .inl ⟨blank, by simp [readAt, push]⟩
  next full =>
    rw [Bool.not_eq_true] at full
    split
    next slot found =>
      have named := slot?_eq_some_iff.mp found
      cases stored : s.args.get slot with
      | mk other prior =>
        rw [stored] at named
        cases named
        refine .inr (.inl ⟨full, slot, prior, stored, ?_⟩)
        rw [readAt, get_join, stored]
    next absent =>
      exact .inr (.inr ⟨full, lookup_of_slot?_eq_none absent, by simp [readAt, enter]⟩)

/-- A name keeps its slot through every addition. -/
theorem lookup_put {slot : Nat} (found : s.index.lookup name = some slot) (a : Addition) :
    (s.put a).index.lookup name = some slot := by
  cases a with
  | positional value => exact found
  | named other value =>
    rw [put]
    rcases s.add_cases other value with ⟨-, step⟩ | ⟨-, _, _, -, step⟩ | ⟨-, absent, step⟩
    · rw [step]
      exact found
    · rw [step]
      exact found
    · have apart : (name == other) = false := by
        rw [beq_eq_false_iff_ne]
        rintro rfl
        rw [absent] at found
        cases found
      rw [step]
      show List.lookup name ((other, s.args.length) :: s.index) = some slot
      rw [List.lookup_cons, apart]
      exact found

/-- A name keeps its slot, whatever is added afterwards. -/
theorem lookup_foldl_put {slot : Nat} (found : s.index.lookup name = some slot)
    (more : List Addition) : (more.foldl put s).index.lookup name = some slot := by
  induction more generalizing s with
  | nil => exact found
  | cons a more ih => exact ih (lookup_put found a)

end Arguments

/-! ## The arguments of a history -/

namespace Arguments

variable {s : Arguments} {history : List Addition}

/-- A name that is not blank and was added under has an argument, the sum of its values. -/
theorem Holds.get?_eq_some_iff (holds : s.Holds history) {name : String} {arg : Arg} :
    s.get? name = some arg ↔ Text.isBlank name = false ∧ (∃ value, .named name value ∈ history) ∧
      arg = ⟨some name, .leftSum (valuesUnder name history)⟩ := by
  rw [Arguments.get?_eq_some_iff, holds, List.mem_map]
  constructor
  · rintro ⟨⟨a, mem, rfl⟩, named⟩
    rw [name_argument] at named
    obtain ⟨-, full⟩ := eq_named_of_name? named
    have added := (exists_opening_iff full history).mp ⟨a, mem, named⟩
    exact ⟨full, added, argument_of_name? named history⟩
  · rintro ⟨full, added, rfl⟩
    obtain ⟨a, mem, named⟩ := (exists_opening_iff full history).mpr added
    exact ⟨⟨a, mem, argument_of_name? named history⟩, rfl⟩

/-- Arguments contain a name when a value was added under it. -/
theorem Holds.contains_iff (holds : s.Holds history) {name : String} :
    s.contains name = true ↔
      Text.isBlank name = false ∧ ∃ value, .named name value ∈ history := by
  rw [contains_eq, Option.isSome_iff_exists]
  constructor
  · rintro ⟨arg, found⟩
    obtain ⟨full, added, -⟩ := holds.get?_eq_some_iff.mp found
    exact ⟨full, added⟩
  · rintro ⟨full, added⟩
    exact ⟨_, holds.get?_eq_some_iff.mpr ⟨full, added, rfl⟩⟩

/-- The slot of a name is the place at which its argument was opened. -/
theorem Holds.lookup_eq (holds : s.Holds history) (name : String) :
    s.index.lookup name = (openings history).findIdx? (·.name? == some name) := by
  rw [lookup_eq_findIdx?, holds, List.findIdx?_map]
  simp only [Function.comp_def, name_argument]

/-- An addition under a name joins an argument when the arguments contain the name. -/
theorem Holds.any_joins_iff (holds : s.Holds history) {name : String}
    (full : Text.isBlank name = false) (value : Expr) :
    (openings history).any (Addition.named name value).joins = true ↔ s.contains name = true := by
  rw [List.any_eq_true, holds.contains_iff, ← exists_opening_iff full]
  simp only [joins_iff (name?_named full value), full, true_and]

/-- An addition that joins no argument adds one at the end. -/
theorem Holds.opened (holds : s.Holds history) {a : Addition}
    (apart : (openings history).any a.joins = false) {t : Arguments}
    (args : t.args = s.args ++ [a.argument (history ++ [a])]) : t.Holds (history ++ [a]) := by
  have others : ∀ b ∈ openings history, b.argument history = b.argument (history ++ [a]) := by
    intro b mem
    rw [argument_concat (Bool.eq_false_iff.mpr (List.any_eq_false.mp apart b mem))]
  rw [Holds, openings_concat, if_neg (Bool.eq_false_iff.mp apart), List.map_append, args, holds,
    List.map_congr_left others]
  rfl

/-- An addition that goes to no argument there is opens one. -/
theorem Holds.opened_of_unnamed (holds : s.Holds history) {a : Addition} (unnamed : a.name? = none)
    {t : Arguments} (args : t.args = s.args ++ [.positional a.value]) :
    t.Holds (history ++ [a]) := by
  refine holds.opened ?_ (args.trans ?_)
  · exact List.any_eq_false.mpr fun b _ => Bool.eq_false_iff.mp (joins_of_name?_eq_none unnamed b)
  · rw [argument_of_name?_eq_none unnamed]

/-- An addition that joins an argument changes that one where it stands. -/
theorem Holds.joined (holds : s.Holds history) {a : Addition} {name : String}
    (key : a.name? = some name) (joins : (openings history).any a.joins = true) {t : Arguments}
    (args : t.args = s.args.map fun arg =>
      if arg.name == some name then a.argument (history ++ [a]) else arg) :
    t.Holds (history ++ [a]) := by
  rw [Holds, openings_concat, if_pos joins, args, holds, List.map_map]
  refine List.map_congr_left fun b _ => ?_
  simp only [Function.comp_apply, name_argument, beq_iff_eq]
  split
  next same => exact (argument_of_joins ((joins_iff key).mpr same) _).symm
  next other =>
    have apart : a.joins b = false := Bool.eq_false_iff.mpr (mt (joins_iff key).mp other)
    exact (argument_concat apart history).symm

/-- Adding under a name keeps the arguments those of the history, and gives back the argument that
the addition goes to. -/
theorem Holds.add (holds : s.Holds history) (name : String) (value : Expr) :
    (s.add name value).1.Holds (history ++ [.named name value]) ∧
      (s.add name value).2 =
        (Addition.named name value).argument (history ++ [.named name value]) := by
  rcases s.add_cases name value with
    ⟨blank, step⟩ | ⟨full, slot, prior, stored, step⟩ | ⟨full, absent, step⟩
  · have unnamed := name?_of_isBlank blank value
    rw [step, argument_of_name?_eq_none unnamed]
    exact ⟨holds.opened_of_unnamed unnamed rfl, rfl⟩
  · have named : (s.args.get slot).name = some name := by rw [stored]
    have found : s.get? name = some ⟨some name, prior⟩ :=
      Arguments.get?_eq_some_iff.mpr ⟨stored ▸ List.get_mem s.args slot, rfl⟩
    have present : s.contains name = true := by
      rw [contains_eq, found]
      rfl
    obtain ⟨-, added, sum⟩ := holds.get?_eq_some_iff.mp found
    cases sum
    have after := argument_concat_of_used full (valuesUnder_ne_nil_iff.mpr added) value
    rw [step, after]
    refine ⟨holds.joined (name?_named full value) ((holds.any_joins_iff full value).mpr present) ?_,
      rfl⟩
    show s.args.set slot ⟨(s.args.get slot).name, (s.args.get slot).value.operation .plus value⟩ = _
    rw [after, ← set_slot named, stored]
  · have apart : s.contains name = false := by
      rw [contains, absent]
      rfl
    have unused : valuesUnder name history = [] := by
      by_contra used
      have added := holds.contains_iff.mpr ⟨full, valuesUnder_ne_nil_iff.mp used⟩
      exact Bool.false_ne_true (apart.symm.trans added)
    have after := argument_concat_of_unused full unused value
    rw [step, after]
    refine ⟨holds.opened ?_ ?_, rfl⟩
    · rw [Bool.eq_false_iff, ne_eq, holds.any_joins_iff full, apart]
      exact Bool.false_ne_true
    · rw [after]
      rfl

/-- Every addition keeps the arguments those of the history. -/
theorem Holds.put (holds : s.Holds history) (a : Addition) : (s.put a).Holds (history ++ [a]) := by
  cases a with
  | positional value => exact holds.opened_of_unnamed rfl rfl
  | named name value => exact (holds.add name value).1

/-- Additions are made one after the other. -/
theorem ofHistory_append (history more : List Addition) :
    ofHistory (history ++ more) = more.foldl put (ofHistory history) :=
  List.foldl_append

/-- After any history the arguments are those of the history. -/
theorem ofHistory_holds (history : List Addition) : (ofHistory history).Holds history := by
  induction history using List.reverseRecOn with
  | nil => rfl
  | append_singleton history a ih =>
    rw [ofHistory_append]
    exact ih.put a

/-- After any history of additions there is one argument for each name that is not blank and one for
each positional value, in the order in which they were opened. The index leads from each name to the
slot at which its argument was opened, and to the same slot after any further additions. A name is
found when it is not blank and something was added under it; its argument holds the sum of all
values added under it. Adding under a name gives back the argument as it is stored from then on,
which for a blank name is a new one at the end. A list of pairs is a history of additions under
names. -/
theorem ofHistory_accumulates (history : List Addition) :
    (ofHistory history).args = (openings history).map (argument history) ∧
      (∀ name, (ofHistory history).index.lookup name =
        (openings history).findIdx? (·.name? == some name)) ∧
      (∀ name slot more, (ofHistory history).index.lookup name = some slot →
        (ofHistory (history ++ more)).index.lookup name = some slot) ∧
      (∀ name arg, (ofHistory history).get? name = some arg ↔
        Text.isBlank name = false ∧ (∃ value, .named name value ∈ history) ∧
          arg = ⟨some name, .leftSum (valuesUnder name history)⟩) ∧
      (∀ name, (ofHistory history).contains name = true ↔
        Text.isBlank name = false ∧ ∃ value, .named name value ∈ history) ∧
      (∀ name value, Text.isBlank name = false →
        (ofHistory (history ++ [.named name value])).get? name =
          some ((ofHistory history).add name value).2) ∧
      (∀ name value, Text.isBlank name = true →
        (ofHistory (history ++ [.named name value])).args =
          (ofHistory history).args ++ [((ofHistory history).add name value).2]) ∧
      ∀ pairs, ofList pairs = ofHistory (pairs.map fun pair => .named pair.1 pair.2) := by
  have holds := ofHistory_holds history
  refine ⟨holds, holds.lookup_eq, fun name slot more found => ?_,
    fun name arg => holds.get?_eq_some_iff, fun name => holds.contains_iff,
    fun name value full => ?_, fun name value blank => ?_, fun pairs => ?_⟩
  · rw [ofHistory_append]
    exact lookup_foldl_put found more
  · have after := ofHistory_holds (history ++ [.named name value])
    rw [after.get?_eq_some_iff, (holds.add name value).2,
      argument_of_name? (name?_named full value)]
    exact ⟨full, ⟨value, List.mem_append_right _ List.mem_cons_self⟩, rfl⟩
  · rw [ofHistory_append, List.foldl_cons, List.foldl_nil, put, add, if_pos blank]
    simp [readAt, push]
  · rw [ofHistory, List.foldl_map]
    rfl

end Arguments

namespace Arguments.Sample

/-- Two values under one name, with others between them. -/
def history : List Addition :=
  [.named "deps" (.list [.string "x"]), .positional (.integer 1), .named " " .none,
    .named "name" (.string "app"), .named "deps" (.reference ⟨"EXTRA", .any⟩)]

/-- The two values under one name are a sum in the first place, of the kind of the first value. A
name entered behind two positional arguments keeps its slot when a third one comes. -/
theorem history_accumulates :
    (ofHistory history).args =
        [⟨some "deps", .binary .list (.list [.string "x"]) .plus (.reference ⟨"EXTRA", .any⟩)⟩,
          .positional (.integer 1), .positional .none, ⟨some "name", .string "app"⟩] ∧
      ((ofHistory history).index.lookup "name" = some 3 ∧
        (ofHistory (history ++ [.positional .none])).index.lookup "name" = some 3) ∧
      (Text.isBlank "name" = false ∧
        (ofHistory (history ++ [.named "name" .none])).get? "name" =
          some ((ofHistory history).add "name" .none).2) ∧
      Text.isBlank "" = true ∧
        (ofHistory (history ++ [.named "" .none])).args =
          (ofHistory history).args ++ [((ofHistory history).add "" .none).2] := by
  obtain ⟨args, slots, kept, -, -, named, blank, -⟩ := ofHistory_accumulates history
  have slot : (ofHistory history).index.lookup "name" = some 3 := (slots "name").trans (by decide)
  have full : Text.isBlank "name" = false := by decide
  exact ⟨args.trans rfl, ⟨slot, kept "name" 3 _ slot⟩, ⟨full, named "name" .none full⟩, rfl,
    blank "" .none rfl⟩

end Arguments.Sample

end StarlarkCode
