import StarlarkCode.Proofs.Accumulation
import StarlarkCode.Proofs.Outline

/-!
# Calls with an accumulated argument

The text of a call whose only argument was accumulated under one name. The values are summed from
the left, with one more operation around the sum for each of them, and an operation is laid out as
its operands around its sign. So the sum is the values in a row with `+` between them, and all of
them stand at the position of the call, however deep the sum is (`Expr.layout_leftSum`). A value
that cannot be laid out ends the row there, and its error is the error of the call.
-/

namespace StarlarkCode

/-! ## Values under one name -/

namespace Arguments

/-- The values added under one name, one after the other. -/
def ofValues (name : String) (values : List Expr) : Arguments :=
  values.foldl (fun s value => (s.add name value).1) empty

variable {name : String}

/-- One more value under the name is one more addition. -/
theorem ofValues_concat (name : String) (values : List Expr) (value : Expr) :
    ofValues name (values ++ [value]) = ((ofValues name values).add name value).1 := by
  rw [ofValues, List.foldl_append]
  rfl

/-- The first value added under a name is an argument. -/
theorem args_add_empty (full : Text.isBlank name = false) (value : Expr) :
    (empty.add name value).1.args = [⟨some name, value⟩] := by
  rcases empty.add_cases name value with ⟨blank, -⟩ | ⟨-, slot, -⟩ | ⟨-, absent, step⟩
  · rw [full] at blank
    cases blank
  · exact slot.elim0
  · rw [step]
    rfl

/-- A value added under the only name there is joins the value there. -/
theorem args_add_of_single {s : Arguments} {prior : Expr} (full : Text.isBlank name = false)
    (single : s.args = [⟨some name, prior⟩]) (value : Expr) :
    (s.add name value).1.args = [⟨some name, prior.operation .plus value⟩] := by
  have found : s.get? name = some ⟨some name, prior⟩ := by simp [get?_eq_some_iff, single]
  rcases s.add_cases name value with ⟨blank, -⟩ | ⟨-, slot, other, stored, step⟩ | ⟨-, absent, -⟩
  · rw [full] at blank
    cases blank
  · have only : s.args.get slot = ⟨some name, prior⟩ := by
      simp [single]
    have named : (s.args.get slot).name = some name := by rw [only]
    rw [step]
    show s.args.set slot ⟨(s.args.get slot).name, (s.args.get slot).value.operation .plus value⟩ = _
    rw [only, set_slot named, single]
    simp
  · have present := s.contains_eq name
    rw [contains, absent, found] at present
    cases present

/-- Values added under one name are one argument, their sum. -/
theorem args_ofValues (full : Text.isBlank name = false) {values : List Expr}
    (nonempty : values ≠ []) : (ofValues name values).args = [⟨some name, .leftSum values⟩] := by
  -- On the last value, since a sum grows at its right end.
  induction values using List.reverseRecOn with
  | nil => exact absurd rfl nonempty
  | append_singleton values value ih =>
    rw [ofValues_concat]
    by_cases first : values = []
    · subst first
      exact args_add_empty full value
    · rw [args_add_of_single full (ih first), Expr.leftSum_concat first]

end Arguments

/-! ## The layout of a sum -/

namespace Layout

/-- One more part goes behind a separator. -/
theorem separated_concat (separator : Layout) {parts : List Layout} (nonempty : parts ≠ [])
    (last : Layout) :
    separated separator (parts ++ [last]) = separated separator parts ++ separator ++ last := by
  induction parts with
  | nil => exact absurd rfl nonempty
  | cons part parts ih =>
    cases parts with
    | nil => rfl
    | cons next parts =>
      have rest := ih (List.cons_ne_nil next parts)
      show part ++ separator ++ separated separator (next :: parts ++ [last]) =
        part ++ separator ++ separated separator (next :: parts) ++ separator ++ last
      rw [rest]
      simp only [append_assoc]

end Layout

namespace Expr

open Layout

/-- A sum is its values in a row, all of them at the position of the sum. -/
theorem layout_leftSum {values : List Expr} (nonempty : values ≠ []) (position : Nat) :
    (leftSum values).layout position .continueLine =
      separated (operator .plus) (values.map (·.layout position .continueLine)) := by
  induction values using List.reverseRecOn with
  | nil => exact absurd rfl nonempty
  | append_singleton values value ih =>
    by_cases first : values = []
    · subst first
      rfl
    · have parts : values.map (·.layout position .continueLine) ≠ [] := by simpa using first
      rw [leftSum_concat first, operation, Expr.layout, ih first, List.map_append,
        List.map_singleton, separated_concat (operator .plus) parts]
      rfl

/-- A call with one argument, which has a name, stays on the line of the call. -/
theorem layout_call_single (callee : String) {name : String} (full : Text.isBlank name = false)
    (value : Expr) (position : Nat) :
    (Expr.call Option.none callee [⟨some name, value⟩]).layout position .continueLine =
      text callee ++ text "(" ++ text name ++ text " = " ++ value.layout position .continueLine
        ++ text ")" := by
  simp [Expr.layout, Expr.receiverLayout, Arg.layouts, Arg.layout, argumentName, full, bracketed,
    arranged, argsFit, fitsBy, atMostOne, commaSeparated, separated, lead, empty_append,
    append_assoc]

end Expr

/-! ## The text of the call -/

/-- The call of a callee with the values accumulated under a name. -/
def Node.accumulatedCall (callee name : String) (values : List Expr) : Node :=
  .expression (.call none callee (Arguments.ofValues name values).args)

section

variable (callee : String) {name : String} (full : Text.isBlank name = false) {values : List Expr}
  (nonempty : values ≠ []) (position : Nat)

open Layout

include full nonempty

/-- The call is laid out with its values and a plus between each two. -/
theorem Node.layout_accumulatedCall :
    (Node.accumulatedCall callee name values).layout position .continueLine =
      text callee ++ text "(" ++ text name ++ text " = "
        ++ separated (operator .plus) (values.map (·.layout position .continueLine))
        ++ text ")" := by
  rw [Node.accumulatedCall, Arguments.args_ofValues full nonempty, Node.layout,
    Expr.layout_call_single callee full, Expr.layout_leftSum nonempty]

/-- The call fails as the first of the values that does. -/
theorem Node.failure_accumulatedCall :
    ((Node.accumulatedCall callee name values).layout position .continueLine).failure =
      values.findSome? fun value => (value.layout position .continueLine).failure := by
  rw [Node.layout_accumulatedCall callee full nonempty, failure_append, failure_append,
    failure_separated (failure_operator .plus), List.findSome?_map]
  simp [Function.comp_def]

/-- The text of the call. -/
theorem Node.chars_accumulatedCall
    (sound : ∀ value ∈ values, (value.layout position .continueLine).failure = none) (width : Nat) :
    ((Node.accumulatedCall callee name values).layout position .continueLine).chars width =
      callee.toList ++ "(".toList ++ name.toList ++ " = ".toList
        ++ " + ".toList.intercalate
          (values.map fun value => (value.layout position .continueLine).chars width)
        ++ ")".toList := by
  have parts : ∀ part ∈ values.map (·.layout position .continueLine), part.failure = none :=
    List.forall_mem_map.mpr sound
  have row : (separated (operator .plus)
      (values.map (·.layout position .continueLine))).failure = none := by
    rw [failure_separated (failure_operator .plus)]
    exact List.findSome?_eq_none_iff.mpr parts
  have front : (text callee ++ text "(" ++ text name ++ text " = ").chars width =
      callee.toList ++ "(".toList ++ name.toList ++ " = ".toList := by
    rw [chars_append rfl, chars_append rfl, chars_append rfl, chars_text, chars_text, chars_text,
      chars_text]
  rw [Node.layout_accumulatedCall callee full nonempty, chars_append (by simp [row]),
    chars_append rfl, front, chars_separated (failure_operator .plus) parts, chars_text,
    (sameText_operator .plus).2, chars_text, List.map_map]
  rfl

end

namespace Style

/-- A call with the values accumulated under a name is written as the callee and, in parentheses,
the name and the texts of the values with `+` between them, as each value is written at the position
of the call. If a value cannot be written there, the call fails with the error of the first such
value. -/
theorem formatNode_accumulatedCall (style : Style) (callee name : String)
    (full : Text.isBlank name = false) (values : List Expr) (nonempty : values ≠ [])
    (position : Nat) :
    (∀ texts, (values.map fun value =>
          style.formatNode (.expression value) position .continueLine) = texts.map .ok →
        style.formatNode (.accumulatedCall callee name values) position .continueLine =
          .ok (callee ++ "(" ++ name ++ " = " ++ " + ".intercalate texts ++ ")")) ∧
      ∀ before value after e, values = before ++ value :: after →
        (∀ earlier ∈ before, ∃ text,
          style.formatNode (.expression earlier) position .continueLine = .ok text) →
        style.formatNode (.expression value) position .continueLine = .error e →
        style.formatNode (.accumulatedCall callee name values) position .continueLine =
          .error e := by
  have failure := Node.failure_accumulatedCall callee full nonempty position
  refine ⟨fun texts formatted => ?_, fun before value after e split earlier failed => ?_⟩
  · have sound : ∀ value ∈ values, (value.layout position .continueLine).failure = none := by
      intro value mem
      have found := List.mem_map_of_mem
        (f := fun value => style.formatNode (.expression value) position .continueLine) mem
      rw [formatted] at found
      obtain ⟨text, -, written⟩ := List.mem_map.mp found
      exact formatNode_succeeds_iff.mp ⟨text, written.symm⟩
    have texts_eq : texts = values.map fun value =>
        String.ofList ((value.layout position .continueLine).chars style.indentWidth) := by
      refine (List.map_inj_right (f := (Except.ok : String → Except LayoutError String))
        fun _ _ => Except.ok.inj).mp ?_
      rw [← formatted, List.map_map]
      exact List.map_congr_left fun value mem => style.formatNode_eq (sound value mem)
    have whole : ((Node.accumulatedCall callee name values).layout position
        .continueLine).failure = none := by
      rw [failure]
      exact List.findSome?_eq_none_iff.mpr sound
    rw [style.formatNode_eq whole,
      Node.chars_accumulatedCall callee full nonempty position sound, texts_eq]
    refine congrArg Except.ok (String.toList_inj.mp ?_)
    simp [Function.comp_def]
  · rw [formatNode_eq_error_iff, failure, List.findSome?_eq_some_iff]
    refine ⟨before, value, after, split, formatNode_eq_error_iff.mp failed, fun u mem => ?_⟩
    exact formatNode_succeeds_iff.mp (earlier u mem)

/-- A list over several lines, and a name. -/
def addedLists : List Expr :=
  [.list [.string "x", .string "y"], .reference ⟨"EXTRA", .list⟩]

/-- The list closes at the position of the call; with two values behind it that cannot be written,
the first of them is reported. -/
theorem formatNode_accumulatedCall_addedLists :
    Text.isBlank "deps" = false ∧ addedLists ≠ [] ∧
      formatNode {} (.accumulatedCall "cc_library" "deps" addedLists) 1 .continueLine =
        .ok "cc_library(deps = [\n        \"x\",\n        \"y\",\n    ] + EXTRA)" ∧
      formatNode {} (.accumulatedCall "cc_library" "deps"
          (addedLists ++ [.comprehension (.element .none) [],
            .comprehension (.entry ⟨.none, .none⟩) []])) 1 .continueLine =
        .error (.emptyComprehension .list 1) := by
  have full : Text.isBlank "deps" = false := by decide
  have nonempty : addedLists ≠ [] := List.cons_ne_nil _ _
  have written := (formatNode_accumulatedCall {} "cc_library" "deps" full addedLists nonempty 1).1
    ["[\n        \"x\",\n        \"y\",\n    ]", "EXTRA"] rfl
  refine ⟨full, nonempty, written.trans rfl, ?_⟩
  refine (formatNode_accumulatedCall {} "cc_library" "deps" full _ (by simp) 1).2 addedLists _ _ _
    rfl (fun earlier mem => ?_) rfl
  rcases List.mem_cons.mp mem with rfl | mem
  · exact ⟨_, rfl⟩
  · rcases List.mem_singleton.mp mem with rfl
    exact ⟨_, rfl⟩

end Style

end StarlarkCode
