import StarlarkCode.Proofs.Reading.Layouts

/-!
# Operations without parentheses

The text of an operation is its operands with the operator between them, and no parentheses. The
reader groups them anew: it goes through the operands from left to right, and what waits when it
comes to the last of them is `Expr.pendingFrom`, whatever the tree was like.

The tree is read back as it was when it is grouped as the reader would group it (`Expr.IsGrouped`,
`Expr.whole_pendingFrom`). A chain, in which no right operand is an operation, need not be: in a
product of a sum the product takes the last operand of the sum alone. This is the only way in which
a chain is read as another tree (`Style.formatNode_chain_reads_back_iff`).
-/

namespace StarlarkCode

open Reading

/-! ## How operations are grouped -/

namespace Expr

/-- A binary operation. -/
def isBinary : Expr → Bool
  | .binary _ _ _ _ => true
  | _ => false

/-- A binary operation with the operator `+`. -/
def isSum : Expr → Bool
  | .binary _ _ .plus _ => true
  | _ => false

/-- What is no operation is no sum. -/
theorem isSum_of_isBinary {e : Expr} (single : e.isBinary = false) : e.isSum = false := by
  cases e with
  | binary kind left op right => cases single
  | _ => rfl

/-- The operands of an operation are such that the reader would put them together to it: on the
right of a sum no sum, on the left of a product no sum, on the right of a product no operation. -/
def bindsOperands : Expr → Bool
  | .binary _ _ .plus right => !right.isSum
  | .binary _ left .percent right => !left.isSum && !right.isBinary
  | _ => true

/-- All operations that the expression is made of are grouped as the reader does it. -/
def IsGrouped : Expr → Prop
  | .binary kind left op right =>
    (Expr.binary kind left op right).bindsOperands = true ∧ left.IsGrouped ∧ right.IsGrouped
  | _ => True

/-- The operand that is read last. -/
def last : Expr → Expr
  | .binary _ _ _ right => right.last
  | e => e.untagged

/-- What waits for the last operand, if this waits for the first. -/
def pendingFrom : Expr → Pending → Pending
  | .binary _ left op right, p => right.pendingFrom ((left.pendingFrom p).after left.last op)
  | _, p => p

/-- The last operand of what is no operation is the expression itself. -/
theorem last_of_single {e : Expr} (single : e.isBinary = false) : e.last = e.untagged := by
  cases e with
  | binary kind left op right => cases single
  | _ => rfl

/-- What is no operation leaves nothing pending. -/
theorem pendingFrom_of_single {e : Expr} (single : e.isBinary = false) (p : Pending) :
    e.pendingFrom p = p := by
  cases e with
  | binary kind left op right => cases single
  | _ => rfl

/-- An expression that is no sum ends a product and leaves the sum that waits alone. -/
theorem factor_pendingFrom {e : Expr} (grouped : e.IsGrouped) (noSum : e.isSum = false)
    (sum : Option Expr) :
    (e.pendingFrom ⟨sum, Option.none⟩).sum = sum ∧
      (e.pendingFrom ⟨sum, Option.none⟩).factor e.last = e.untagged := by
  cases e with
  | binary kind left op right =>
    obtain ⟨binds, groupedLeft, -⟩ := grouped
    cases op with
    | plus => cases noSum
    | percent =>
      rw [bindsOperands, Bool.and_eq_true, Bool.not_eq_true', Bool.not_eq_true'] at binds
      obtain ⟨noSumLeft, single⟩ := binds
      obtain ⟨sumLeft, factorLeft⟩ := factor_pendingFrom groupedLeft noSumLeft sum
      rw [pendingFrom, last, pendingFrom_of_single single, last_of_single single]
      refine ⟨sumLeft, ?_⟩
      show Expr.binary .any _ .percent right.untagged = _
      rw [factorLeft, untagged]
  | _ => exact ⟨rfl, rfl⟩

/-- An expression that is grouped as the reader does it is read as it is. -/
theorem whole_pendingFrom {e : Expr} (grouped : e.IsGrouped) :
    (e.pendingFrom .nothing).whole e.last = e.untagged := by
  cases noSum : e.isSum with
  | false =>
    obtain ⟨sum, factor⟩ := factor_pendingFrom grouped noSum Option.none
    rw [Pending.whole, Pending.nothing, sum]
    exact factor
  | true =>
    cases e with
    | binary kind left op right =>
      obtain ⟨binds, groupedLeft, groupedRight⟩ := grouped
      cases op with
      | percent => cases noSum
      | plus =>
        rw [bindsOperands, Bool.not_eq_true'] at binds
        have wholeLeft := whole_pendingFrom groupedLeft
        obtain ⟨sum, factor⟩ := factor_pendingFrom groupedRight binds (some left.untagged)
        rw [pendingFrom, last, Pending.after, wholeLeft, Pending.whole, sum]
        show Expr.binary .any left.untagged .plus _ = _
        rw [factor, untagged]
    | _ => cases noSum

end Expr

/-! ## Reading operations -/

/-- Wherever the expression is placed, its layout takes the reader to its last operand. -/
def Expr.IsRead (v : Vocabulary) (width : Nat) (e : Expr) : Prop :=
  ∀ p m pending frames, (e.layout p m).Leads v width Boundary ⟨.start, pending, frames⟩
    ⟨.operand e.last, e.pendingFrom pending, frames⟩

section

variable {v : Vocabulary} {width : Nat}

open Layout

/-- Reading an operator puts the operand before it among what is pending. -/
theorem Layout.leads_operator (op : BinaryOp) (x : Expr) (pending : Pending)
    (frames : List Frame) :
    (operator op).Leads v width Anything ⟨.operand x, pending, frames⟩
      ⟨.start, pending.after x op, frames⟩ := by
  refine (sameText_operator op).leads ?_
  cases op <;> exact leads_text fun _ => rfl

/-- An operation is read to the last operand of its right side, for which the operation waits with
all that was read on its left. -/
theorem Expr.readsTo_binary {left right x y : Expr} {before after : Pending → Pending}
    (kind : ValueKind) (op : BinaryOp) (readLeft : left.ReadsTo v width x before)
    (readRight : right.ReadsTo v width y after) :
    (Expr.binary kind left op right).ReadsTo v width y
      fun pending => after ((before pending).after x op) := by
  intro p m pending frames
  have separates : (Layout.operator op).Separates width := by
    refine (sameText_operator op).separates ?_
    cases op <;> exact separates_text rfl (by decide)
  have start := (leads_refuseSingleLine .binary p m _).append (readLeft p m pending frames)
  have operator := start.append_separated (leads_operator op _ _ _) separates
  exact operator.append (readRight p .continueLine _ frames)

/-- An operation is read if its operands are. -/
theorem Expr.isRead_binary {left right : Expr} (kind : ValueKind) (op : BinaryOp)
    (readLeft : left.IsRead v width) (readRight : right.IsRead v width) :
    (Expr.binary kind left op right).IsRead v width :=
  Expr.readsTo_binary kind op readLeft readRight

/-- What is no operation is an operand itself, and what waits goes on waiting. -/
theorem Expr.isRead_iff_of_single {e : Expr} (single : e.isBinary = false) :
    e.IsRead v width ↔ ∀ p m pending frames,
      (e.layout p m).Leads v width Boundary ⟨.start, pending, frames⟩
        ⟨.operand e.untagged, pending, frames⟩ := by
  unfold Expr.IsRead
  rw [last_of_single single]
  simp only [pendingFrom_of_single single]

/-- An expression whose layout is sound is read from its text, up to its last operand. -/
theorem Expr.ReadsTo.parse_chars {e last : Expr} {waiting : Pending → Pending}
    (isRead : e.ReadsTo v width last waiting) {p : Nat} {m : LineMode}
    (sound : (e.layout p m).failure = Option.none) :
    parse v (String.ofList ((e.layout p m).chars width)) =
      some ((waiting .nothing).whole last) := by
  have reads := isRead p m .nothing [] sound [] boundary_nil
  rw [List.append_nil] at reads
  rw [parse, String.toList_ofList, reads]
  rfl

/-- An expression that is read by itself is read as what is pending behind its last operand, taken
as a whole. -/
theorem Expr.parse_chars {e : Expr} (isRead : e.IsRead v width) {p : Nat} {m : LineMode}
    (sound : (e.layout p m).failure = Option.none) :
    parse v (String.ofList ((e.layout p m).chars width)) =
      some ((e.pendingFrom .nothing).whole e.last) :=
  Expr.ReadsTo.parse_chars isRead sound

end

/-! ## Chains -/

namespace Reading

/-- Every word is a name. -/
def names : Vocabulary :=
  fun w => some (.reference ⟨String.ofList w, .any⟩)

end Reading

/-- A name is read as a reference of any kind. -/
theorem Expr.readsTo_reference {target : Reference} (named : IsIdentifier target.name)
    (width : Nat) :
    (Expr.reference target).ReadsTo names width (.reference ⟨target.name, .any⟩) id := by
  intro p m pending frames
  have steps : step names ⟨.start, pending, frames⟩ (.word target.name.toList) =
      some ⟨.operand (.reference ⟨target.name, .any⟩), pending, frames⟩ := by
    show some (State.mk (.operand (.reference ⟨String.ofList target.name.toList, .any⟩)) _ _) = _
    rw [String.ofList_toList]
  exact (Layout.leads_lead _ p m _).append (Layout.leads_word named.1 named.2.1 steps)

namespace Expr

/-- References to identifiers, put together by operations of which none has an operation on its
right. -/
inductive IsChain : Expr → Prop
  | reference {target : Reference} (named : IsIdentifier target.name) : IsChain (.reference target)
  | binary (kind : ValueKind) {left : Expr} (op : BinaryOp) {right : Expr} (chain : left.IsChain)
      (operand : right.IsChain) (single : right.isBinary = false) :
      IsChain (.binary kind left op right)

/-- Some product has a sum as its left operand. -/
def hasProductOfSum : Expr → Bool
  | .binary _ left op right =>
    (op = .percent && left.isSum) || left.hasProductOfSum || right.hasProductOfSum
  | _ => false

/-- What is no operation has no product of a sum. -/
theorem hasProductOfSum_of_single {e : Expr} (single : e.isBinary = false) :
    e.hasProductOfSum = false := by
  cases e with
  | binary kind left op right => cases single
  | _ => rfl

/-- Whether an expression is an operation does not depend on kinds. -/
theorem isBinary_untagged (e : Expr) : e.untagged.isBinary = e.isBinary := by
  cases e <;> rfl

/-- Neither does whether it is a sum. -/
theorem isSum_untagged (e : Expr) : e.untagged.isSum = e.isSum := by
  cases e with
  | binary kind left op right => cases op <;> rfl
  | _ => rfl

namespace IsChain

variable {e : Expr}

/-- A chain of names and operators is read operand by operand. -/
theorem isRead (chain : e.IsChain) (width : Nat) : e.IsRead names width := by
  induction chain with
  | reference named => exact (isRead_iff_of_single rfl).mpr (readsTo_reference named width)
  | binary kind op _ _ _ readLeft readRight => exact isRead_binary kind op readLeft readRight

/-- A chain can be laid out in each of the multiline modes. -/
theorem layout_sound (chain : e.IsChain) (p : Nat) {m : LineMode} (multiline : m ≠ .singleLine) :
    (e.layout p m).failure = Option.none := by
  induction chain generalizing m with
  | reference named => simp [Expr.layout, Layout.failure_lead _ _ multiline]
  | binary kind op _ _ _ soundLeft soundRight =>
    simp [Expr.layout, Layout.failure_refuseSingleLine _ _ multiline, soundLeft multiline,
      soundRight LineMode.continueLine_ne]

/-- A chain without a product of a sum is grouped as the reader groups it. -/
theorem isGrouped (chain : e.IsChain) (free : e.hasProductOfSum = false) : e.IsGrouped := by
  induction chain with
  | reference named => trivial
  | @binary kind left op right _ _ single groupedLeft groupedRight =>
    rw [hasProductOfSum, Bool.or_eq_false_iff, Bool.or_eq_false_iff] at free
    obtain ⟨⟨here, freeLeft⟩, freeRight⟩ := free
    refine ⟨?_, groupedLeft freeLeft, groupedRight freeRight⟩
    cases op with
    | plus => rw [bindsOperands, isSum_of_isBinary single, Bool.not_false]
    | percent =>
      have noSum : left.isSum = false := by simpa using here
      rw [bindsOperands, noSum, single]
      rfl

/-- Whether a chain has a product of a sum does not depend on kinds. -/
theorem hasProductOfSum_untagged (chain : e.IsChain) :
    e.untagged.hasProductOfSum = e.hasProductOfSum := by
  induction chain with
  | reference named => rfl
  | binary kind op _ _ _ sameLeft sameRight =>
    rw [untagged, hasProductOfSum, hasProductOfSum, isSum_untagged, sameLeft, sameRight]

/-- The last operand of a chain is no operation. -/
theorem isBinary_last (chain : e.IsChain) : e.last.isBinary = false := by
  cases chain with
  | reference named => rfl
  | binary kind op _ _ single =>
    rw [last, last_of_single single, isBinary_untagged]
    exact single

end IsChain

end Expr

/-! ## What the reader puts together -/

namespace Reading.Pending

/-- What waits has no product of a sum in it, and the left operand of a product is no sum. -/
structure Tidy (p : Pending) : Prop where
  sum : ∀ left ∈ p.sum, left.hasProductOfSum = false
  product : ∀ left ∈ p.product, left.hasProductOfSum = false ∧ left.isSum = false

variable {p : Pending} {x : Expr}

/-- The product that ends with an operand is no sum and has none in it. -/
theorem Tidy.factor (tidy : p.Tidy) (single : x.isBinary = false) :
    (p.factor x).hasProductOfSum = false ∧ (p.factor x).isSum = false := by
  have clean := Expr.hasProductOfSum_of_single single
  obtain ⟨sum, product⟩ := p
  cases product with
  | none => exact ⟨clean, Expr.isSum_of_isBinary single⟩
  | some left =>
    obtain ⟨cleanLeft, noSumLeft⟩ := tidy.product left rfl
    refine ⟨?_, rfl⟩
    show (Expr.binary .any left .percent x).hasProductOfSum = false
    rw [Expr.hasProductOfSum, noSumLeft, cleanLeft, clean]
    rfl

/-- All that is pending, ended by an operand, has no product of a sum. -/
theorem Tidy.whole (tidy : p.Tidy) (single : x.isBinary = false) :
    (p.whole x).hasProductOfSum = false := by
  obtain ⟨cleanFactor, -⟩ := tidy.factor single
  obtain ⟨sum, product⟩ := p
  cases sum with
  | none => exact cleanFactor
  | some left =>
    have cleanLeft := tidy.sum left rfl
    show (Expr.binary .any left .plus _).hasProductOfSum = false
    rw [Expr.hasProductOfSum, cleanLeft, cleanFactor]
    rfl

/-- What is pending stays tidy behind one more operand and operator. -/
theorem Tidy.after (tidy : p.Tidy) (single : x.isBinary = false) (op : BinaryOp) :
    (p.after x op).Tidy := by
  cases op with
  | plus =>
    refine ⟨?_, fun left mem => by cases mem⟩
    rintro left ⟨⟩
    exact tidy.whole single
  | percent =>
    refine ⟨tidy.sum, ?_⟩
    rintro left ⟨⟩
    exact tidy.factor single

theorem tidy_nothing : nothing.Tidy where
  sum _ mem := by cases mem
  product _ mem := by cases mem

end Reading.Pending

/-- What a chain leaves pending is tidy. -/
theorem Expr.IsChain.tidy_pendingFrom {e : Expr} (chain : e.IsChain) {p : Pending} (tidy : p.Tidy) :
    (e.pendingFrom p).Tidy := by
  induction chain generalizing p with
  | reference named => exact tidy
  | binary kind op chainLeft _ _ tidyLeft tidyRight =>
    exact tidyRight ((tidyLeft tidy).after chainLeft.isBinary_last op)

namespace Style

/-- The text of a chain is read back, and as the same tree up to kinds exactly when no product in
it has a sum as its left operand. -/
theorem formatNode_chain_reads_back_iff (style : Style) {chain : Expr} (isChain : chain.IsChain)
    (position : Nat) {mode : LineMode} (multiline : mode = .newLine ∨ mode = .continueLine) :
    ∃ text tree, style.formatNode (.expression chain) position mode = .ok text ∧
      parse names text = some tree ∧
      (tree = chain.untagged ↔ chain.hasProductOfSum = false) := by
  have sound := isChain.layout_sound position (LineMode.ne_singleLine multiline)
  have isRead := isChain.isRead style.indentWidth
  refine ⟨_, _, formatNode_eq style sound, Expr.parse_chars isRead sound, ?_, ?_⟩
  · intro same
    -- What the reader puts together has no product of a sum.
    have tidy := isChain.tidy_pendingFrom Pending.tidy_nothing
    rw [← isChain.hasProductOfSum_untagged, ← same]
    exact tidy.whole isChain.isBinary_last
  · intro free
    exact Expr.whole_pendingFrom (isChain.isGrouped free)

/-- A chain in which a sum has a product on its left. -/
def sumOfProduct : Expr :=
  .binary .number
    (.binary .string (.binary .string (.reference ⟨"a", .string⟩) .percent (.reference ⟨"b", .any⟩))
      .plus (.reference ⟨"c_1", .string⟩))
    .plus (.reference ⟨"d", .any⟩)

theorem formatNode_sumOfProduct :
    sumOfProduct.IsChain ∧ (LineMode.newLine = .newLine ∨ LineMode.newLine = .continueLine) ∧
      ∃ text tree, formatNode {} (.expression sumOfProduct) 1 .newLine = .ok text ∧
        parse names text = some tree ∧ tree = sumOfProduct.untagged := by
  have isChain : sumOfProduct.IsChain :=
    .binary _ _ (.binary _ _ (.binary _ _ (.reference (by decide)) (.reference (by decide)) rfl)
      (.reference (by decide)) rfl) (.reference (by decide)) rfl
  obtain ⟨text, tree, formatted, parsed, same⟩ :=
    formatNode_chain_reads_back_iff {} isChain 1 (.inl rfl)
  exact ⟨isChain, .inl rfl, text, tree, formatted, parsed, same.mpr rfl⟩

/-- A chain in which a product has a sum on its left. -/
def productOfSum : Expr :=
  .binary .any (.binary .any (.reference ⟨"a", .any⟩) .plus (.reference ⟨"b", .any⟩)) .percent
    (.reference ⟨"c", .any⟩)

/-- The sum of a name and a product is read where a product of a sum was written. -/
theorem formatNode_productOfSum_regroups :
    productOfSum.IsChain ∧
      formatNode {} (.expression productOfSum) 0 .continueLine = .ok "a + b % c" ∧
      parse names "a + b % c" = some (.binary .any (.reference ⟨"a", .any⟩) .plus
        (.binary .any (.reference ⟨"b", .any⟩) .percent (.reference ⟨"c", .any⟩))) ∧
      parse names "a + b % c" ≠ some productOfSum.untagged := by
  refine ⟨?_, rfl, rfl, ?_⟩
  · exact .binary _ _ (.binary _ _ (.reference (by decide)) (.reference (by decide)) rfl)
      (.reference (by decide)) rfl
  · intro same
    cases same

end Style

end StarlarkCode
