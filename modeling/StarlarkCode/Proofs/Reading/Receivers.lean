import StarlarkCode.Proofs.LineModes
import StarlarkCode.Proofs.Reading.Language
import StarlarkCode.Proofs.Reading.Operations

/-!
# Receivers that are operations

A slice and a method call are written behind their receiver without parentheses. Behind an operation
this is behind its last operand, and that operand alone is what the reader takes for the receiver.
So the text of a term, which is made of names, operations, slices and method calls, does not tell
what was the receiver of what. It tells the tree that the reader puts together from it, in which no
operation is a receiver (`Expr.regrouped`), and nothing more: terms have the same text exactly when
they are regrouped to the same tree (`Style.formatNode_terms_eq_iff`).

One half is that the text is read as this tree (`Expr.IsTerm.readsTo`), the other that regrouping
leaves the layout as it is (`Expr.IsTerm.layout_regrouped`). Both follow the reader from operand to
operand: what has been read up to the last operand is the operations that wait for it.
-/

namespace StarlarkCode

open Reading

namespace Expr

/-! ## Terms -/

/-- References to identifiers, put together by operations that bind their operands, by slices and by
calls of methods without arguments. The receivers are terms of any form. -/
inductive IsTerm : Expr → Prop
  | reference {target : Reference} (named : IsIdentifier target.name) : IsTerm (.reference target)
  | binary (kind : ValueKind) {left : Expr} (op : BinaryOp) {right : Expr} (termLeft : left.IsTerm)
      (termRight : right.IsTerm) (binds : (Expr.binary kind left op right).bindsOperands = true) :
      IsTerm (.binary kind left op right)
  | slice {receiver : Expr} (bounds : Bounds) (term : receiver.IsTerm) :
      IsTerm (.slice receiver bounds)
  | method {receiver : Expr} {name : String} (named : IsIdentifier name) (term : receiver.IsTerm) :
      IsTerm (.call (some receiver) name [])

/-- Some slice or method call in the term has an operation as its receiver. -/
def hasOperationReceiver : Expr → Bool
  | .binary _ left _ right => left.hasOperationReceiver || right.hasOperationReceiver
  | .slice receiver _ => receiver.isBinary || receiver.hasOperationReceiver
  | .call (some receiver) _ [] => receiver.isBinary || receiver.hasOperationReceiver
  | _ => false

/-- The operand that is read last, with the slices and calls that stand behind it. -/
def lastOperand : Expr → Expr
  | .binary _ _ _ right => right.lastOperand
  | .slice receiver bounds => .slice receiver.lastOperand bounds
  | .call (some receiver) name [] => .call (some receiver.lastOperand) name []
  | e => e.untagged

/-- What waits for the last operand, if this waits for the first. -/
def waitingFrom : Expr → Pending → Pending
  | .binary _ left op right, p => right.waitingFrom ((left.waitingFrom p).after left.lastOperand op)
  | .slice receiver _, p => receiver.waitingFrom p
  | .call (some receiver) _ [], p => receiver.waitingFrom p
  | _, p => p

/-- The tree that the reader puts together from a term: a slice or call goes to the last operand of
its receiver, and the operations are grouped anew around the operands. -/
def regrouped (e : Expr) : Expr :=
  (e.waitingFrom .nothing).whole e.lastOperand

/-! ## Reading terms -/

/-- A method call without arguments goes to the operand that is read last. -/
theorem readsTo_method {v : Vocabulary} {width : Nat} {receiver last : Expr} {name : String}
    {waiting : Pending → Pending} (named : IsIdentifier name)
    (isRead : receiver.ReadsTo v width last waiting) :
    (Expr.call (some receiver) name []).ReadsTo v width (.call (some last) name []) waiting := by
  intro p m pending frames
  have point : (Layout.text ".").Leads v width Anything
      ⟨.operand last, waiting pending, frames⟩ ⟨.point last, waiting pending, frames⟩ :=
    Layout.leads_text fun _ => rfl
  have word : (Layout.text name).Leads v width Boundary
      ⟨.point last, waiting pending, frames⟩ ⟨.method last name, waiting pending, frames⟩ := by
    refine Layout.leads_word named.1 named.2.1 ?_
    show some (State.mk (.method last (String.ofList name.toList)) _ _) = _
    rw [String.ofList_toList]
  have brackets : (Layout.text "(" ++ Layout.empty ++ Layout.text ")").Leads v width Anything
      ⟨.method last name, waiting pending, frames⟩
      ⟨.operand (.call (some last) name []), waiting pending, frames⟩ :=
    ((Layout.leads_text fun _ => rfl).append (Layout.leads_empty _)).append
      (Layout.leads_text fun _ => rfl)
  have separates : (Layout.text "(" ++ Layout.empty ++ Layout.text ")").Separates width :=
    fun rest => boundary_cons (by decide) _
  have pointed := (isRead p .continueLine pending frames).append_separated point
    (Layout.separates_text rfl (by decide))
  have whole := (((Layout.leads_lead .call p m _).append pointed).append word).append_separated
    brackets separates
  exact whole.weaken

namespace IsTerm

variable {e : Expr}

/-- The text of a term takes the reader to its last operand. -/
theorem readsTo (term : e.IsTerm) (width : Nat) :
    e.ReadsTo names width e.lastOperand e.waitingFrom := by
  induction term with
  | reference named => exact readsTo_reference named width
  | binary kind op _ _ _ readLeft readRight => exact readsTo_binary kind op readLeft readRight
  | slice bounds _ isRead => exact readsTo_slice isRead bounds
  | method named _ isRead => exact readsTo_method named isRead

/-- A term can be laid out in each of the multiline modes. -/
theorem layout_sound (term : e.IsTerm) (p : Nat) {m : LineMode} (multiline : m ≠ .singleLine) :
    (e.layout p m).failure = Option.none := by
  induction term generalizing m with
  | reference named => simp [Expr.layout, Layout.failure_lead _ _ multiline]
  | binary kind op _ _ _ soundLeft soundRight =>
    simp [Expr.layout, Layout.failure_refuseSingleLine _ _ multiline, soundLeft multiline,
      soundRight LineMode.continueLine_ne]
  | slice bounds _ sound =>
    simp [Expr.layout, Layout.failure_lead _ _ multiline, sound LineMode.continueLine_ne]
  | method named _ sound =>
    simp [Expr.layout, Expr.receiverLayout, Arg.layouts, Layout.failure_bracketed,
      Layout.failure_lead _ _ multiline, sound LineMode.continueLine_ne]

end IsTerm

end Expr

/-! ## Regrouping keeps the layout -/

namespace Reading

/-- An operand that waits on the left of an operator, if there is one. -/
def operandLayout (op : BinaryOp) (left : Option Expr) (position : Nat) : Layout :=
  left.elim .empty fun x => x.layout position .continueLine ++ .operator op

namespace Pending

open Layout

/-- What stands in front of the last operand. -/
def layout (p : Pending) (position : Nat) : Layout :=
  operandLayout .plus p.sum position ++ operandLayout .percent p.product position

/-- The product that ends with an operand is laid out as its operands in a row. -/
theorem layout_factor (p : Pending) (x : Expr) (position : Nat) :
    (p.factor x).layout position .continueLine =
      operandLayout .percent p.product position ++ x.layout position .continueLine := by
  obtain ⟨sum, product⟩ := p
  cases product with
  | none => rfl
  | some left => simp only [factor, operandLayout, Option.elim, Expr.layout, refuseSingleLine,
      empty_append]

/-- All that is pending, ended by an operand, is laid out as its operands in a row. -/
theorem layout_whole (p : Pending) (x : Expr) (position : Nat) :
    (p.whole x).layout position .continueLine =
      p.layout position ++ x.layout position .continueLine := by
  have product := p.layout_factor x position
  obtain ⟨sum, factor⟩ := p
  cases sum with
  | none => exact product
  | some left => simp only [whole, layout, operandLayout, Option.elim, Expr.layout,
      refuseSingleLine, empty_append, product, append_assoc]

/-- One more operand and operator go behind what is pending. -/
theorem layout_after (p : Pending) (x : Expr) (op : BinaryOp) (position : Nat) :
    (p.after x op).layout position =
      p.layout position ++ x.layout position .continueLine ++ operator op := by
  cases op with
  | plus =>
    show (p.whole x).layout position .continueLine ++ operator .plus ++ empty = _
    rw [append_empty, layout_whole]
  | percent =>
    show operandLayout .plus p.sum position
      ++ ((p.factor x).layout position .continueLine ++ operator .percent) = _
    rw [layout_factor, layout, append_assoc, append_assoc, append_assoc]

end Pending

end Reading

namespace Expr.IsTerm

open Layout

variable {e : Expr}

/-- What waits for the last operand and that operand are laid out as what waits for the term and the
term. -/
theorem layout_waitingFrom (term : e.IsTerm) (p : Pending) (position : Nat) :
    (e.waitingFrom p).layout position ++ e.lastOperand.layout position .continueLine =
      p.layout position ++ e.layout position .continueLine := by
  induction term generalizing p with
  | reference named => rfl
  | @binary kind left op right _ _ _ sameLeft sameRight =>
    rw [waitingFrom, lastOperand, sameRight, Pending.layout_after, sameLeft]
    simp only [Expr.layout, refuseSingleLine, empty_append, append_assoc]
  | @slice receiver bounds _ same =>
    simp only [waitingFrom, lastOperand, Expr.layout, lead, empty_append, ← append_assoc, same p]
  | @method receiver name _ _ same =>
    simp only [waitingFrom, lastOperand, Expr.layout, Expr.receiverLayout, lead, empty_append,
      ← append_assoc, same p]

/-- Regrouping changes nothing about the text. -/
theorem layout_regrouped (term : e.IsTerm) (position : Nat) {mode : LineMode}
    (multiline : mode ≠ .singleLine) :
    e.regrouped.layout position mode = e.layout position mode := by
  have continues : e.regrouped.layout position .continueLine = e.layout position .continueLine := by
    rw [regrouped, Pending.layout_whole, term.layout_waitingFrom]
    rfl
  cases mode with
  | newLine => rw [Expr.layout_newLine, Expr.layout_newLine, continues]
  | continueLine => exact continues
  | singleLine => exact absurd rfl multiline

end Expr.IsTerm

/-! ## No operation is a receiver in what is read -/

/-- In what waits no operation is a receiver. -/
structure Reading.Pending.Attached (p : Pending) : Prop where
  sum : ∀ left ∈ p.sum, left.hasOperationReceiver = false
  product : ∀ left ∈ p.product, left.hasOperationReceiver = false

namespace Reading.Pending

variable {p : Pending} {x : Expr}

/-- A product of operands without operations as receivers has none either. -/
theorem Attached.factor (attached : p.Attached) (operand : x.hasOperationReceiver = false) :
    (p.factor x).hasOperationReceiver = false := by
  obtain ⟨sum, product⟩ := p
  cases product with
  | none => exact operand
  | some left => exact Bool.or_eq_false_iff.mpr ⟨attached.product left rfl, operand⟩

/-- All that is pending, ended by such an operand, has none either. -/
theorem Attached.whole (attached : p.Attached) (operand : x.hasOperationReceiver = false) :
    (p.whole x).hasOperationReceiver = false := by
  have product := attached.factor operand
  obtain ⟨sum, factor⟩ := p
  cases sum with
  | none => exact product
  | some left => exact Bool.or_eq_false_iff.mpr ⟨attached.sum left rfl, product⟩

/-- What is pending stays attached behind one more operand and operator. -/
theorem Attached.after (attached : p.Attached) (operand : x.hasOperationReceiver = false)
    (op : BinaryOp) : (p.after x op).Attached := by
  cases op with
  | plus =>
    refine ⟨?_, fun left mem => by cases mem⟩
    rintro left ⟨⟩
    exact attached.whole operand
  | percent =>
    refine ⟨attached.sum, ?_⟩
    rintro left ⟨⟩
    exact attached.factor operand

theorem attached_nothing : nothing.Attached where
  sum _ mem := by cases mem
  product _ mem := by cases mem

end Reading.Pending

namespace Expr.IsTerm

variable {e : Expr}

/-- The last operand is no operation, and has no operation as a receiver. -/
theorem lastOperand_attached (term : e.IsTerm) :
    e.lastOperand.isBinary = false ∧ e.lastOperand.hasOperationReceiver = false := by
  induction term with
  | reference named => exact ⟨rfl, rfl⟩
  | binary kind op _ _ _ _ right => exact right
  | slice bounds _ receiver => exact ⟨rfl, Bool.or_eq_false_iff.mpr receiver⟩
  | method named _ receiver => exact ⟨rfl, Bool.or_eq_false_iff.mpr receiver⟩

/-- What a term leaves waiting is attached. -/
theorem waitingFrom_attached (term : e.IsTerm) {p : Pending} (attached : p.Attached) :
    (e.waitingFrom p).Attached := by
  induction term generalizing p with
  | reference named => exact attached
  | binary kind op termLeft _ _ attachedLeft attachedRight =>
    exact attachedRight ((attachedLeft attached).after termLeft.lastOperand_attached.2 op)
  | slice bounds _ receiver => exact receiver attached
  | method named _ receiver => exact receiver attached

/-- No receiver in a regrouped term is an operation. -/
theorem hasOperationReceiver_regrouped (term : e.IsTerm) :
    e.regrouped.hasOperationReceiver = false :=
  (term.waitingFrom_attached Pending.attached_nothing).whole term.lastOperand_attached.2

/-- Whether a receiver is an operation does not depend on kinds. -/
theorem hasOperationReceiver_untagged (term : e.IsTerm) :
    e.untagged.hasOperationReceiver = e.hasOperationReceiver := by
  induction term with
  | reference named => rfl
  | binary kind op _ _ _ sameLeft sameRight =>
    rw [untagged, hasOperationReceiver, hasOperationReceiver, sameLeft, sameRight]
  | slice bounds _ same =>
    rw [untagged, hasOperationReceiver, hasOperationReceiver, isBinary_untagged, same]
  | @method receiver name _ _ same =>
    show (receiver.untagged.isBinary || receiver.untagged.hasOperationReceiver) = _
    rw [hasOperationReceiver, isBinary_untagged, same]

/-- The operations of a term are grouped as the reader groups them. -/
theorem isGrouped (term : e.IsTerm) : e.IsGrouped := by
  induction term with
  | binary kind op _ _ binds groupedLeft groupedRight =>
    exact ⟨binds, groupedLeft, groupedRight⟩
  | _ => trivial

/-- Where no operation is a receiver, the last operand is a part of the term as it is. -/
theorem lastOperand_eq (term : e.IsTerm) (free : e.hasOperationReceiver = false) :
    e.lastOperand = e.last ∧ e.waitingFrom = e.pendingFrom := by
  -- A receiver that is no operation is its own last operand, and nothing new waits for it.
  have receives {receiver : Expr} (single : receiver.isBinary = false)
      (same : receiver.lastOperand = receiver.last ∧ receiver.waitingFrom = receiver.pendingFrom) :
      receiver.lastOperand = receiver.untagged ∧ receiver.waitingFrom = id := by
    refine ⟨same.1.trans (last_of_single single), same.2.trans ?_⟩
    exact funext (pendingFrom_of_single single)
  induction term with
  | reference named => exact ⟨rfl, rfl⟩
  | binary kind op _ _ _ sameLeft sameRight =>
    obtain ⟨freeLeft, freeRight⟩ := Bool.or_eq_false_iff.mp free
    obtain ⟨lastLeft, waitingLeft⟩ := sameLeft freeLeft
    obtain ⟨lastRight, waitingRight⟩ := sameRight freeRight
    refine ⟨lastRight, funext fun p => ?_⟩
    rw [waitingFrom, pendingFrom, lastLeft, waitingLeft, waitingRight]
  | @slice receiver bounds _ same =>
    obtain ⟨single, freeReceiver⟩ := Bool.or_eq_false_iff.mp free
    obtain ⟨lastReceiver, waitingReceiver⟩ := receives single (same freeReceiver)
    refine ⟨?_, waitingReceiver⟩
    rw [lastOperand, lastReceiver]
    rfl
  | @method receiver name _ _ same =>
    obtain ⟨single, freeReceiver⟩ := Bool.or_eq_false_iff.mp free
    obtain ⟨lastReceiver, waitingReceiver⟩ := receives single (same freeReceiver)
    refine ⟨?_, waitingReceiver⟩
    rw [lastOperand, lastReceiver]
    rfl

/-- A term is read back as it was exactly when no operation in it is a receiver. -/
theorem regrouped_eq_untagged_iff (term : e.IsTerm) :
    e.regrouped = e.untagged ↔ e.hasOperationReceiver = false := by
  constructor
  · intro same
    rw [← term.hasOperationReceiver_untagged, ← same]
    exact term.hasOperationReceiver_regrouped
  · intro free
    obtain ⟨last, waiting⟩ := term.lastOperand_eq free
    rw [regrouped, last, waiting]
    exact whole_pendingFrom term.isGrouped

end Expr.IsTerm

/-! ## Terms with the same text -/

namespace Style

/-- Two terms have the same text exactly when the reader puts them together to the same tree, which
is how the text is read. A term is read as it was exactly when no operation in it is the receiver of
a slice or call; between such terms the same text means the same tree up to kinds. -/
theorem formatNode_terms_eq_iff (style : Style) {e e' : Expr} (term : e.IsTerm) (term' : e'.IsTerm)
    (position : Nat) {mode : LineMode} (multiline : mode = .newLine ∨ mode = .continueLine) :
    ∃ text text', style.formatNode (.expression e) position mode = .ok text ∧
      style.formatNode (.expression e') position mode = .ok text' ∧
      parse names text = some e.regrouped ∧
      (text = text' ↔ e.regrouped = e'.regrouped) ∧
      (e.regrouped = e.untagged ↔ e.hasOperationReceiver = false) ∧
      (e.hasOperationReceiver = false → e'.hasOperationReceiver = false →
        (text = text' ↔ e.untagged = e'.untagged)) := by
  have several := LineMode.ne_singleLine multiline
  have sound := term.layout_sound position several
  have sound' := term'.layout_sound position several
  have reads := (term.readsTo style.indentWidth).parse_chars sound
  have reads' := (term'.readsTo style.indentWidth).parse_chars sound'
  have same : String.ofList ((e.layout position mode).chars style.indentWidth) =
      String.ofList ((e'.layout position mode).chars style.indentWidth) ↔
        e.regrouped = e'.regrouped := by
    constructor
    · intro texts
      rw [texts, reads'] at reads
      exact (Option.some.inj reads).symm
    · intro trees
      rw [← term.layout_regrouped position several, trees,
        term'.layout_regrouped position several]
  refine ⟨_, _, style.formatNode_eq sound, style.formatNode_eq sound', reads, same,
    term.regrouped_eq_untagged_iff, fun free free' => ?_⟩
  rw [← term.regrouped_eq_untagged_iff.mpr free, ← term'.regrouped_eq_untagged_iff.mpr free']
  exact same

/-- A product whose left operand is a slice of a sum. -/
def productOfSlice : Expr :=
  .binary .any
    (.slice (.binary .list (.reference ⟨"a", .list⟩) .plus (.reference ⟨"b", .any⟩))
      ⟨some 1, none, none⟩)
    .percent (.reference ⟨"c", .any⟩)

/-- A sum whose right operand is the product of a slice. -/
def sumOfProductOfSlice : Expr :=
  .binary .any (.reference ⟨"a", .any⟩) .plus
    (.binary .any (.slice (.reference ⟨"b", .any⟩) ⟨some 1, none, none⟩) .percent
      (.reference ⟨"c", .any⟩))

/-- The slice is taken from the sum and given to its last operand, and the product around it goes
along. -/
theorem formatNode_productOfSlice_eq :
    productOfSlice.IsTerm ∧ sumOfProductOfSlice.IsTerm ∧
      (LineMode.newLine = .newLine ∨ LineMode.newLine = .continueLine) ∧
      ∃ text, formatNode {} (.expression productOfSlice) 1 .newLine = .ok text ∧
        formatNode {} (.expression sumOfProductOfSlice) 1 .newLine = .ok text ∧
        parse names text = some sumOfProductOfSlice.untagged := by
  have term : productOfSlice.IsTerm :=
    .binary _ _ (.slice _ (.binary _ _ (.reference (by decide)) (.reference (by decide)) rfl))
      (.reference (by decide)) rfl
  have term' : sumOfProductOfSlice.IsTerm :=
    .binary _ _ (.reference (by decide))
      (.binary _ _ (.slice _ (.reference (by decide))) (.reference (by decide)) rfl) rfl
  obtain ⟨text, text', formatted, formatted', parsed, same, -⟩ :=
    formatNode_terms_eq_iff {} term term' 1 (.inl rfl)
  have equal : text = text' := same.mpr rfl
  exact ⟨term, term', .inl rfl, text, formatted, equal ▸ formatted', parsed⟩

/-- A slice of a sum. -/
def slicedSum : Expr :=
  .slice (.binary .any (.reference ⟨"a", .any⟩) .plus (.reference ⟨"b", .any⟩))
    ⟨some 1, none, none⟩

/-- A sum with a slice on its right. -/
def sumOfSlice : Expr :=
  .binary .any (.reference ⟨"a", .any⟩) .plus
    (.slice (.reference ⟨"b", .any⟩) ⟨some 1, none, none⟩)

/-- A method called on a sum. -/
def calledSum : Expr :=
  .call (some (.binary .any (.reference ⟨"a", .any⟩) .plus (.reference ⟨"b", .any⟩))) "f" []

/-- A sum with a method call on its right. -/
def sumOfCall : Expr :=
  .binary .any (.reference ⟨"a", .any⟩) .plus (.call (some (.reference ⟨"b", .any⟩)) "f" [])

/-- Neither a slice nor a method call tells whether it belongs to the sum or to its last operand. -/
theorem formatNode_slicedSum_collides :
    (slicedSum.IsTerm ∧ sumOfSlice.IsTerm ∧
      formatNode {} (.expression slicedSum) 0 .continueLine = .ok "a + b[1:]" ∧
      formatNode {} (.expression sumOfSlice) 0 .continueLine = .ok "a + b[1:]" ∧
      slicedSum.untagged ≠ sumOfSlice.untagged) ∧
    calledSum.IsTerm ∧ sumOfCall.IsTerm ∧
      formatNode {} (.expression calledSum) 0 .continueLine = .ok "a + b.f()" ∧
      formatNode {} (.expression sumOfCall) 0 .continueLine = .ok "a + b.f()" ∧
      calledSum.untagged ≠ sumOfCall.untagged := by
  have name (s : String) (named : IsIdentifier s) : (Expr.reference ⟨s, .any⟩).IsTerm :=
    .reference named
  have a := name "a" (by decide)
  have b := name "b" (by decide)
  refine ⟨⟨.slice _ (.binary _ _ a b rfl), .binary _ _ a (.slice _ b) rfl, rfl, rfl, ?_⟩,
    .method (by decide) (.binary _ _ a b rfl), .binary _ _ a (.method (by decide) b) rfl, rfl, rfl,
    ?_⟩
  · intro same
    cases same
  · intro same
    cases same

end Style

end StarlarkCode
