import StarlarkCode.Proofs.Reading.Language
import StarlarkCode.Proofs.Reading.Operations

/-!
# Unique readability

On a fragment of the trees the text of an expression tells the tree, up to kinds. The fragment
leaves out what has no text of its own: floats and raw text, names that are no identifiers, strings
that would need an escape, and operations whose text needs parentheses (`Node.IsReadable`).

The reader is the proof. From any state in which an operand is due, the layout of a readable
expression takes it to the last operand of that expression, in both layouts of each construct
(`Node.isRead`); so the text is read as the expression it came from, and no other expression can
have the same text.
-/

namespace StarlarkCode

open Reading

/-! ## The fragment -/

/-- The texts of the expression itself can be read, and its operands need no parentheses. -/
def Expr.IsSafe : Expr → Prop
  | .string value => ∀ c ∈ value.toList, IsStringChar c
  | .reference target => IsName target.name
  | .call receiver name _ => IsName name ∧ ∀ x ∈ receiver, x.isBinary = false
  | .binary kind left op right => (Expr.binary kind left op right).bindsOperands = true
  | .slice receiver _ => receiver.isBinary = false
  | .float _ | .raw _ => False
  | _ => True

/-- An expression that is safe, or an argument whose name, if it has one, can be read. -/
def Node.IsSafe : Node → Prop
  | .expression e => e.IsSafe
  | .argument a => ∀ name ∈ a.name, IsName name
  | _ => True

/-- All nodes of the tree are safe. -/
def Node.IsReadable (n : Node) : Prop :=
  ∀ placed ∈ n.preorder, placed.node.IsSafe

/-- A tree is readable when its node is safe and its parts are readable. -/
theorem Node.isReadable_iff (n : Node) :
    n.IsReadable ↔ n.IsSafe ∧ ∀ part ∈ n.parts, part.node.IsReadable :=
  Node.forall_mem_preorder (P := Node.IsSafe)

/-! ## Behind an expression -/

namespace Reading

/-- The tokens that end an expression in a bracket. -/
def Token.endsExpr : Token → Bool
  | .word _ => true
  | .sign c => c ∈ [',', ':', ')', ']', '\x7d']
  | _ => false

end Reading

/-- The reader behind an expression that started where nothing waits. -/
def Expr.ended (x : Expr) (frames : List Frame) : State :=
  ⟨.operand x.last, x.pendingFrom .nothing, frames⟩

/-- A token that ends an expression finds it as it is. -/
theorem Expr.step_ended {x : Expr} (grouped : x.IsGrouped) (v : Vocabulary) (context : Context)
    (outside : Pending) (frames : List Frame) {t : Token} (ends : t.endsExpr = true) :
    step v (x.ended (⟨context, outside⟩ :: frames)) t =
      endExpr x.untagged outside frames context t := by
  have whole := Expr.whole_pendingFrom grouped
  cases t with
  | word w =>
    show endExpr ((x.pendingFrom .nothing).whole x.last) outside frames context _ = _
    rw [whole]
  | sign c =>
    simp only [Token.endsExpr, List.mem_cons, List.not_mem_nil, or_false, decide_eq_true_eq] at ends
    rcases ends with rfl | rfl | rfl | rfl | rfl
    all_goals
      show endExpr ((x.pendingFrom .nothing).whole x.last) outside frames context _ = _
      rw [whole]
  | _ => cases ends

/-- The reader stands behind the body or a clause of a comprehension: another clause may follow, and
behind a clause the end. -/
structure Reading.Ready (body : Body) (clauses : List Clause) (outside : Pending)
    (frames : List Frame) (s : State) : Prop where
  clause : ∀ w, step language s (.word w) = startClause body clauses outside frames w
  close : clauses ≠ [] → ∀ c, [c] = body.kind.closing.toList →
    step language s (.sign c) = some ⟨.operand (.comprehension body clauses), outside, frames⟩

/-! ## Nodes -/

/-- What the layout of a node does to the reader: an expression is read from wherever an operand is
due, an argument in the brackets of a call, a clause behind the body or another clause. -/
def Node.IsRead (width : Nat) : Node → Prop
  | .expression e => e.IsRead language width ∧ e.IsGrouped
  | .argument a => a.value.IsGrouped ∧ ∀ p m receiver name args outside frames,
      (a.layout p m).Leads language width Boundary
        (resume (.argument receiver name args none) outside frames)
        (a.value.ended (⟨.argument receiver name args a.name, outside⟩ :: frames))
  | .clause c => ∀ p m body done outside frames s, Ready body done outside frames s →
      ∃ t, Ready body (done ++ [c.untagged]) outside frames t ∧
        (c.layout p m).Leads language width Boundary s t
  | .file _ | .statement _ | .symbol _ => True

section

variable {width : Nat}

open Layout

/-! ## Brackets -/

/-- An item of a list or tuple, or a target of a loop: it is read in a context that holds the items
before it, and a comma adds it to them. -/
theorem Expr.leads_item {context : List Expr → Context} {outside : Pending} {frames : List Frame}
    (adds : ∀ items e, endExpr e outside frames (context items) (.sign ',') =
      some (resume (context (items ++ [e])) outside frames))
    {x : Expr} (isRead : (Node.expression x).IsRead width) (done : List Expr) :
    (∀ p m, (x.layout p m).Leads language width Boundary
      (resume (context (done.map Expr.untagged)) outside frames)
      (x.ended (⟨context (done.map Expr.untagged), outside⟩ :: frames))) ∧
    step language (x.ended (⟨context (done.map Expr.untagged), outside⟩ :: frames)) (.sign ',') =
      some (resume (context ((done ++ [x]).map Expr.untagged)) outside frames) := by
  refine ⟨fun p m => isRead.1 p m .nothing _, ?_⟩
  rw [Expr.step_ended isRead.2 language _ outside frames rfl, adds, List.map_append,
    List.map_singleton]

/-- A list is read if its items are. -/
theorem Expr.isRead_list {items : List Expr}
    (isRead : ∀ x ∈ items, (Node.expression x).IsRead width) :
    (Expr.list items).IsRead language width := by
  refine (Expr.isRead_iff_of_single rfl).mpr fun p m pending frames => ?_
  have opens : (text "[").Leads language width Anything ⟨.start, pending, frames⟩
      (resume (.list []) pending frames) := leads_text fun _ => rfl
  have item (x : Expr) (mem : x ∈ items) (done : List Expr) :=
    Expr.leads_item (fun _ _ => rfl : ∀ inside e, endExpr e pending frames (.list inside) _ = _)
      (isRead x mem) done
  have closesDue : (text "]").Leads language width Anything
      (resume (.list (items.map Expr.untagged)) pending frames)
      ⟨.operand (.list (items.map Expr.untagged)), pending, frames⟩ := leads_text fun _ => rfl
  have closesBehind (init : List Expr) (last : Expr) (split : items = init ++ [last]) :
      (text "]").Leads language width Anything
        (last.ended (⟨.list (init.map Expr.untagged), pending⟩ :: frames))
        ⟨.operand (.list (items.map Expr.untagged)), pending, frames⟩ := by
    have grouped := (isRead last (split ▸ List.mem_append_right init List.mem_cons_self)).2
    refine leads_token (fun _ => rfl) ?_
    rw [Expr.step_ended grouped language _ pending frames rfl, split, List.map_append]
    rfl
  have inBrackets := leads_bracketed p opens (fun x mem done => (item x mem done).1)
    (fun x mem done => (item x mem done).2) (separates_text rfl (by decide))
    (fun init last split (_ : itemsFit items = true) => closesBehind init last split)
    (fun _ => closesDue)
  rw [Expr.layout, Expr.untagged, Expr.untaggedAll_eq_map]
  simp only [Expr.layouts_eq_map]
  exact ((leads_lead _ p m _).append inBrackets).weaken

/-- The closing text has a comma in it behind the only item of a tuple; without it the parentheses
would be read as none. -/
theorem Expr.isRead_tuple {items : List Expr}
    (isRead : ∀ x ∈ items, (Node.expression x).IsRead width) :
    (Expr.tuple items).IsRead language width := by
  refine (Expr.isRead_iff_of_single rfl).mpr fun p m pending frames => ?_
  have opens : (text "(").Leads language width Anything ⟨.start, pending, frames⟩
      (resume (.tuple []) pending frames) := leads_text fun _ => rfl
  have item (x : Expr) (mem : x ∈ items) (done : List Expr) :=
    Expr.leads_item (fun _ _ => rfl : ∀ inside e, endExpr e pending frames (.tuple inside) _ = _)
      (isRead x mem) done
  have separates : (text (if items.length = 1 then ",)" else ")")).Separates width := by
    split <;> exact separates_text rfl (by decide)
  have closesDue (more : items = [] ∨ itemsFit items = false) :
      (text (if items.length = 1 then ",)" else ")")).Leads language width Anything
        (resume (.tuple (items.map Expr.untagged)) pending frames)
        ⟨.operand (.tuple (items.map Expr.untagged)), pending, frames⟩ := by
    have notOne : items.length ≠ 1 := by
      intro one
      rcases more with rfl | stacked
      · cases one
      · simp [itemsFit, fitsBy, atMostOne, one] at stacked
    rw [if_neg notOne]
    exact leads_text fun _ => rfl
  have closesBehind (init : List Expr) (last : Expr) (split : items = init ++ [last]) :
      (text (if items.length = 1 then ",)" else ")")).Leads language width Anything
        (last.ended (⟨.tuple (init.map Expr.untagged), pending⟩ :: frames))
        ⟨.operand (.tuple (items.map Expr.untagged)), pending, frames⟩ := by
    have mem : last ∈ items := split ▸ List.mem_append_right init List.mem_cons_self
    cases init with
    | nil =>
      have comma := (item last mem []).2
      rw [split, List.nil_append, if_pos List.length_singleton]
      refine leads_text fun rest => ?_
      have tokens : scan .between (",)".toList ++ rest) =
          .sign ',' :: .sign ')' :: scan .between rest := rfl
      rw [Reading.read, tokens, run, comma]
      rfl
    | cons x init =>
      rw [split, List.cons_append, List.length_cons, List.length_append, List.length_singleton,
        if_neg (by omega)]
      refine leads_token (fun _ => rfl) ?_
      rw [Expr.step_ended (isRead last mem).2 language _ pending frames rfl, List.map_cons,
        List.map_cons, List.map_append]
      rfl
  have inBrackets := leads_bracketed p opens (fun x mem done => (item x mem done).1)
    (fun x mem done => (item x mem done).2) separates
    (fun init last split (_ : itemsFit items = true) => closesBehind init last split) closesDue
  rw [Expr.layout, Expr.untagged, Expr.untaggedAll_eq_map]
  simp only [Expr.layouts_eq_map]
  exact ((leads_lead _ p m _).append ((sameText_tupled _ _ p _).leads inBrackets)).weaken

/-- An entry is read from where a key is due to behind its value. -/
theorem Entry.leads {e : Entry} (parts : ∀ x ∈ e.parts, (Node.expression x).IsRead width)
    (entries : List Entry) (outside : Pending) (frames : List Frame) (p : Nat) (m : LineMode) :
    (e.layout p m).Leads language width Boundary (resume (.key entries) outside frames)
      (e.value.ended (⟨.value entries e.key.untagged, outside⟩ :: frames)) := by
  obtain ⟨key, value⟩ := e
  obtain ⟨readKey, groupedKey⟩ := parts key List.mem_cons_self
  obtain ⟨readValue, -⟩ := parts value (List.mem_cons_of_mem _ List.mem_cons_self)
  have colon : (text ": ").Leads language width Anything
      (key.ended (⟨.key entries, outside⟩ :: frames))
      (resume (.value entries key.untagged) outside frames) := by
    refine leads_token (fun _ => rfl) ?_
    rw [Expr.step_ended groupedKey language _ outside frames rfl]
    rfl
  have start := (readKey p m .nothing _).append_separated colon (separates_text rfl (by decide))
  exact start.append (readValue p .continueLine .nothing _)

/-- A dictionary is read if its keys and values are. -/
theorem Expr.isRead_dictionary {entries : List Entry}
    (isRead : ∀ e ∈ entries, ∀ x ∈ e.parts, (Node.expression x).IsRead width) :
    (Expr.dictionary entries).IsRead language width := by
  refine (Expr.isRead_iff_of_single rfl).mpr fun p m pending frames => ?_
  have opens : (text "\x7b").Leads language width Anything ⟨.start, pending, frames⟩
      (resume (.key []) pending frames) := leads_text fun _ => rfl
  have grouped (e : Entry) (mem : e ∈ entries) : e.value.IsGrouped :=
    (isRead e mem e.value (List.mem_cons_of_mem _ List.mem_cons_self)).2
  have comma (e : Entry) (mem : e ∈ entries) (done : List Entry) :
      step language (e.value.ended
          (⟨.value (done.map Entry.untagged) e.key.untagged, pending⟩ :: frames)) (.sign ',') =
        some (resume (.key ((done ++ [e]).map Entry.untagged)) pending frames) := by
    rw [Expr.step_ended (grouped e mem) language _ pending frames rfl, List.map_append]
    obtain ⟨key, value⟩ := e
    rfl
  have closesDue : (text "\x7d").Leads language width Anything
      (resume (.key (entries.map Entry.untagged)) pending frames)
      ⟨.operand (.dictionary (entries.map Entry.untagged)), pending, frames⟩ :=
    leads_text fun _ => rfl
  have closesBehind (init : List Entry) (last : Entry) (split : entries = init ++ [last]) :
      (text "\x7d").Leads language width Anything
        (last.value.ended (⟨.value (init.map Entry.untagged) last.key.untagged, pending⟩ :: frames))
        ⟨.operand (.dictionary (entries.map Entry.untagged)), pending, frames⟩ := by
    have mem : last ∈ entries := split ▸ List.mem_append_right init List.mem_cons_self
    refine leads_token (fun _ => rfl) ?_
    rw [Expr.step_ended (grouped last mem) language _ pending frames rfl, split, List.map_append]
    obtain ⟨key, value⟩ := last
    rfl
  have inBrackets := leads_bracketed p opens
    (fun e mem done => Entry.leads (isRead e mem) (done.map Entry.untagged) pending frames) comma
    (separates_text rfl (by decide))
    (fun init last split (_ : entriesFit entries = true) => closesBehind init last split)
    (fun _ => closesDue)
  rw [Expr.layout, Expr.untagged, Entry.untaggedAll_eq_map]
  simp only [Entry.layouts_eq_map]
  exact ((leads_lead _ p m _).append inBrackets).weaken

/-! ## Calls -/

/-- An argument is read if its value is. -/
theorem Arg.isRead {a : Arg} (safe : ∀ name ∈ a.name, IsName name)
    (isRead : (Node.expression a.value).IsRead width) : (Node.argument a).IsRead width := by
  obtain ⟨name, value⟩ := a
  obtain ⟨readValue, grouped⟩ := isRead
  refine ⟨grouped, fun p m receiver callee args outside frames => ?_⟩
  have start : (lead .argument p m).Leads language width Anything
      (resume (.argument receiver callee args none) outside frames)
      (resume (.argument receiver callee args none) outside frames) := leads_lead _ p m _
  cases name with
  | none => exact (start.append (leads_empty _)).append (readValue p .continueLine .nothing _)
  | some name =>
    have isName := safe name rfl
    have word : (text name).Leads language width Boundary
        (resume (.argument receiver callee args none) outside frames)
        ⟨.operand (.reference ⟨name, .any⟩), .nothing,
          ⟨.argument receiver callee args none, outside⟩ :: frames⟩ :=
      leads_reference isName _ _
    have sign : (text " = ").Leads language width Anything
        ⟨.operand (.reference ⟨name, .any⟩), .nothing,
          ⟨.argument receiver callee args none, outside⟩ :: frames⟩
        (resume (.argument receiver callee args (some name)) outside frames) :=
      leads_text fun _ => rfl
    have labelled := word.append_separated sign (separates_text rfl (by decide))
    rw [Arg.layout, Layout.argumentName, if_neg isName.not_isBlank]
    exact (start.append labelled).append (readValue p .continueLine .nothing _)

/-- The receiver and the name of a call take the reader to where the brackets may open. -/
theorem Expr.leads_callee {receiver : Option Expr} {name : String} (isName : IsName name)
    (single : ∀ x ∈ receiver, x.isBinary = false)
    (isRead : ∀ x ∈ receiver, (Node.expression x).IsRead width) (p : Nat) (pending : Pending)
    (frames : List Frame) :
    ∃ s, (Expr.receiverLayout receiver p ++ text name).Leads language width Boundary
        ⟨.start, pending, frames⟩ s ∧
      step language s (.sign '(') =
        some (resume (.argument (Expr.untaggedReceiver receiver) name [] Option.none) pending
          frames) := by
  cases receiver with
  | none =>
    refine ⟨⟨.operand (.reference ⟨name, .any⟩), pending, frames⟩, ?_, rfl⟩
    exact (leads_empty _).append (leads_reference isName pending frames)
  | some receiver =>
    have readReceiver := (Expr.isRead_iff_of_single (single receiver rfl)).mp
      (isRead receiver rfl).1 p .continueLine pending frames
    have point : (text ".").Leads language width Anything
        ⟨.operand receiver.untagged, pending, frames⟩ ⟨.point receiver.untagged, pending, frames⟩ :=
      leads_text fun _ => rfl
    have pointed := readReceiver.append_separated point (separates_text rfl (by decide))
    refine ⟨⟨.method receiver.untagged name, pending, frames⟩, ?_, rfl⟩
    refine pointed.append (leads_name isName ?_)
    show some (State.mk (.method receiver.untagged (String.ofList name.toList)) _ _) = _
    rw [String.ofList_toList]

/-- A call is read if its receiver and arguments are. -/
theorem Expr.isRead_call {receiver : Option Expr} {name : String} {args : List Arg}
    (isName : IsName name) (single : ∀ x ∈ receiver, x.isBinary = false)
    (readReceiver : ∀ x ∈ receiver, (Node.expression x).IsRead width)
    (readArgs : ∀ a ∈ args, (Node.argument a).IsRead width) :
    (Expr.call receiver name args).IsRead language width := by
  refine (Expr.isRead_iff_of_single rfl).mpr fun p m pending frames => ?_
  have comma (a : Arg) (mem : a ∈ args) (done : List Arg) :
      step language (a.value.ended (⟨.argument (Expr.untaggedReceiver receiver) name
          (done.map Arg.untagged) a.name, pending⟩ :: frames)) (.sign ',') =
        some (resume (.argument (Expr.untaggedReceiver receiver) name
          ((done ++ [a]).map Arg.untagged) Option.none) pending frames) := by
    rw [Expr.step_ended (readArgs a mem).1 language _ pending frames rfl, List.map_append]
    obtain ⟨label, value⟩ := a
    rfl
  have closesDue : (text ")").Leads language width Anything
      (resume (.argument (Expr.untaggedReceiver receiver) name (args.map Arg.untagged) Option.none)
        pending frames)
      ⟨.operand (.call (Expr.untaggedReceiver receiver) name (args.map Arg.untagged)), pending,
        frames⟩ := leads_text fun _ => rfl
  have closesBehind (init : List Arg) (last : Arg) (split : args = init ++ [last]) :
      (text ")").Leads language width Anything
        (last.value.ended (⟨.argument (Expr.untaggedReceiver receiver) name
          (init.map Arg.untagged) last.name, pending⟩ :: frames))
        ⟨.operand (.call (Expr.untaggedReceiver receiver) name (args.map Arg.untagged)), pending,
          frames⟩ := by
    have mem : last ∈ args := split ▸ List.mem_append_right init List.mem_cons_self
    refine leads_token (fun _ => rfl) ?_
    rw [Expr.step_ended (readArgs last mem).1 language _ pending frames rfl, split, List.map_append]
    obtain ⟨label, value⟩ := last
    rfl
  obtain ⟨s, callee, steps⟩ := Expr.leads_callee isName single readReceiver p pending frames
  have opens : (text "(").Leads language width Anything s
      (resume (.argument (Expr.untaggedReceiver receiver) name ([].map Arg.untagged) Option.none)
        pending frames) := leads_token (fun _ => rfl) steps
  have inBrackets := leads_bracketed p opens
    (fun a mem done q m => (readArgs a mem).2 q m (Expr.untaggedReceiver receiver) name
      (done.map Arg.untagged) pending frames) comma (separates_text rfl (by decide))
    (fun init last split (_ : argsFit args = true) => closesBehind init last split)
    (fun _ => closesDue)
  have whole := ((leads_lead .call p m _).append callee).append_separated inBrackets
    (separates_bracketed _ (separates_text rfl (by decide)) _ _ _)
  rw [Expr.layout, Expr.untagged, Arg.untaggedAll_eq_map, append_assoc (lead _ p m)]
  simp only [Arg.layouts_eq_map]
  exact whole.weaken

/-! ## Comprehensions -/

/-- Behind an expression that is the last part of a body or clause, the comprehension goes on as it
does behind that. -/
theorem Expr.ready_ended {x : Expr} (grouped : x.IsGrouped) {context : Context} {body : Body}
    {clauses : List Clause} {outside : Pending} {frames : List Frame}
    (clause : ∀ w, endExpr x.untagged outside frames context (.word w) =
      startClause body clauses outside frames w)
    (close : clauses ≠ [] → ∀ c, endExpr x.untagged outside frames context (.sign c) =
      afterClause body clauses outside frames (.sign c)) :
    Ready body clauses outside frames (x.ended (⟨context, outside⟩ :: frames)) where
  clause w := by rw [Expr.step_ended grouped language _ outside frames rfl, clause]
  close some c closing := by
    have ends : (Token.sign c).endsExpr = true := by
      cases kind : body.kind with
      | _ =>
        rw [kind] at closing
        cases closing
        rfl
    rw [Expr.step_ended grouped language _ outside frames ends, close some, afterClause,
      if_pos closing]

/-- A clause is read if its parts are. -/
theorem Clause.isRead {c : Clause} (parts : ∀ part ∈ c.parts, part.node.IsRead width) :
    (Node.clause c).IsRead width := by
  intro p m body done outside frames s ready
  cases c with
  | loop targets iterable =>
    obtain ⟨readIterable, grouped⟩ := parts _ (List.mem_append_right _ List.mem_cons_self)
    have readTargets (x : Expr) (mem : x ∈ targets) : (Node.expression x).IsRead width :=
      parts _ (List.mem_append_left _ (List.mem_map_of_mem mem))
    have item (x : Expr) (mem : x ∈ targets) (before : List Expr) :=
      Expr.leads_item
        (fun _ _ => rfl : ∀ inside e, endExpr e outside frames (.target body done inside) _ = _)
        (readTargets x mem) before
    refine ⟨iterable.ended
      (⟨.iterable body done (targets.map Expr.untagged), outside⟩ :: frames), ?_, ?_⟩
    · rw [Clause.untagged, Expr.untaggedAll_eq_map]
      exact Expr.ready_ended grouped (fun _ => rfl) (fun _ _ => rfl)
    · have loop : (text "for ").Leads language width Anything s
          (resume (.target body done []) outside frames) :=
        leads_token (fun _ => rfl) (ready.clause _)
      rw [Clause.layout, Expr.layouts_eq_map]
      refine (leads_lead _ p m _).append ?_
      split
      next => exact leads_fail _ _ _
      next some =>
        rcases List.eq_nil_or_concat targets with rfl | ⟨init, last, rfl⟩
        · exact absurd rfl some
        rw [List.concat_eq_append] at item readTargets ⊢
        have inTargets := leads_commaSeparated
          (fun x mem before => (item x mem before).1 p .continueLine)
          (fun x mem before => (item x mem before).2) []
        have within : (text " in ").Leads language width Anything
            (last.ended (⟨.target body done (init.map Expr.untagged), outside⟩ :: frames))
            (resume (.iterable body done ((init ++ [last]).map Expr.untagged)) outside frames) := by
          have groupedLast := (readTargets last (List.mem_append_right _ List.mem_cons_self)).2
          refine leads_token (fun _ => rfl) ?_
          rw [Expr.step_ended groupedLast language _ outside frames rfl, List.map_append]
          rfl
        have looped := (loop.append inTargets).append_separated within
          (separates_text rfl (by decide))
        exact looped.append (readIterable p .continueLine .nothing _)
  | guard condition =>
    obtain ⟨readCondition, grouped⟩ := parts _ List.mem_cons_self
    refine ⟨condition.ended (⟨.condition body done, outside⟩ :: frames), ?_, ?_⟩
    · exact Expr.ready_ended grouped (fun _ => rfl) (fun _ _ => rfl)
    · have guard : (text "if ").Leads language width Anything s
          (resume (.condition body done) outside frames) :=
        leads_token (fun _ => rfl) (ready.clause _)
      exact ((leads_lead _ p m _).append guard).append (readCondition p .continueLine .nothing _)

/-- Clauses behind a body or other clauses, with white space before each. -/
theorem Clause.leads_all {clauses : List Clause}
    (isRead : ∀ c ∈ clauses, (Node.clause c).IsRead width) {separator : Layout}
    (sound : separator.failure = none) (separates : separator.Separates width)
    (blank : ∀ s, separator.Leads language width Anything s s) (q : Nat) (m : LineMode)
    {body : Body} {outside : Pending} {frames : List Frame} {done : List Clause} {s : State}
    (ready : Ready body done outside frames s) :
    ∃ t, Ready body (done ++ clauses.map Clause.untagged) outside frames t ∧
      (concat (clauses.map fun c => separator ++ c.layout q m)).Leads language width Boundary s t ∧
      ∀ rest, Boundary rest → Boundary
        ((concat (clauses.map fun c => separator ++ c.layout q m)).chars width ++ rest) := by
  induction clauses generalizing done s with
  | nil =>
    rw [List.map_nil, List.append_nil]
    exact ⟨s, ready, leads_empty s, fun _ boundary => boundary⟩
  | cons c clauses ih =>
    obtain ⟨t, readyNext, leads⟩ := isRead c List.mem_cons_self q m body done outside frames s ready
    obtain ⟨u, readyLast, others, apart⟩ :=
      ih (fun d mem => isRead d (List.mem_cons_of_mem c mem)) readyNext
    rw [List.append_assoc, List.singleton_append] at readyLast
    refine ⟨u, readyLast, ((blank s).append leads).append_apart others apart, fun rest _ => ?_⟩
    have first := separates.append sound (c.layout q m
      ++ concat (clauses.map fun d => separator ++ d.layout q m))
    rw [← append_assoc] at first
    exact first rest

/-- The bracket that opens a comprehension and its body. -/
theorem Body.leads {body : Body} (parts : ∀ x ∈ body.parts, (Node.expression x).IsRead width)
    (outside : Pending) (frames : List Frame) :
    ∃ s t, (text body.kind.opening).Leads language width Anything ⟨.start, outside, frames⟩ s ∧
      Ready body.untagged [] outside frames t ∧
      ∀ p m, (body.layout p m).Leads language width Boundary s t := by
  cases body with
  | element value =>
    obtain ⟨isRead, grouped⟩ := parts value List.mem_cons_self
    have opens : (text "[").Leads language width Anything ⟨.start, outside, frames⟩
        (resume (.list []) outside frames) := leads_text fun _ => rfl
    refine ⟨_, value.ended (⟨.list [], outside⟩ :: frames), opens, ?_,
      fun p m => isRead p m .nothing _⟩
    exact Expr.ready_ended grouped (fun _ => rfl) (fun some => absurd rfl some)
  | entry e =>
    have grouped := (parts e.value (List.mem_cons_of_mem _ List.mem_cons_self)).2
    have opens : (text "\x7b").Leads language width Anything ⟨.start, outside, frames⟩
        (resume (.key []) outside frames) := leads_text fun _ => rfl
    refine ⟨_, e.value.ended (⟨.value [] e.key.untagged, outside⟩ :: frames), opens, ?_,
      fun p m => Entry.leads parts [] outside frames p m⟩
    obtain ⟨key, value⟩ := e
    exact Expr.ready_ended grouped (fun _ => rfl) (fun some => absurd rfl some)

/-- A comprehension is read if its body and clauses are, on one line or broken up. -/
theorem Expr.isRead_comprehension {body : Body} {clauses : List Clause}
    (readBody : ∀ x ∈ body.parts, (Node.expression x).IsRead width)
    (readClauses : ∀ c ∈ clauses, (Node.clause c).IsRead width) :
    (Expr.comprehension body clauses).IsRead language width := by
  refine (Expr.isRead_iff_of_single rfl).mpr fun p m pending frames => ?_
  obtain ⟨s, t, opens, ready, inBody⟩ := Body.leads readBody pending frames
  rw [Expr.layout, Expr.untagged, Clause.untaggedAll_eq_map]
  simp only [Clause.layouts_eq_map, List.map_map, Function.comp_def]
  refine (leads_lead _ p m _).append ?_
  split
  next => exact leads_fail _ _ _
  next some =>
    have more : clauses.map Clause.untagged ≠ [] := by
      intro none
      rw [List.map_eq_nil_iff] at none
      exact some (List.isEmpty_iff.mpr none)
    have separates : (text body.kind.closing).Separates width := by
      cases body.kind <;> exact separates_text rfl (by decide)
    have closes {u : State} (readyLast : Ready body.untagged ([] ++ clauses.map Clause.untagged)
        pending frames u) : (text body.kind.closing).Leads language width Anything u
        ⟨.operand (.comprehension body.untagged (clauses.map Clause.untagged)), pending,
          frames⟩ := by
      have close := readyLast.close more
      rw [Body.kind_untagged] at close
      cases kind : body.kind with
      | list =>
        rw [kind] at close
        exact leads_token (fun _ => rfl) (close ']' rfl)
      | dictionary =>
        rw [kind] at close
        exact leads_token (fun _ => rfl) (close '\x7d' rfl)
    split
    next =>
      obtain ⟨u, readyLast, inClauses, apart⟩ := Clause.leads_all readClauses failure_newline
        separates_newline leads_newline (p + 1) .newLine ready
      have lines :=
        ((leads_newline s).append (inBody (p + 1) .newLine)).append_apart inClauses apart
      have broken := (lines.append_separated (leads_newline u) separates_newline).append
        (leads_indent p u)
      exact ((opens.append broken).append (closes readyLast)).weaken
    next =>
      obtain ⟨u, readyLast, inClauses, apart⟩ := Clause.leads_all readClauses failure_space
        (sameText_space.separates (separates_text rfl (by decide)))
        (fun _ => sameText_space.leads (leads_text fun _ => rfl)) p .continueLine ready
      have line := (inBody p .continueLine).append_apart inClauses apart
      exact ((opens.append line).append_separated (closes readyLast) separates).weaken

/-! ## All nodes -/

/-- An expression is read if it is safe and its parts are read. -/
theorem Expr.isRead {e : Expr} (safe : e.IsSafe)
    (parts : ∀ part ∈ e.parts, part.node.IsRead width) : e.IsRead language width := by
  cases e with
  | string value =>
    refine (Expr.isRead_iff_of_single rfl).mpr fun p m pending frames => ?_
    exact ((leads_lead _ p m _).append (leads_quoted p safe pending frames)).weaken
  | integer value =>
    refine (Expr.isRead_iff_of_single rfl).mpr fun p m pending frames => ?_
    exact (leads_lead _ p m _).append (leads_integer value pending frames)
  | boolean value =>
    refine (Expr.isRead_iff_of_single rfl).mpr fun p m pending frames => ?_
    have word : IsIdentifier (if value then "True" else "False") := by cases value <;> decide
    refine (leads_lead _ p m _).append (leads_word word.1 word.2.1 ?_)
    cases value <;> rfl
  | none =>
    refine (Expr.isRead_iff_of_single rfl).mpr fun p m pending frames => ?_
    have word : IsIdentifier "None" := by decide
    exact (leads_lead _ p m _).append (leads_word word.1 word.2.1 rfl)
  | reference target =>
    refine (Expr.isRead_iff_of_single rfl).mpr fun p m pending frames => ?_
    exact (leads_lead _ p m _).append (leads_reference safe pending frames)
  | call receiver name args =>
    refine Expr.isRead_call safe.1 safe.2 (fun x mem => ?_) (fun a mem => ?_)
    · exact parts _ (List.mem_append_left _
        (List.mem_map_of_mem (a := x) (Option.mem_toList.mpr mem)))
    · exact parts _ (List.mem_append_right _ (List.mem_map_of_mem mem))
  | binary kind left op right =>
    exact Expr.isRead_binary kind op (parts _ List.mem_cons_self).1
      (parts _ (List.mem_cons_of_mem _ List.mem_cons_self)).1
  | comprehension body clauses =>
    exact Expr.isRead_comprehension
      (fun x mem => parts _ (List.mem_append_left _ (List.mem_map_of_mem mem)))
      (fun c mem => parts _ (List.mem_append_right _ (List.mem_map_of_mem mem)))
  | slice receiver bounds =>
    have readReceiver : receiver.ReadsTo language width receiver.untagged id :=
      (Expr.isRead_iff_of_single safe).mp (parts _ List.mem_cons_self).1
    exact (Expr.isRead_iff_of_single rfl).mpr (Expr.readsTo_slice readReceiver bounds)
  | list items => exact Expr.isRead_list fun x mem => parts _ (List.mem_map_of_mem mem)
  | tuple items => exact Expr.isRead_tuple fun x mem => parts _ (List.mem_map_of_mem mem)
  | dictionary entries =>
    exact Expr.isRead_dictionary fun e mem x memEntry =>
      parts _ (List.mem_map_of_mem (List.mem_flatMap.mpr ⟨e, mem, memEntry⟩))
  | float value => cases safe
  | raw s => cases safe

/-- The operations of a safe expression are grouped as the reader does it. -/
theorem Expr.isGrouped {e : Expr} (safe : e.IsSafe)
    (parts : ∀ part ∈ e.parts, part.node.IsRead width) : e.IsGrouped := by
  cases e with
  | binary kind left op right =>
    exact ⟨safe, (parts _ List.mem_cons_self).2,
      (parts _ (List.mem_cons_of_mem _ List.mem_cons_self)).2⟩
  | _ => trivial

end

/-- Every readable tree is read. -/
theorem Node.isRead (width : Nat) (n : Node) : n.IsReadable → n.IsRead width := by
  induction n using Node.induction with
  | step n ih =>
    intro readable
    obtain ⟨safe, inParts⟩ := n.isReadable_iff.mp readable
    have parts : ∀ part ∈ n.parts, part.node.IsRead width := fun part mem =>
      ih part mem (inParts part mem)
    cases n with
    | expression e => exact ⟨Expr.isRead safe parts, Expr.isGrouped safe parts⟩
    | clause c => exact Clause.isRead parts
    | argument a => exact Arg.isRead safe (parts _ List.mem_cons_self)
    | _ => trivial

namespace Style

/-- The text of a readable expression is read as that expression, whatever the style, the position
and the mode. -/
theorem parse_formatted {style : Style} {e : Expr} (readable : (Node.expression e).IsReadable)
    {position : Nat} {mode : LineMode} {text : String}
    (formatted : style.formatNode (.expression e) position mode = .ok text) :
    parse language text = some e.untagged := by
  have sound := formatNode_succeeds_iff.mp ⟨text, formatted⟩
  obtain ⟨isRead, grouped⟩ := Node.isRead style.indentWidth (.expression e) readable
  rw [formatNode_eq style sound] at formatted
  cases formatted
  rw [← Expr.whole_pendingFrom grouped]
  exact Expr.parse_chars isRead sound

/-- Readable expressions with the same text are the same tree up to the kinds of references and
operations, even if they were formatted in different styles, positions and modes. -/
theorem formatNode_determines_tree {style style' : Style} {e e' : Expr}
    (readable : (Node.expression e).IsReadable) (readable' : (Node.expression e').IsReadable)
    {position position' : Nat} {mode mode' : LineMode} {text : String}
    (formatted : style.formatNode (.expression e) position mode = .ok text)
    (formatted' : style'.formatNode (.expression e') position' mode' = .ok text) :
    e.untagged = e'.untagged := by
  have reads := parse_formatted readable formatted
  have reads' := parse_formatted readable' formatted'
  exact Option.some.inj (reads.symm.trans reads')

/-- A method call over several lines, with references and operations of the given kind. -/
def formatCall (kind : ValueKind) : Expr :=
  .call (some (.slice (.reference ⟨"a", kind⟩) ⟨some (-1), none, some 2⟩)) "f"
    [⟨none, .binary kind (.string "x %s") .percent (.tuple [.integer (-7)])⟩,
      ⟨some "k", .comprehension
        (.entry ⟨.reference ⟨"x", kind⟩, .list [.boolean true, .none]⟩)
        [.loop [.reference ⟨"x", kind⟩, .reference ⟨"y", .any⟩] (.dictionary []),
          .guard (.binary .any (.reference ⟨"y", kind⟩) .plus (.call none "g" []))]⟩]

theorem formatNode_formatCall_determines :
    (Node.expression (formatCall .string)).IsReadable ∧
      (Node.expression (formatCall .number)).IsReadable ∧
      ∃ text, formatNode {} (.expression (formatCall .string)) 1 .newLine = .ok text ∧
        formatNode {} (.expression (formatCall .number)) 1 .newLine = .ok text ∧
        (formatCall .string).untagged = (formatCall .number).untagged := by
  have readable (kind : ValueKind) : (Node.expression (formatCall kind)).IsReadable := by
    simp [formatCall, Node.isReadable_iff (.expression _), Node.isReadable_iff (.argument _),
      Node.isReadable_iff (.clause _), Node.IsSafe, Expr.IsSafe, Expr.bindsOperands, Expr.isSum,
      Expr.isBinary, Node.parts, Expr.parts, Clause.parts, Body.parts, Entry.parts]
    decide
  have layout (kind : ValueKind) : (Node.expression (formatCall kind)).layout 1 .newLine =
      (Node.expression (formatCall .any)).layout 1 .newLine := by
    cases kind <;> rfl
  have sound : ((Node.expression (formatCall .any)).layout 1 .newLine).failure = none := rfl
  have formatted (kind : ValueKind) := formatNode_eq {} ((congrArg _ (layout kind)).trans sound)
  simp only [layout] at formatted
  exact ⟨readable .string, readable .number, _, formatted .string, formatted .number,
    formatNode_determines_tree (readable .string) (readable .number) (formatted .string)
      (formatted .number)⟩

end Style

end StarlarkCode
