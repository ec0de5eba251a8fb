import StarlarkCode.Proofs.LineModes
import StarlarkCode.Proofs.Outline

/-!
# Nodes and their outlines

The outline of every node describes its layouts, by induction on the tree. A node that starts a line
is its indentation and then the node as it continues a line, so one statement per construct does for
both.

Whether a node can be formatted depends on its position as little as its lines do
(`Node.firstFault?_add`). With that `Style.formatNode_follows_outline` gives the text of a node at
every width and every position from its outline.
-/

namespace StarlarkCode

open Outline

/-! ## Nodes and their outlines -/

/-- The names and texts that stand in an expression itself, outside its parts and without quotes. -/
def Expr.bareTexts : Expr → List String
  | .reference target => [target.name]
  | .call _ name _ => [name]
  | .raw s => [s]
  | _ => []

/-- The names and texts that stand in a node itself without quotes. -/
def Node.bareTexts : Node → List String
  | .expression e => e.bareTexts
  | .argument a => a.name.toList
  | .symbol s => s.localName.toList
  | .file _ | .statement _ | .clause _ => []

/-- No name and no text that is written without quotes holds a line break. -/
def Node.HasUnbrokenNames (n : Node) : Prop :=
  ∀ placed ∈ n.preorder, ∀ s ∈ placed.node.bareTexts, '\n' ∉ s.toList

/-- The names in a tree are unbroken when those of the node and of its parts are. -/
theorem Node.hasUnbrokenNames_iff (n : Node) :
    n.HasUnbrokenNames ↔
      (∀ s ∈ n.bareTexts, '\n' ∉ s.toList) ∧ ∀ part ∈ n.parts, part.node.HasUnbrokenNames :=
  Node.forall_mem_preorder (P := fun n => ∀ s ∈ n.bareTexts, '\n' ∉ s.toList)

/-- The outline of a node, if it has one, describes its layouts wherever it continues a line. -/
def Node.Described (n : Node) : Prop :=
  ∀ o, n.outline? = some o → o.Describes (n.layout · .continueLine)

section

open Layout (lead refuseSingleLine empty_append append_assoc)

/-- Numerals have no line breaks. -/
theorem Text.Numeral.unbroken {cs : List Char} (numeral : Text.Numeral cs) : '\n' ∉ cs := by
  intro mem
  cases numeral _ mem

/-- Float literals have no line breaks. -/
theorem Binary64.literal_unbroken (x : Binary64) : '\n' ∉ x.literal.toList := by
  have sign : Text.Numeral (if x.isNegative then "-" else "").toList := by split <;> decide
  unfold literal
  split
  · rw [String.toList_append]
    exact (sign.append (Text.numeral_decimal x.decimal)).unbroken
  · split
    · decide
    · split <;> decide

/-- The outline of an argument's name describes its layout. -/
theorem Outline.describes_argumentName {name : Option String}
    (unbroken : ∀ s ∈ name.toList, '\n' ∉ s.toList) :
    (argumentName name).Describes fun _ => Layout.argumentName name := by
  cases name with
  | none => exact describes_empty
  | some name =>
    rw [argumentName, Layout.argumentName]
    split
    · exact describes_empty
    · exact (describes_text (unbroken name List.mem_cons_self)).append (describes_text (by decide))

/-- The outline of an entry describes its layout if those of its expressions do. -/
theorem Entry.described {e : Entry} (parts : ∀ x ∈ e.parts, (Node.expression x).Described) :
    e.outline.Describes (e.layout · .continueLine) := by
  obtain ⟨key, value⟩ := e
  have inKey := parts key List.mem_cons_self _ rfl
  have inValue := parts value (List.mem_cons_of_mem _ List.mem_cons_self) _ rfl
  exact (inKey.append (describes_text (by decide))).append inValue

/-- The outline of a comprehension's body describes its layout if those of its expressions do. -/
theorem Body.described {b : Body} (parts : ∀ x ∈ b.parts, (Node.expression x).Described) :
    b.outline.Describes (b.layout · .continueLine) := by
  cases b with
  | element value => exact parts value List.mem_cons_self _ rfl
  | entry e => exact Entry.described parts

/-- The outline of a receiver and its point describes their layout. -/
theorem Expr.described_receiver {receiver : Option Expr}
    (described : ∀ x ∈ receiver.toList, (Node.expression x).Described) :
    (Expr.receiverOutline receiver).Describes (Expr.receiverLayout receiver) := by
  cases receiver with
  | none => exact describes_empty
  | some receiver =>
    have inReceiver := described receiver List.mem_cons_self _ rfl
    exact inReceiver.append (describes_text (by decide))

/-- The items of a list or tuple. -/
theorem Expr.described_items (construct : Construct) {opening closing : String}
    (opens : opening.toList ≠ [] ∧ '\n' ∉ opening.toList)
    (closes : closing.toList ≠ [] ∧ '\n' ∉ closing.toList) {items : List Expr} (fits : Bool)
    (described : ∀ x ∈ items, (Node.expression x).Described) :
    (bracketed construct opening closing fits (Expr.outlines items)).Describes fun position =>
      Layout.bracketed opening closing fits position fun q m => Expr.layouts items q m := by
  have inItems : ∀ x ∈ items, x.outline.Describes (x.layout · .continueLine) :=
    fun x mem => described x mem _ rfl
  rw [Expr.outlines_eq_map]
  refine (describes_bracketed construct opens closes fits inItems
    fun x _ => x.layout_newLine).congr fun position => ?_
  simp only [Expr.layouts_eq_map]

/-- The outline of a dictionary's entries between braces describes their layout. -/
theorem Entry.described_items {entries : List Entry} (fits : Bool)
    (described : ∀ e ∈ entries, ∀ x ∈ e.parts, (Node.expression x).Described) :
    (bracketed .dictionary "\x7b" "\x7d" fits (Entry.outlines entries)).Describes fun position =>
      Layout.bracketed "\x7b" "\x7d" fits position fun q m => Entry.layouts entries q m := by
  rw [Entry.outlines_eq_map]
  refine (describes_bracketed .dictionary (by decide) (by decide) fits
    (fun e mem => Entry.described (described e mem)) fun e _ => e.layout_newLine).congr
      fun position => ?_
  simp only [Entry.layouts_eq_map]

/-- The outline of a call's arguments between parentheses describes their layout. -/
theorem Arg.described_items {args : List Arg} (fits : Bool)
    (described : ∀ a ∈ args, (Node.argument a).Described) :
    (bracketed .call "(" ")" fits (Arg.outlines args)).Describes fun position =>
      Layout.bracketed "(" ")" fits position fun q m => Arg.layouts args q m := by
  have inArgs : ∀ a ∈ args, a.outline.Describes (a.layout · .continueLine) :=
    fun a mem => described a mem _ rfl
  rw [Arg.outlines_eq_map]
  refine (describes_bracketed .call (by decide) (by decide) fits inArgs
    fun a _ => a.layout_newLine).congr fun position => ?_
  simp only [Arg.layouts_eq_map]

private theorem first_ne_nil_around {a b : Outline} {s : String} (full : (a ++ text s ++ b).Full)
    (something : s.toList ≠ []) : (a ++ text s ++ b).first ≠ [] :=
  have starts := starts_of_append (starts_of_append full.first)
  first_append_ne_nil (first_append_ne_nil_of_next starts something) b

/-- What breaks up a comprehension does not start with an empty line. -/
theorem Body.first_ne_nil {b : Body} (full : b.outline.Full) (breaks : b.breaks = true) :
    b.outline.first ≠ [] := by
  cases b with
  | entry e =>
    obtain ⟨key, value⟩ := e
    exact first_ne_nil_around full (by decide)
  | element value =>
    cases value with
    | binary kind left op right => exact first_ne_nil_around full (by cases op <;> decide)
    | comprehension body clauses =>
      have opening : body.kind.opening.toList ≠ [] := by cases body.kind <;> decide
      rw [Body.outline, Expr.outline]
      split
      · exact opening
      · exact first_append_ne_nil (first_append_ne_nil (first_append_ne_nil opening _) _) _
    | call receiver name args =>
      refine first_append_ne_nil_of_next (starts_of_append full.first) ?_
      have opening : "(".toList ≠ [] := by decide
      rw [bracketed]
      split
      · exact first_append_ne_nil (first_append_ne_nil opening _) _
      · exact opening
    | _ => cases breaks

/-- Every clause starts with some text. -/
theorem Clause.first_ne_nil (c : Clause) : c.outline.first ≠ [] := by
  cases c with
  | loop targets iterable =>
    exact first_append_ne_nil (first_append_ne_nil (first_append_ne_nil (by decide) _) _) _
  | guard condition => exact first_append_ne_nil (by decide) _

/-- Broken up, a comprehension has its body and its clauses on lines of their own. -/
private theorem describes_broken {body : Body} {clauses : List Clause} {opening closing : String}
    (opens : opening.toList ≠ [] ∧ '\n' ∉ opening.toList)
    (closes : closing.toList ≠ [] ∧ '\n' ∉ closing.toList) (breaks : body.breaks = true)
    (inBody : body.outline.Describes (body.layout · .continueLine))
    (inClauses : ∀ c ∈ clauses, c.outline.Describes (c.layout · .continueLine)) :
    (stacked (.comprehension body.kind) opening closing
        (body.outline :: clauses.map Clause.outline)).Describes fun p =>
      Layout.text opening
        ++ (Layout.newline ++ body.layout (p + 1) .newLine
          ++ Layout.concat ((Clause.layouts clauses (p + 1) .newLine).map (Layout.newline ++ ·))
          ++ Layout.newline ++ Layout.indent p)
        ++ Layout.text closing := by
  have parts : ∀ part ∈ (body.outline, (body.layout · .continueLine))
        :: clauses.map fun c => (c.outline, (c.layout · .continueLine)),
      part.1.Describes part.2 ∧ part.1.first ≠ [] := by
    refine List.forall_mem_cons.mpr ⟨⟨inBody, Body.first_ne_nil inBody.full breaks⟩, ?_⟩
    exact List.forall_mem_map.mpr fun c mem => ⟨inClauses c mem, c.first_ne_nil⟩
  have described := describes_stacked (.comprehension body.kind) opens closes
    (fun part mem => (parts part mem).1) (fun part mem => (parts part mem).2)
  rw [List.map_cons, List.map_map] at described
  refine described.congr fun p => ?_
  simp only [Clause.layouts_eq_map, Clause.layout_newLine, Body.layout_newLine, List.map_cons,
    List.map_map, Function.comp_def, Layout.concat, List.foldr_cons, append_assoc]

private theorem describes_inline {body : Body} {clauses : List Clause} {opening closing : String}
    (opens : '\n' ∉ opening.toList) (closes : '\n' ∉ closing.toList)
    (inBody : body.outline.Describes (body.layout · .continueLine))
    (inClauses : ∀ c ∈ clauses, c.outline.Describes (c.layout · .continueLine)) :
    (text opening ++ body.outline ++ concat ((clauses.map Clause.outline).map (text " " ++ ·))
        ++ text closing).Describes fun p =>
      Layout.text opening
        ++ (body.layout p .continueLine
          ++ Layout.concat ((Clause.layouts clauses p .continueLine).map (Layout.space ++ ·)))
        ++ Layout.text closing := by
  have blank : (text " ").Describes fun _ => Layout.space :=
    (describes_text (by decide)).of_sameText fun _ => Layout.sameText_space
  have spaced : ∀ c ∈ clauses, (text " " ++ c.outline).Describes
      fun p => Layout.space ++ c.layout p .continueLine :=
    fun c mem => blank.append (inClauses c mem)
  have described := (((describes_text opens).append inBody).append
    (describes_concat spaced)).append (describes_text closes)
  rw [List.map_map]
  refine described.congr fun p => ?_
  simp only [Clause.layouts_eq_map, List.map_map, Function.comp_def, append_assoc]

/-- The outline of a comprehension describes its layout, on one line or broken up. -/
theorem Expr.described_comprehension {body : Body} {clauses : List Clause}
    (inBody : ∀ x ∈ body.parts, (Node.expression x).Described)
    (inClauses : ∀ c ∈ clauses, (Node.clause c).Described) :
    (Expr.comprehension body clauses).outline.Describes
      ((Expr.comprehension body clauses).layout · .continueLine) := by
  have bodyDescribed := Body.described inBody
  have clausesDescribed : ∀ c ∈ clauses, c.outline.Describes (c.layout · .continueLine) :=
    fun c mem => inClauses c mem _ rfl
  have opens : body.kind.opening.toList ≠ [] ∧ '\n' ∉ body.kind.opening.toList := by
    cases body.kind <;> decide
  have closes : body.kind.closing.toList ≠ [] ∧ '\n' ∉ body.kind.closing.toList := by
    cases body.kind <;> decide
  rw [Expr.outline, Clause.outlines_eq_map]
  -- Without clauses the layout fails, and there is nothing to describe.
  split
  next breaks =>
    refine (describes_broken opens closes breaks bodyDescribed clausesDescribed).of_sound
      fun p sound => ?_
    rw [Expr.layout, lead, empty_append, if_pos breaks] at sound ⊢
    split at sound
    next => cases sound
    next more => rw [if_neg more]
  next fits =>
    refine (describes_inline opens.2 closes.2 bodyDescribed clausesDescribed).of_sound
      fun p sound => ?_
    rw [Expr.layout, lead, empty_append, if_neg fits] at sound ⊢
    split at sound
    next => cases sound
    next more => rw [if_neg more]

/-- The outline of an expression describes its layout if those of its parts do. -/
theorem Expr.described {e : Expr} (names : ∀ s ∈ e.bareTexts, '\n' ∉ s.toList)
    (parts : ∀ part ∈ e.parts, part.node.Described) : (Node.expression e).Described := by
  intro o outlined
  cases outlined
  cases e with
  | string value => exact describes_quoted value
  | integer value => exact describes_text (Text.numeral_ofInt value.toInt).unbroken
  | float value => exact describes_text value.literal_unbroken
  | boolean value =>
    have unbroken : '\n' ∉ (if value then "True" else "False").toList := by cases value <;> decide
    exact describes_text unbroken
  | none => exact describes_text (by decide)
  | reference target => exact describes_text (names _ List.mem_cons_self)
  | call receiver name args =>
    have inReceiver := Expr.described_receiver fun x mem =>
      parts _ (List.mem_append_left _ (List.mem_map_of_mem (a := x) mem))
    have inArgs := Arg.described_items (argsFit args) fun a mem =>
      parts _ (List.mem_append_right _ (List.mem_map_of_mem (a := a) mem))
    exact (inReceiver.append (describes_text (names name List.mem_cons_self))).append inArgs
  | binary kind left op right =>
    have inLeft := parts _ List.mem_cons_self _ rfl
    have inRight := parts _ (List.mem_cons_of_mem _ List.mem_cons_self) _ rfl
    have unbroken : '\n' ∉ (" " ++ op.text ++ " ").toList := by cases op <;> decide
    have inOperator := (describes_text unbroken).of_sameText fun _ => Layout.sameText_operator op
    exact (inLeft.append inOperator).append inRight
  | comprehension body clauses =>
    exact Expr.described_comprehension
      (fun x mem => parts _ (List.mem_append_left _ (List.mem_map_of_mem mem)))
      (fun c mem => parts _ (List.mem_append_right _ (List.mem_map_of_mem mem)))
  | slice receiver bounds =>
    have inReceiver := parts _ List.mem_cons_self _ rfl
    have unbroken : '\n' ∉ ("[" ++ bounds.text ++ "]").toList := by
      simp [(Text.numeral_bounds bounds).unbroken]
    exact inReceiver.append
      ((describes_text unbroken).of_sameText fun _ => Layout.sameText_bounds bounds)
  | list items =>
    exact Expr.described_items .list (by decide) (by decide) _ fun x mem =>
      parts _ (List.mem_map_of_mem mem)
  | tuple items =>
    have closes : (if items.length = 1 then ",)" else ")").toList ≠ [] ∧
        '\n' ∉ (if items.length = 1 then ",)" else ")").toList := by
      split <;> decide
    have opens : "(".toList ≠ [] ∧ '\n' ∉ "(".toList := by decide
    have inItems := Expr.described_items .tuple opens closes (itemsFit items) fun x mem =>
      parts _ (List.mem_map_of_mem mem)
    exact inItems.of_sameText fun _ => Layout.sameText_tupled _ _ _ _
  | dictionary entries =>
    refine Entry.described_items _ fun e mem x memEntry => ?_
    exact parts _ (List.mem_map_of_mem (List.mem_flatMap.mpr ⟨e, mem, memEntry⟩))
  | raw s => exact describes_text (names _ List.mem_cons_self)

/-- The outline of a clause describes its layout if those of its parts do. -/
theorem Clause.described {c : Clause} (parts : ∀ part ∈ c.parts, part.node.Described) :
    (Node.clause c).Described := by
  intro o outlined
  cases outlined
  cases c with
  | loop targets iterable =>
    have inTargets : ∀ x ∈ targets, x.outline.Describes (x.layout · .continueLine) :=
      fun x mem => parts _ (List.mem_append_left _ (List.mem_map_of_mem mem)) _ rfl
    have inIterable := parts _ (List.mem_append_right _ List.mem_cons_self) _ rfl
    have bound := describes_commaSeparated inTargets
    rw [Clause.outline, Expr.outlines_eq_map]
    refine ((((describes_text (by decide)).append bound).append
      (describes_text (by decide))).append inIterable).of_sound fun p sound => ?_
    rw [Node.layout, Clause.layout, lead, empty_append, Expr.layouts_eq_map] at sound ⊢
    split at sound
    next => cases sound
    next some =>
      rw [if_neg some]
      rfl
  | guard condition =>
    have inCondition := parts _ List.mem_cons_self _ rfl
    exact (describes_text (by decide)).append inCondition

/-- The outline of an argument describes its layout if that of its value does. -/
theorem Arg.described {a : Arg} (names : ∀ s ∈ a.name.toList, '\n' ∉ s.toList)
    (inValue : (Node.expression a.value).Described) : (Node.argument a).Described := by
  intro o outlined
  cases outlined
  obtain ⟨name, value⟩ := a
  exact (describes_argumentName names).append (inValue _ rfl)

/-- The outline of a symbol describes its layout. -/
theorem Symbol.described {s : Symbol} (names : ∀ t ∈ s.localName.toList, '\n' ∉ t.toList) :
    s.outline.Describes (s.layout · .continueLine) := by
  obtain ⟨name, localName⟩ := s
  cases localName with
  | none => exact describes_empty.append (describes_quoted name)
  | some localName =>
    have inLocal := names localName List.mem_cons_self
    exact ((describes_text inLocal).append (describes_text (by decide))).append
      (describes_quoted name)

/-- The outline of a load describes its layout. -/
theorem Load.described {l : Load}
    (symbols : ∀ s ∈ l.symbols, s.outline.Describes (s.layout · .continueLine)) :
    (Node.statement (.load l)).Described := by
  intro o outlined
  cases outlined
  -- The file and the symbols are items of one list, although they are of different types.
  have parts : ∀ part ∈ (quoted l.file, fun q n => lead .string q n ++ Layout.quoted q l.file)
        :: l.symbols.map fun s => (s.outline, s.layout),
      part.1.Describes (part.2 · .continueLine) ∧
        ∀ q, part.2 q .newLine = Layout.indent q ++ part.2 q .continueLine := by
    refine List.forall_mem_cons.mpr ⟨⟨describes_quoted l.file, fun q => rfl⟩, ?_⟩
    exact List.forall_mem_map.mpr fun s mem => ⟨symbols s mem, s.layout_newLine⟩
  have opens : "load(".toList ≠ [] ∧ '\n' ∉ "load(".toList := by decide
  have closes : ")".toList ≠ [] ∧ '\n' ∉ ")".toList := by decide
  have described := describes_bracketed .load opens closes (l.symbols.length = 1)
    (fun part mem => (parts part mem).1) (fun part mem => (parts part mem).2)
  rw [List.map_cons, List.map_map] at described
  refine described.of_sound fun p sound => ?_
  rw [Node.layout, Statement.layout, Load.layout] at sound ⊢
  split at sound
  next => cases sound
  next some =>
    rw [if_neg some, lead, empty_append]
    simp only [List.map_cons, List.map_map, Function.comp_def]

end

/-- Every node that has an outline is described by it, if no line break comes in by a name. -/
theorem Node.described (n : Node) : n.HasUnbrokenNames → n.Described := by
  induction n using Node.induction with
  | step n ih =>
    intro unbroken
    obtain ⟨names, inParts⟩ := n.hasUnbrokenNames_iff.mp unbroken
    have parts : ∀ part ∈ n.parts, part.node.Described := fun part mem =>
      ih part mem (inParts part mem)
    cases n with
    | file f => exact fun o outlined => by cases outlined
    | statement s =>
      cases s with
      | load imported =>
        exact Load.described fun s mem => parts _ (List.mem_map_of_mem mem) _ rfl
      | _ => exact fun o outlined => by cases outlined
    | expression e => exact Expr.described names parts
    | clause c => exact Clause.described parts
    | argument a => exact Arg.described names (parts _ List.mem_cons_self)
    | symbol s =>
      intro o outlined
      cases outlined
      exact Symbol.described names

/-- A node with an outline stands below statements or is a load. -/
theorem Node.kind_of_outline? {n : Node} {o : Outline} (outlined : n.outline? = some o) :
    n.isStatement = false ∨ ∃ imported, n = .statement (.load imported) := by
  cases n with
  | file f => cases outlined
  | statement s =>
    cases s with
    | load imported => exact .inr ⟨imported, rfl⟩
    | _ => cases outlined
  | _ => exact .inl rfl

/-- The text of a node with an outline, whether it starts a line or continues one. -/
theorem Node.chars_layout {n : Node} {o : Outline} (outlined : n.outline? = some o)
    (unbroken : n.HasUnbrokenNames) {mode : LineMode} (multiline : mode ≠ .singleLine) {p : Nat}
    (sound : (n.layout p mode).failure = none) (width : Nat) :
    (n.layout p mode).chars width =
      (if mode = .newLine then List.replicate (width * p) ' ' else []) ++ o.chars width p := by
  have described := n.described unbroken o outlined
  cases mode with
  | newLine =>
    rcases n.layout_newLine (Node.kind_of_outline? outlined) p with starts | ⟨e, fails⟩
    · rw [starts, Layout.failure_append, Layout.failure_indent, Option.none_or] at sound
      rw [starts, Layout.chars_append (Layout.failure_indent p), Layout.chars_indent,
        described.chars_eq width p sound]
      rfl
    · rw [fails] at sound
      cases sound
  | continueLine => exact described.chars_eq width p sound
  | singleLine => exact absurd rfl multiline

/-! ## Failures -/

/-- The error of a layout that stands deeper by some levels. A load without symbols is reported
without a position. -/
def LayoutError.below (levels : Nat) : LayoutError → LayoutError
  | .unsupportedMode construct position => .unsupportedMode construct (position + levels)
  | .emptyComprehension kind position => .emptyComprehension kind (position + levels)
  | .missingLoopVariables position => .missingLoopVariables (position + levels)
  | .emptyLoad file => .emptyLoad file
  | .misplacedStatement construct mode position =>
    .misplacedStatement construct mode (position + levels)

/-- A fault of a node found deeper is the same fault at a deeper position. -/
theorem Node.fault?_add (mode : LineMode) (position levels : Nat) (n : Node) :
    n.fault? mode (position + levels) = (n.fault? mode position).map (.below levels) := by
  unfold Node.fault?
  split
  · rfl
  · rfl
  · rfl
  · split <;> rfl
  · rfl

/-- The first fault of a tree found deeper is the same fault at a deeper position. -/
theorem Node.firstFault?_add (mode : LineMode) (position levels : Nat) (n : Node) :
    n.firstFault? mode (position + levels) = (n.firstFault? mode position).map (.below levels) := by
  rw [Node.firstFault?, Node.firstFault?, List.map_findSome?]
  congr 1
  funext placed
  rw [Nat.add_right_comm]
  exact placed.node.fault?_add mode _ levels

/-! ## The text of a node at every width and position -/

namespace Style

/-- The text of a node that continues a line follows its outline, which is the same for every width
of a level and every position: the first line, and then each line behind a line break, indented by
the position and the number of stacked layouts that are open at it unless it is empty. A node that
cannot be formatted fails everywhere with the same error, moved to the position. -/
theorem formatNode_follows_outline (node : Node)
    (kind : node.isStatement = false ∨ ∃ imported, node = .statement (.load imported)) :
    ∃ outline, node.outline? = some outline ∧
      (node.HasUnbrokenNames →
        ∀ s, formatNode ⟨0⟩ node 0 .continueLine = .ok s →
          outline.Unbroken ∧
          ∀ (style : Style) (position : Nat),
            style.formatNode node position .continueLine =
              .ok (String.ofList (outline.first ++ outline.rest.flatMap fun line =>
                '\n' :: if line.text = [] then [] else
                  List.replicate (style.indentWidth * (position + line.inside.length)) ' '
                    ++ line.text))) ∧
      ∀ e, formatNode ⟨0⟩ node 0 .continueLine = .error e →
        ∀ (style : Style) (position : Nat),
          style.formatNode node position .continueLine = .error (e.below position) := by
  obtain ⟨outline, outlined⟩ := node.exists_outline kind
  have moved (position : Nat) : (node.layout position .continueLine).failure =
      (node.layout 0 .continueLine).failure.map (.below position) := by
    rw [node.layout_failure _ LineMode.continueLine_ne,
      node.layout_failure _ LineMode.continueLine_ne,
      ← Node.firstFault?_add, Nat.zero_add]
  refine ⟨outline, outlined, fun unbroken s formatted => ?_, fun e failed style position => ?_⟩
  · have described := node.described unbroken outline outlined
    have sound := formatNode_succeeds_iff.mp ⟨s, formatted⟩
    refine ⟨described.unbroken, fun style position => ?_⟩
    have soundThere : (node.layout position .continueLine).failure = none := by
      rw [moved, sound]
      rfl
    rw [style.formatNode_eq soundThere, described.chars_eq _ _ soundThere]
    rfl
  · rw [formatNode_eq_error_iff, moved, formatNode_eq_error_iff.mp failed]
    rfl

/-- A list over several lines, with a block of text that has an empty line and a call around another
list of this kind. -/
def nestedStacks : Node :=
  .expression (.list [.string "a\n\nb",
    .call none "f" [⟨some "x", .tuple [.none, .reference ⟨"name", .any⟩]⟩]])

/-- The lines of the list, the innermost of them two levels deep. -/
theorem formatNode_nestedStacks :
    (nestedStacks.isStatement = false ∨ ∃ imported, nestedStacks = .statement (.load imported)) ∧
      nestedStacks.HasUnbrokenNames ∧
      (∃ s, formatNode ⟨0⟩ nestedStacks 0 .continueLine = .ok s) ∧
      ∀ (style : Style) (position : Nat),
        style.formatNode nestedStacks position .continueLine =
          .ok (String.ofList (['['] ++
            [(⟨[.list], "\"\"\"".toList⟩ : Line), ⟨[.list], "a".toList⟩, ⟨[.list], []⟩,
              ⟨[.list], "b".toList⟩, ⟨[.list], "\"\"\",".toList⟩, ⟨[.list], "f(x = (".toList⟩,
              ⟨[.list, .tuple], "None,".toList⟩, ⟨[.list, .tuple], "name,".toList⟩,
              ⟨[.list], ")),".toList⟩, ⟨[], "]".toList⟩].flatMap fun line =>
                '\n' :: if line.text = [] then [] else
                  List.replicate (style.indentWidth * (position + line.inside.length)) ' '
                    ++ line.text)) := by
  have unbroken : nestedStacks.HasUnbrokenNames := by
    simp [nestedStacks, Node.hasUnbrokenNames_iff (.expression _),
      Node.hasUnbrokenNames_iff (.argument _), Node.bareTexts, Expr.bareTexts, Node.parts,
      Expr.parts]
  have formatted : ∃ s, formatNode ⟨0⟩ nestedStacks 0 .continueLine = .ok s := ⟨_, rfl⟩
  obtain ⟨s, formatted'⟩ := formatted
  obtain ⟨outline, outlined, follows, -⟩ := formatNode_follows_outline nestedStacks (.inl rfl)
  cases outlined
  exact ⟨.inl rfl, unbroken, ⟨s, formatted'⟩, (follows unbroken s formatted').2⟩

end Style

end StarlarkCode
