import Ecma.Proofs.Grammar.Word
import Ecma.Proofs.Syntax.Building
import Ecma.Syntax.Parse
import Mathlib.Data.List.Forall2

set_option autoImplicit false

/-!
How operators between operands group. A row of operands with operators between them has one tree in which
every operator binds at least as tightly as the one above it and those that bind alike group to the left; the
expression that is built of the row draws that tree.
-/

namespace Ecma.Syntax

open Ecma.Grammar
open Ecma.Grammar.Es (operatorText)

/-! Trees of operators. -/

/-- Operands joined by operators, which are named by their texts. -/
inductive Grouping (α : Type) where
  | operand (a : α)
  | join (op : String) (left right : Grouping α)

/-- The operators from the loosest to the tightest; those of one row bind alike. -/
def bindingOrder : List (List String) :=
  [["||"], ["&&"], ["|"], ["^"], ["&"], ["==", "!=", "===", "!=="],
    ["<", ">", "<=", ">=", "instanceof", "in"], ["<<", ">>", ">>>"], ["+", "-"], ["*", "/", "%"]]

def rank (op : String) : Nat :=
  bindingOrder.findIdx (·.contains op)

/-- Operands and operators in turn, from the first operand on. -/
def interleave {α : Type} : List α → List String → List (α ⊕ String)
  | a :: operands, op :: operators => .inl a :: .inr op :: interleave operands operators
  | operands, [] => operands.map .inl
  | [], _ => []

namespace Grouping

variable {α : Type}

def inorder : Grouping α → List (α ⊕ String)
  | .operand a => [.inl a]
  | .join op left right => left.inorder ++ .inr op :: right.inorder

/-- The operator at the top is one of these, if there is one. -/
def Topped (fits : String → Prop) : Grouping α → Prop
  | .operand _ => True
  | .join op _ _ => fits op

/-- An operator binds no looser than the one above it, and tighter than the one to the left of it. -/
def Grouped : Grouping α → Prop
  | .operand _ => True
  | .join op left right => left.Grouped ∧ right.Grouped ∧
      left.Topped (fun below => rank op ≤ rank below) ∧ right.Topped (fun below => rank op < rank below)

def first : Grouping α → α
  | .operand a => a
  | .join _ left _ => left.first

def last : Grouping α → α
  | .operand a => a
  | .join _ _ right => right.last

theorem topped_mono (p q : String → Prop) (implies : ∀ op, p op → q op) (tree : Grouping α) (topped : tree.Topped p) :
    tree.Topped q := by
  cases tree with
  | operand => trivial
  | join op left right => exact implies op topped

/-- What holds of the ranks from the top down holds of every operator. -/
theorem grouped_ranks (least : Nat) (tree : Grouping α) (grouped : tree.Grouped)
    (topped : tree.Topped fun op => least ≤ rank op) (op : String) (member : .inr op ∈ tree.inorder) :
    least ≤ rank op := by
  induction tree generalizing least with
  | operand a => cases List.mem_singleton.mp member
  | join above left right hypLeft hypRight =>
    obtain ⟨leftGrouped, rightGrouped, leftTop, rightTop⟩ := grouped
    have above : least ≤ rank above := topped
    rcases List.mem_append.mp member with inside | inside
    · exact Nat.le_trans above (hypLeft _ leftGrouped leftTop inside)
    · rcases List.mem_cons.mp inside with same | inside
      · cases same
        exact above
      · exact Nat.le_trans above (hypRight _ rightGrouped
          (topped_mono _ _ (fun _ => Nat.le_of_lt) right rightTop) inside)

theorem inorder_solid (tree : Grouping α) : tree.inorder ≠ [] := by
  cases tree with
  | operand => exact List.cons_ne_nil _ _
  | join => exact List.append_ne_nil_of_right_ne_nil _ (List.cons_ne_nil _ _)

theorem operand_alone (a : α) (op : String) (left right : Grouping α) :
    (operand a).inorder ≠ (join op left right).inorder := by
  intro same
  have long := congrArg List.length same
  have solid := List.length_pos_iff.mpr left.inorder_solid
  rw [inorder, inorder, List.length_singleton, List.length_append, List.length_cons] at long
  omega

-- Of two operators at the top of one row, neither can stand to the right of the other.
theorem split_once (op op' : String) (left right left' right' : Grouping α) (grouped : (join op left right).Grouped)
    (grouped' : (join op' left' right').Grouped) (more : List (α ⊕ String))
    (leftSame : left'.inorder = left.inorder ++ more) (rightSame : .inr op :: right.inorder = more ++ .inr op' :: right'.inorder) :
    more = [] := by
  cases more with
  | nil => rfl
  | cons x more =>
    obtain ⟨rfl, rest⟩ := List.cons_eq_cons.mp rightSame
    have above : rank op' ≤ rank op := grouped_ranks _ left' grouped'.1 grouped'.2.2.1 op (by
      rw [leftSame]
      exact List.mem_append_right _ List.mem_cons_self)
    have below : rank op < rank op' := grouped_ranks _ right grouped.2.1 grouped.2.2.2 op' (by
      rw [rest]
      exact List.mem_append_right _ List.mem_cons_self)
    exact absurd below (Nat.not_lt.mpr above)

/-- A row groups in one way. -/
theorem grouped_once (tree other : Grouping α) (grouped : tree.Grouped) (otherGrouped : other.Grouped)
    (same : tree.inorder = other.inorder) : tree = other := by
  induction tree generalizing other with
  | operand a =>
    cases other with
    | operand b =>
      cases same
      rfl
    | join op left right => exact absurd same (operand_alone a op left right)
  | join op left right hypLeft hypRight =>
    cases other with
    | operand b => exact absurd same.symm (operand_alone b op left right)
    | join op' left' right' =>
      have split : left.inorder = left'.inorder ∧ (Sum.inr op :: right.inorder) = .inr op' :: right'.inorder := by
        rcases List.append_eq_append_iff.mp same with ⟨more, leftSame, rightSame⟩ | ⟨more, leftSame, rightSame⟩
        · cases split_once op op' left right left' right' grouped otherGrouped more leftSame rightSame
          exact ⟨by rw [leftSame, List.append_nil], rightSame⟩
        · cases split_once op' op left' right' left right otherGrouped grouped more leftSame rightSame
          exact ⟨by rw [leftSame, List.append_nil], rightSame.symm⟩
      obtain ⟨head, tail⟩ := List.cons_eq_cons.mp split.2
      cases head
      rw [hypLeft left' grouped.1 otherGrouped.1 split.1, hypRight right' grouped.2.1 otherGrouped.2.1 tail]

/-! Grouping by levels. -/

/-- The tree that an operator makes of two trees. -/
def joined (op : Infix) (left right : Grouping α) : Grouping α :=
  .join (operatorText op) left right

theorem level_rank (op : Infix) : level op = rank (operatorText op) + 1 := by
  cases op <;> decide

/-- Trees that wait for their right sides, the last one first; each operator binds tighter than the one before it. -/
def Waiting : List (Grouping α × Infix) → Prop
  | [] => True
  | (left, op) :: waiting => left.Grouped ∧ left.Topped (fun below => rank (operatorText op) ≤ rank below) ∧
      (∀ before ∈ waiting.head?, rank (operatorText before.2) < rank (operatorText op)) ∧ Waiting waiting

/-- The row that waits. -/
def waitingRow : List (Grouping α × Infix) → List (α ⊕ String)
  | [] => []
  | (left, op) :: waiting => waitingRow waiting ++ left.inorder ++ [.inr (operatorText op)]

/-- The tree may stand to the right of what waits. -/
def Follows (waiting : List (Grouping α × Infix)) (tree : Grouping α) : Prop :=
  ∀ before ∈ waiting.head?, tree.Topped fun below => rank (operatorText before.2) < rank below

theorem settle_grouped (least : Nat) (waiting : List (Grouping α × Infix)) (right : Grouping α)
    (waits : Waiting waiting) (grouped : right.Grouped) (follows : Follows waiting right)
    (tight : right.Topped fun below => least ≤ rank below + 1) :
    Waiting (settle joined least waiting right).1 ∧ (settle joined least waiting right).2.Grouped ∧
      (settle joined least waiting right).2.Topped (fun below => least ≤ rank below + 1) ∧
      (∀ before ∈ (settle joined least waiting right).1.head?, rank (operatorText before.2) + 1 < least) ∧
      waitingRow (settle joined least waiting right).1 ++ (settle joined least waiting right).2.inorder =
        waitingRow waiting ++ right.inorder := by
  induction waiting generalizing right with
  | nil => exact ⟨trivial, grouped, tight, fun _ none => (by cases none), rfl⟩
  | cons entry waiting hyp =>
    obtain ⟨left, op⟩ := entry
    obtain ⟨leftGrouped, leftTop, before, waits⟩ := waits
    rw [settle]
    by_cases binds : least ≤ level op
    · rw [if_pos binds]
      rw [level_rank] at binds
      have rightTop := follows (left, op) rfl
      obtain ⟨waits, grouped, tight, loose, row⟩ := hyp (joined op left right) waits
        ⟨leftGrouped, grouped, leftTop, rightTop⟩ before binds
      refine ⟨waits, grouped, tight, loose, row.trans ?_⟩
      rw [joined, inorder, waitingRow, List.append_assoc, List.append_assoc]
      rfl
    · rw [if_neg binds]
      refine ⟨⟨leftGrouped, leftTop, before, waits⟩, grouped, tight, fun entry here => ?_, rfl⟩
      cases here
      rw [level_rank] at binds
      exact Nat.lt_of_not_le binds

/-- Each operator with its operand as a tree. -/
def operandsOf (rest : List (Infix × α)) : List (Infix × Grouping α) :=
  rest.map fun next => (next.1, .operand next.2)

/-- The row of the operators and operands to come. -/
def restRow : List (Infix × α) → List (α ⊕ String)
  | [] => []
  | (op, a) :: rest => .inr (operatorText op) :: .inl a :: restRow rest

-- The induction is on the operators to come; what waits stays a row of its own.
theorem group_with_grouped (waiting : List (Grouping α × Infix)) (a : α) (rest : List (Infix × α))
    (waits : Waiting waiting) :
    (groupWith joined waiting (.operand a) (operandsOf rest)).Grouped ∧
      (groupWith joined waiting (.operand a) (operandsOf rest)).inorder =
        waitingRow waiting ++ .inl a :: restRow rest := by
  induction rest generalizing waiting a with
  | nil =>
    have settled := settle_grouped 0 waiting (.operand a) waits trivial (fun _ _ => trivial) trivial
    rw [operandsOf, List.map_nil, groupWith]
    generalize settle joined 0 waiting (.operand a) = result at settled ⊢
    obtain ⟨kept, whole⟩ := result
    obtain ⟨_, grouped, _, loose, row⟩ := settled
    cases kept with
    | nil => exact ⟨grouped, row⟩
    | cons entry others => exact absurd (loose entry rfl) (Nat.not_lt_zero _)
  | cons next rest hyp =>
    obtain ⟨op, b⟩ := next
    have settled := settle_grouped (level op) waiting (.operand a) waits trivial (fun _ _ => trivial) trivial
    rw [operandsOf, List.map_cons, groupWith]
    generalize settle joined (level op) waiting (.operand a) = result at settled ⊢
    obtain ⟨kept, left⟩ := result
    obtain ⟨waits, grouped, tight, loose, row⟩ := settled
    rw [level_rank] at tight loose
    obtain ⟨whole, rows⟩ := hyp ((left, op) :: kept) b
      ⟨grouped, topped_mono _ _ (fun _ => Nat.le_of_succ_le_succ) _ tight,
        fun before here => Nat.lt_of_succ_lt_succ (loose before here), waits⟩
    refine ⟨whole, rows.trans ?_⟩
    rw [waitingRow, row, inorder, List.append_assoc, List.append_assoc]
    rfl

theorem interleave_rest (a : α) (rest : List (Infix × α)) :
    interleave (a :: rest.map Prod.snd) (rest.map fun next => operatorText next.1) = .inl a :: restRow rest := by
  induction rest generalizing a with
  | nil => rfl
  | cons next rest hyp =>
    rw [List.map_cons, List.map_cons, interleave, hyp]
    rfl

theorem group_grouped (a : α) (rest : List (Infix × α)) :
    (group joined (.operand a) (operandsOf rest)).Grouped ∧
      (group joined (.operand a) (operandsOf rest)).inorder = .inl a :: restRow rest :=
  group_with_grouped [] a rest trivial

end Grouping

/-! Expressions that draw a tree. -/

/-- The operators of the tokens, those that may leave out their right side first. -/
def logicalOperators : List (String × LogicalOp) :=
  [("||", .or), ("&&", .and)]

def binaryOperators : List (String × BinaryOp) :=
  [("|", .bitOr), ("^", .bitXor), ("&", .bitAnd), ("==", .equal), ("!=", .unequal), ("===", .strictEqual),
    ("!==", .strictUnequal), ("<", .less), (">", .greater), ("<=", .lessEqual), (">=", .greaterEqual),
    ("instanceof", .instanceOf), ("in", .isIn), ("<<", .shiftLeft), (">>", .shiftRight),
    (">>>", .shiftRightUnsigned), ("+", .add), ("-", .subtract), ("*", .multiply), ("/", .divide), ("%", .remainder)]

/-- An expression for a tree; every node spans its operands. -/
inductive Draws : Grouping Expression → Expression → Prop
  | operand (e : Expression) : Draws (.operand e) e
  | logical (op : String) (named : LogicalOp) (left right : Grouping Expression) (a b : Expression)
      (known : (op, named) ∈ logicalOperators) (drawnLeft : Draws left a) (drawnRight : Draws right b) :
      Draws (.join op left right) (.logical ⟨left.first.span.start, right.last.span.stop⟩ named a b)
  | binary (op : String) (named : BinaryOp) (left right : Grouping Expression) (a b : Expression)
      (known : (op, named) ∈ binaryOperators) (drawnLeft : Draws left a) (drawnRight : Draws right b) :
      Draws (.join op left right) (.binary ⟨left.first.span.start, right.last.span.stop⟩ named a b)

theorem draws_span (tree : Grouping Expression) (e : Expression) (drawn : Draws tree e) :
    e.span.start = tree.first.span.start ∧ e.span.stop = tree.last.span.stop := by
  cases drawn <;> exact ⟨rfl, rfl⟩

theorem infix_draws (op : Infix) (left right : Grouping Expression) (a b : Expression) (drawnLeft : Draws left a)
    (drawnRight : Draws right b) : Draws (Grouping.joined op left right) (infixExpression op a b) := by
  have span : (⟨a.span.start, b.span.stop⟩ : Span) = ⟨left.first.span.start, right.last.span.stop⟩ := by
    rw [(draws_span left a drawnLeft).1, (draws_span right b drawnRight).2]
  cases op with
  | or | and =>
    change Draws _ (.logical ⟨a.span.start, b.span.stop⟩ _ a b)
    rw [span]
    exact .logical _ _ left right a b (by decide) drawnLeft drawnRight
  | _ =>
    change Draws _ (.binary ⟨a.span.start, b.span.stop⟩ _ a b)
    rw [span]
    exact .binary _ _ left right a b (by decide) drawnLeft drawnRight

section

variable {α β : Type} (related : α → β → Prop) (join : Infix → α → α → α) (join' : Infix → β → β → β)
  (closed : ∀ op left right a b, related left a → related right b → related (join op left right) (join' op a b))
include closed

theorem settle_related (least : Nat) (waiting : List (α × Infix)) (waiting' : List (β × Infix)) (right : α) (b : β)
    (waits : List.Forall₂ (fun x y => related x.1 y.1 ∧ x.2 = y.2) waiting waiting') (rightRelated : related right b) :
    List.Forall₂ (fun x y => related x.1 y.1 ∧ x.2 = y.2) (settle join least waiting right).1
        (settle join' least waiting' b).1 ∧
      related (settle join least waiting right).2 (settle join' least waiting' b).2 := by
  induction waits generalizing right b with
  | nil => exact ⟨.nil, rightRelated⟩
  | @cons x y waiting waiting' both others hyp =>
    obtain ⟨left, op⟩ := x
    obtain ⟨a, op'⟩ := y
    obtain ⟨leftRelated, rfl⟩ := both
    rw [settle, settle]
    by_cases binds : least ≤ level op
    · rw [if_pos binds, if_pos binds]
      exact hyp _ _ (closed op left right a b leftRelated rightRelated)
    · rw [if_neg binds, if_neg binds]
      exact ⟨.cons ⟨leftRelated, rfl⟩ others, rightRelated⟩

-- What groups alike stays alike.
theorem group_with_related (waiting : List (α × Infix)) (waiting' : List (β × Infix)) (x : α) (y : β)
    (rest : List (Infix × α)) (rest' : List (Infix × β))
    (waits : List.Forall₂ (fun x y => related x.1 y.1 ∧ x.2 = y.2) waiting waiting') (first : related x y)
    (others : List.Forall₂ (fun x y => x.1 = y.1 ∧ related x.2 y.2) rest rest') :
    related (groupWith join waiting x rest) (groupWith join' waiting' y rest') := by
  induction others generalizing waiting waiting' x y with
  | nil => exact (settle_related related join join' closed 0 waiting waiting' x y waits first).2
  | @cons next next' rest rest' both others hyp =>
    obtain ⟨op, z⟩ := next
    obtain ⟨op', w⟩ := next'
    obtain ⟨rfl, nextRelated⟩ := both
    obtain ⟨kept, leftRelated⟩ := settle_related related join join' closed (level op) waiting waiting' x y waits first
    rw [groupWith, groupWith]
    exact hyp _ _ z w (.cons ⟨leftRelated, rfl⟩ kept) nextRelated

end

theorem group_draws (e : Expression) (rest : List (Infix × Expression)) :
    Draws (group Grouping.joined (.operand e) (Grouping.operandsOf rest)) (group infixExpression e rest) := by
  refine group_with_related Draws _ _ infix_draws [] [] _ _ _ _ .nil (.operand e) ?_
  rw [Grouping.operandsOf, List.forall₂_map_left_iff]
  exact List.forall₂_same.mpr fun next _ => ⟨rfl, .operand next.2⟩

/-! Operands that are built. -/

section

variable {α β : Type}

theorem build_goes_on (x : Build α) (f : α → Build β) (b after : Builder) (a : α) (is : x b = .ok a after) :
    (x >>= f) b = f a after := by
  change EStateM.bind x f b = _
  rw [EStateM.bind, is]

theorem build_stops (x : Build α) (f : α → Build β) (b after : Builder) (cause : SyntaxError)
    (is : x b = .error cause after) : (x >>= f) b = .error cause after := by
  change EStateM.bind x f b = _
  rw [EStateM.bind, is]

end

/-- Operator tokens and operands in turn. -/
def inTurn (pairs : List (Node Rule × Node Rule)) : Nodes :=
  pairs.flatMap fun pair => [pair.1, pair.2]

/-- The node is an operator with the text of its own. -/
def IsOperator (node : Node Rule) : Prop :=
  ∃ op, node.rule = .operator op ∧ node.text = operatorText op

theorem operands_are (pairs : List (Node Rule × Node Rule)) (operators : ∀ pair ∈ pairs, IsOperator pair.1) (b : Builder) :
    (∀ cause after, expressions (pairs.map Prod.snd) b = .error cause after →
      operands (inTurn pairs) b = .error cause after) ∧
    ∀ es after, expressions (pairs.map Prod.snd) b = .ok es after →
      ∃ rest, operands (inTurn pairs) b = .ok rest after ∧ rest.map Prod.snd = es ∧
        (rest.map fun next => operatorText next.1) = pairs.map fun pair => pair.1.text := by
  induction pairs generalizing b with
  | nil =>
    refine ⟨fun _ _ fails => ?_, fun es after is => ?_⟩
    · rw [List.map_nil, expressions] at fails
      cases fails
    · rw [List.map_nil, expressions] at is
      cases is
      refine ⟨[], ?_, rfl, rfl⟩
      rw [inTurn, List.flatMap_nil, operands]
      rfl
  | cons pair pairs hyp =>
    obtain ⟨token, operand⟩ := pair
    obtain ⟨op, rule, text⟩ := operators _ List.mem_cons_self
    obtain ⟨_, start, stop, input, parts⟩ := token
    cases rule
    have built : operands (inTurn ((.mk (.operator op) start stop input parts, operand) :: pairs)) = do
        let e ← expression operand
        return (op, e) :: (← operands (inTurn pairs)) := by
      rw [inTurn, List.flatMap_cons, List.cons_append, List.singleton_append, operands]
      rfl
    rw [List.map_cons, expressions, built]
    cases first : expression operand b with
    | error cause after =>
      rw [build_stops _ _ _ _ _ first, build_stops _ _ _ _ _ first]
      refine ⟨fun _ _ same => ?_, fun _ _ same => ?_⟩ <;> cases same
      rfl
    | ok e between =>
      rw [build_goes_on _ _ _ _ _ first, build_goes_on _ _ _ _ _ first]
      obtain ⟨stops, goes⟩ := hyp (fun pair member => operators pair (.tail _ member)) between
      cases others : expressions (pairs.map Prod.snd) between with
      | error cause after =>
        rw [build_stops _ _ _ _ _ others, build_stops _ _ _ _ _ (stops cause after others)]
        refine ⟨fun _ _ same => ?_, fun _ _ same => ?_⟩ <;> cases same
        rfl
      | ok es after =>
        obtain ⟨rest, is, same, texts⟩ := goes es after others
        rw [build_goes_on _ _ _ _ _ others, build_goes_on _ _ _ _ _ is]
        refine ⟨fun _ _ fails => (by cases fails), fun all last whole => ?_⟩
        cases whole
        refine ⟨(op, e) :: rest, rfl, ?_, ?_⟩
        · rw [List.map_cons, same]
        · rw [List.map_cons, texts, List.map_cons, text]

/-! Binary expressions. -/

theorem operator_text (text : List Char) (node : Node Rule) (genuine : node.Genuine ecmascript text) (op : Infix)
    (rule : node.rule = .operator op) : node.text = operatorText op := by
  obtain ⟨_, _, _, _, _, spells⟩ := genuine_text ecmascript text node genuine
  rw [rule] at spells
  have chars : node.chars = (operatorText op).toList := by
    cases op with
    | or | and | strictEqual | strictUnequal | equal | unequal | lessEqual | greaterEqual => exact spells rfl
    | _ =>
      obtain ⟨_, _, same, rfl, rfl⟩ := spells rfl
      exact same
  rw [Node.text, chars, String.ofList_toList]

-- What follows the first operand, an operator and an operand each time.
def binaryTail : Es :=
  Es.all [Es.sp, Es.first (Es.operators.map fun op => .rule (.operator op)), Es.sp, .rule .unaryExpression]

theorem tail_leaves (piece : List Rule) (leaves : binaryTail.Leaves ecmascript .tight piece) :
    ∃ op, piece = [.operator op, .unaryExpression] := by
  have options : binaryTail.options ecmascript .tight =
      some (Es.operators.map fun op => [Rule.operator op, .unaryExpression]) := by
    decide
  obtain ⟨op, _, same⟩ := List.mem_map.mp (leaves_option ecmascript .tight _ piece leaves _ options)
  exact ⟨op, same.symm⟩

theorem in_turn_of (nodes : Nodes) (pieces : List (List Rule))
    (each : ∀ piece ∈ pieces, binaryTail.Leaves ecmascript .tight piece) (same : nodes.map Node.rule = pieces.flatten) :
    ∃ pairs, nodes = inTurn pairs ∧ ∀ pair ∈ pairs, (∃ op, pair.1.rule = .operator op) ∧ pair.2.rule = .unaryExpression := by
  induction pieces generalizing nodes with
  | nil => exact ⟨[], List.map_eq_nil_iff.mp same, fun _ none => absurd none List.not_mem_nil⟩
  | cons piece pieces hyp =>
    obtain ⟨op, rfl⟩ := tail_leaves piece (each piece List.mem_cons_self)
    rw [List.flatten_cons] at same
    obtain ⟨token, others, rfl, tokenRule, same⟩ := List.map_eq_cons_iff.mp same
    obtain ⟨operand, others, rfl, operandRule, same⟩ := List.map_eq_cons_iff.mp same
    obtain ⟨pairs, rfl, rules⟩ := hyp others (fun piece member => each piece (.tail _ member)) same
    refine ⟨(token, operand) :: pairs, rfl, fun pair member => ?_⟩
    rcases List.mem_cons.mp member with rfl | later
    · exact ⟨⟨op, tokenRule⟩, operandRule⟩
    · exact rules pair later

/-- The parts of a binary expression are operands with operators between them. -/
theorem binary_parts (text : List Char) (node : Node Rule) (genuine : node.Genuine ecmascript text)
    (rule : node.rule = .binaryExpression) :
    ∃ first pairs, node.parts = first :: inTurn pairs ∧ first.rule = .unaryExpression ∧
      ∀ pair ∈ pairs, IsOperator pair.1 ∧ pair.2.rule = .unaryExpression := by
  obtain ⟨mode, _, left, right, same, first, pieces, rfl, each⟩ := genuine_leaves text node genuine _ rule
  change left = [.unaryExpression] at first
  rw [first] at same
  obtain ⟨operand, others, parts, operandRule, same⟩ := List.map_eq_cons_iff.mp same
  obtain ⟨pairs, rfl, rules⟩ := in_turn_of others pieces each same
  refine ⟨operand, pairs, parts, operandRule, fun pair member => ⟨?_, (rules pair member).2⟩⟩
  obtain ⟨op, rule⟩ := (rules pair member).1
  refine ⟨op, rule, operator_text text pair.1 (genuine_parts ecmascript text node genuine pair.1 ?_) op rule⟩
  rw [parts]
  exact .tail _ (List.mem_flatMap.mpr ⟨pair, member, List.mem_cons_self⟩)

/--
The tree of a binary expression. Its operands are built from left to right, then it is the one tree of the row
in which each operator binds as it should.
-/
theorem binary_expression_groups (text : List Char) (node : Node Rule) (genuine : node.Genuine ecmascript text)
    (rule : node.rule = .binaryExpression) (b : Builder) :
    ∃ first pairs, node.parts = first :: inTurn pairs ∧ first.rule = .unaryExpression ∧
      (∀ pair ∈ pairs, IsOperator pair.1 ∧ pair.2.rule = .unaryExpression) ∧
      (∀ cause after, expressions (first :: pairs.map Prod.snd) b = .error cause after →
        expression node b = .error cause after) ∧
      ∀ operands after, expressions (first :: pairs.map Prod.snd) b = .ok operands after →
        ∃ tree e, expression node b = .ok e after ∧ Draws tree e ∧ tree.Grouped ∧
          tree.inorder = interleave operands (pairs.map fun pair => pair.1.text) ∧
          ∀ other, other.Grouped → other.inorder = interleave operands (pairs.map fun pair => pair.1.text) → other = tree := by
  obtain ⟨first, pairs, parts, firstRule, rules⟩ := binary_parts text node genuine rule
  refine ⟨first, pairs, parts, firstRule, rules, ?_⟩
  obtain ⟨_, start, stop, input, _⟩ := node
  cases rule
  cases parts
  have built : expression (.mk .binaryExpression start stop input (first :: inTurn pairs)) = do
      let e ← expression first
      return group infixExpression e (← operands (inTurn pairs)) := by
    rw [expression]
  rw [built, expressions]
  cases one : expression first b with
  | error cause after =>
    rw [build_stops _ _ _ _ _ one, build_stops _ _ _ _ _ one]
    refine ⟨fun _ _ same => ?_, fun _ _ same => ?_⟩ <;> cases same
    rfl
  | ok e between =>
    rw [build_goes_on _ _ _ _ _ one, build_goes_on _ _ _ _ _ one]
    obtain ⟨stops, goes⟩ := operands_are pairs (fun pair member => (rules pair member).1) between
    cases others : expressions (pairs.map Prod.snd) between with
    | error cause after =>
      rw [build_stops _ _ _ _ _ others, build_stops _ _ _ _ _ (stops cause after others)]
      refine ⟨fun _ _ same => ?_, fun _ _ same => ?_⟩ <;> cases same
      rfl
    | ok es after =>
      obtain ⟨rest, is, same, texts⟩ := goes es after others
      rw [build_goes_on _ _ _ _ _ others, build_goes_on _ _ _ _ _ is]
      refine ⟨fun _ _ fails => (by cases fails), fun all last whole => ?_⟩
      cases whole
      obtain ⟨grouped, row⟩ := Grouping.group_grouped e rest
      rw [← Grouping.interleave_rest, same, texts] at row
      exact ⟨_, _, rfl, group_draws e rest, grouped, row,
        fun other otherGrouped otherRow => Grouping.grouped_once _ _ otherGrouped grouped (otherRow.trans row.symm)⟩

theorem binary_expression_groups_this : ∃ node tree e after, parse ecmascript .binaryExpression "this-this*this" = .ok node ∧
    expression node (Builder.start ⟨"", ""⟩ .global false) = .ok e after ∧ Draws tree e ∧ tree.Grouped := by
  have built : (parse ecmascript .binaryExpression "this-this*this").toOption.map (fun node =>
      node.rule == .binaryExpression && match expression node (Builder.start ⟨"", ""⟩ .global false) with
        | .ok _ _ => true
        | .error _ _ => false) = some true := by
    decide +kernel
  cases parses : parse ecmascript .binaryExpression "this-this*this" with
  | error place =>
    rw [parses] at built
    cases built
  | ok node =>
    rw [parses] at built
    obtain ⟨rule, ends⟩ := Bool.and_eq_true_iff.mp (Option.some.inj built)
    obtain ⟨first, pairs, _, _, _, stops, goes⟩ := binary_expression_groups _ node
      (parse_genuine .binaryExpression _ node parses) (eq_of_beq rule) (Builder.start ⟨"", ""⟩ .global false)
    cases operands : expressions (first :: pairs.map Prod.snd) (Builder.start ⟨"", ""⟩ .global false) with
    | error cause after =>
      rw [stops cause after operands] at ends
      cases ends
    | ok es after =>
      obtain ⟨tree, e, is, drawn, grouped, _⟩ := goes es after operands
      exact ⟨node, tree, e, after, rfl, is, drawn, grouped⟩

end Ecma.Syntax
