import Ecma.Proofs.Grammar.Fuel

set_option autoImplicit false

/-!
The nodes of a parsed text. Each is the record of a match of its rule, lies between its neighbours, and has
parts of the rules that the body of its rule allows.
-/

namespace Ecma.Grammar

open Ecma.Text

section

variable {ρ : Type} (g : Grammar ρ)

/-- A node and everything below it are records of matches in a text. -/
inductive Node.Genuine (text : List Char) : Node ρ → Prop
  | mk (name : ρ) (mode : Mode) (before input : List Char) (m : Match ρ) (whole : text = before ++ input)
      (counts : (g.kind name).counts mode = true)
      (inner : Matches g ((g.kind name).inside mode) false (g.body name) input (bytes before) (some m))
      (parts : ∀ part ∈ m.nodes, Genuine text part) :
      Genuine text (.mk name (bytes before) m.place input m.nodes)

/-- The nodes stand one after the other between two places. -/
def Laid : Nat → List (Node ρ) → Nat → Prop
  | start, [], stop => start ≤ stop
  | start, node :: rest, stop => start ≤ node.start ∧ node.start ≤ node.stop ∧ Laid node.stop rest stop

/-- The rules of the nodes that a match of an expression can leave. -/
def Peg.Leaves (mode : Mode) : Peg ρ → List ρ → Prop
  | .rule name, rules => rules = if (g.kind name).counts mode then [name] else []
  | .seq first second, rules => ∃ left right, rules = left ++ right ∧ first.Leaves mode left ∧
      second.Leaves mode right
  | .choice first second, rules => first.Leaves mode rules ∨ second.Leaves mode rules
  | .maybe item, rules => rules = [] ∨ item.Leaves mode rules
  | .star item, rules => ∃ pieces : List (List ρ), rules = pieces.flatten ∧ ∀ piece ∈ pieces, item.Leaves mode piece
  | .again item, rules => ∃ pieces : List (List ρ), rules = pieces.flatten ∧ ∀ piece ∈ pieces, item.Leaves mode piece
  | _, rules => rules = []

theorem laid_wider (start start' stop : Nat) (nodes : List (Node ρ)) (before : start' ≤ start)
    (laid : Laid start nodes stop) : Laid start' nodes stop := by
  cases nodes with
  | nil => exact Nat.le_trans before laid
  | cons node rest => exact ⟨Nat.le_trans before laid.1, laid.2⟩

theorem laid_append (start middle stop : Nat) (nodes more : List (Node ρ)) (left : Laid start nodes middle)
    (right : Laid middle more stop) : Laid start (nodes ++ more) stop := by
  induction nodes generalizing start with
  | nil => exact laid_wider middle start stop more left right
  | cons node rest hyp => exact ⟨left.1, left.2.1, hyp node.stop left.2.2⟩

theorem laid_place (start stop : Nat) (nodes : List (Node ρ)) (laid : Laid start nodes stop) : start ≤ stop := by
  induction nodes generalizing start with
  | nil => exact laid
  | cons node rest hyp => exact Nat.le_trans laid.1 (Nat.le_trans laid.2.1 (hyp node.stop laid.2.2))

theorem taken_later (rest : List Char) (place : Nat) (cs after : List Char) (next : Nat)
    (takes : Takes rest place cs after next) : place ≤ next := by
  rw [takes.2]
  exact Nat.le_add_right place _

theorem skip_later (mode : Mode) (rest : List Char) (place : Nat) : place ≤ (mode.skip rest place).2 := by
  obtain ⟨cs, takes⟩ := skip_takes mode rest place
  exact taken_later _ _ _ _ _ takes

/-- What is left of a text at a place. -/
def Stands (text rest : List Char) (place : Nat) : Prop :=
  ∃ before, text = before ++ rest ∧ place = bytes before

theorem stands_later (text rest : List Char) (place : Nat) (cs after : List Char) (next : Nat)
    (stands : Stands text rest place) (takes : Takes rest place cs after next) : Stands text after next := by
  obtain ⟨before, rfl, rfl⟩ := stands
  obtain ⟨rfl, rfl⟩ := takes
  exact ⟨before ++ cs, (List.append_assoc ..).symm, (bytes_append before cs).symm⟩

/-- What a match leaves. -/
structure Records (text : List Char) (mode : Mode) (quiet : Bool) (e : Peg ρ) (place : Nat) (m : Match ρ) : Prop where
  laid : Laid place m.nodes m.place
  genuine : ∀ node ∈ m.nodes, node.Genuine g text
  leaves : quiet = false → e.Leaves g mode (m.nodes.map Node.rule)
  quiet : quiet = true → m.nodes = []

theorem records_none (text : List Char) (mode : Mode) (quiet : Bool) (e : Peg ρ) (place next : Nat)
    (after : List Char) (later : place ≤ next) (leaves : e.Leaves g mode []) :
    Records g text mode quiet e place ⟨after, next, []⟩ :=
  ⟨later, fun _ member => absurd member List.not_mem_nil, fun _ => leaves, fun _ => rfl⟩

-- The nodes of two matches one after the other, for an expression that allows both.
theorem records_append (text : List Char) (mode : Mode) (quiet : Bool) (first second e : Peg ρ)
    (place middle : Nat) (m n : Match ρ) (left : Records g text mode quiet first place m)
    (later : m.place ≤ middle) (right : Records g text mode quiet second middle n)
    (allows : ∀ xs ys, first.Leaves g mode xs → second.Leaves g mode ys → e.Leaves g mode (xs ++ ys)) :
    Records g text mode quiet e place ⟨n.rest, n.place, m.nodes ++ n.nodes⟩ where
  laid := laid_append _ _ _ _ _ left.laid (laid_wider _ _ _ _ later right.laid)
  genuine node member := (List.mem_append.mp member).elim (left.genuine node) (right.genuine node)
  leaves loud := by
    rw [List.map_append]
    exact allows _ _ (left.leaves loud) (right.leaves loud)
  quiet silent := by
    rw [left.quiet silent, right.quiet silent]
    rfl

theorem leaves_more (mode : Mode) (item : Peg ρ) (xs ys : List ρ) (one : item.Leaves g mode xs)
    (others : (Peg.again item).Leaves g mode ys) : (Peg.again item).Leaves g mode (xs ++ ys) := by
  obtain ⟨pieces, rfl, more⟩ := others
  refine ⟨xs :: pieces, rfl, fun piece member => ?_⟩
  rcases List.mem_cons.mp member with rfl | later
  · exact one
  · exact more piece later

theorem token_nodes (e : Peg ρ) (isToken : e.isToken = true) (rest : List Char) (place : Nat) (m : Match ρ)
    (found : e.token? rest place = some m) : m.nodes = [] ∧ ∀ mode, e.Leaves g mode [] := by
  cases e with
  | text cs =>
    obtain ⟨taken, takes, rfl⟩ := Option.map_eq_some_iff.mp found
    exact ⟨rfl, fun _ => rfl⟩
  | char member =>
    cases rest with
    | nil => cases found
    | cons c rest =>
      obtain ⟨_, same⟩ := Option.ite_none_right_eq_some.mp found
      cases same
      exact ⟨rfl, fun _ => rfl⟩
  | beginning | ending =>
    obtain ⟨_, same⟩ := Option.ite_none_right_eq_some.mp found
    cases same
    exact ⟨rfl, fun _ => rfl⟩
  | layout lines =>
    cases found
    exact ⟨rfl, fun _ => rfl⟩
  | _ => cases isToken

theorem match_records (text : List Char) (mode : Mode) (quiet : Bool) (e : Peg ρ) (rest : List Char) (place : Nat)
    (o : Option (Match ρ)) (found : Matches g mode quiet e rest place o) :
    Stands text rest place → ∀ m, o = some m → Records g text mode quiet e place m := by
  induction found with
  | token mode quiet e rest place isToken =>
    intro _ m found
    obtain ⟨none, leaves⟩ := token_nodes g e isToken rest place m found
    obtain ⟨cs, takes, _⟩ := token_takes e rest place m found
    obtain ⟨after, next, nodes⟩ := m
    cases none
    exact records_none g text mode quiet e place next after (taken_later _ _ _ _ _ takes) (leaves mode)
  | ruleFails =>
    intro _ m none
    cases none
  | ruleMatches mode quiet name rest place n inner hyp =>
    intro stands m same
    cases same
    have records := hyp stands n rfl
    have span := laid_place _ _ _ records.laid
    obtain ⟨before, whole, rfl⟩ := stands
    cases counts : (g.kind name).counts mode with
    | false =>
      refine records_none g text mode quiet _ _ _ _ span ?_
      rw [Peg.Leaves, counts]
      rfl
    | true =>
      cases quiet with
      | true => exact ⟨span, fun _ member => absurd member List.not_mem_nil, Bool.noConfusion, fun _ => rfl⟩
      | false =>
        refine ⟨⟨Nat.le_refl _, span, Nat.le_refl _⟩, fun node member => ?_, fun _ => ?_, Bool.noConfusion⟩
        · rw [List.mem_singleton.mp member]
          exact .mk name mode before rest n whole counts inner records.genuine
        · rw [Peg.Leaves, counts]
          rfl
  | seqFails =>
    intro _ m none
    cases none
  | seqMatches mode quiet first second rest place n o left right hypLeft hypRight =>
    intro stands m same
    obtain ⟨last, rfl, rfl⟩ := Option.map_eq_some_iff.mp same
    obtain ⟨cs, takes, _⟩ := match_takes g _ _ _ _ _ _ left n rfl
    obtain ⟨blank, skips⟩ := skip_takes mode n.rest n.place
    have after := stands_later _ _ _ _ _ _ (stands_later _ _ _ _ _ _ stands takes) skips
    exact records_append g text mode quiet first second _ place _ n last (hypLeft stands n rfl)
      (skip_later mode n.rest n.place) (hypRight after last rfl) fun xs ys one two => ⟨xs, ys, rfl, one, two⟩
  | choiceFirst mode quiet first second rest place n left hyp =>
    intro stands m same
    have records := hyp stands m same
    exact { records with leaves := fun loud => Or.inl (records.leaves loud) }
  | choiceSecond mode quiet first second rest place o left right _ hyp =>
    intro stands m same
    have records := hyp stands m same
    exact { records with leaves := fun loud => Or.inr (records.leaves loud) }
  | maybe mode quiet item rest place o inner hyp =>
    intro stands m same
    cases same
    cases o with
    | none => exact records_none g text mode quiet _ place place rest (Nat.le_refl place) (Or.inl rfl)
    | some n =>
      have records := hyp stands n rfl
      exact { records with leaves := fun loud => Or.inr (records.leaves loud) }
  | starEnds mode quiet item rest place =>
    intro _ m same
    cases same
    exact records_none g text mode quiet _ place place rest (Nat.le_refl place)
      ⟨[], rfl, fun _ member => absurd member List.not_mem_nil⟩
  | starMatches mode quiet item rest place n last inner others hypInner hypOthers =>
    intro stands m same
    cases same
    obtain ⟨cs, takes, _⟩ := match_takes g _ _ _ _ _ _ inner n rfl
    exact records_append g text mode quiet item (.again item) _ place n.place n last (hypInner stands n rfl)
      (Nat.le_refl _) (hypOthers (stands_later _ _ _ _ _ _ stands takes) last rfl) (leaves_more g mode item)
  | againEnds mode quiet item rest place =>
    intro _ m same
    cases same
    exact records_none g text mode quiet _ place place rest (Nat.le_refl place)
      ⟨[], rfl, fun _ member => absurd member List.not_mem_nil⟩
  | againMatches mode quiet item rest place n last inner others hypInner hypOthers =>
    intro stands m same
    cases same
    obtain ⟨blank, skips⟩ := skip_takes mode rest place
    have start := stands_later _ _ _ _ _ _ stands skips
    obtain ⟨cs, takes, _⟩ := match_takes g _ _ _ _ _ _ inner n rfl
    have records := hypInner start n rfl
    exact records_append g text mode quiet item (.again item) _ place n.place n last
      { records with laid := laid_wider _ _ _ _ (skip_later mode rest place) records.laid }
      (Nat.le_refl _) (hypOthers (stands_later _ _ _ _ _ _ start takes) last rfl) (leaves_more g mode item)
  | look mode quiet item rest place o inner hyp =>
    intro _ m same
    obtain ⟨_, _, rfl⟩ := Option.map_eq_some_iff.mp same
    exact records_none g text mode quiet _ place place rest (Nat.le_refl place) rfl
  | refuse mode quiet item rest place o inner hyp =>
    intro _ m same
    split at same
    · cases same
    · cases same
      exact records_none g text mode quiet _ place place rest (Nat.le_refl place) rfl

/-! Nodes below a node. -/

inductive Node.Below : Node ρ → Node ρ → Prop
  | here (node : Node ρ) : Below node node
  | part (node part whole : Node ρ) (member : part ∈ whole.parts) (below : Below node part) : Below node whole

theorem below_part (node whole : Node ρ) (below : node.Below whole) (part : Node ρ) (member : part ∈ node.parts) :
    part.Below whole := by
  induction below with
  | here => exact .part part part node member (.here part)
  | part middle whole inside below hyp => exact .part part middle whole inside hyp

theorem genuine_parts (text : List Char) (whole : Node ρ) (genuine : whole.Genuine g text) :
    ∀ part ∈ whole.parts, part.Genuine g text := by
  cases genuine with
  | mk _ _ _ _ _ _ _ _ parts => exact parts

theorem below_genuine (text : List Char) (node whole : Node ρ) (below : node.Below whole)
    (genuine : whole.Genuine g text) : node.Genuine g text := by
  induction below with
  | here => exact genuine
  | part part whole member below hyp => exact hyp (genuine_parts g text whole genuine part member)

-- What a node is the record of.
theorem genuine_match (text : List Char) (node : Node ρ) (genuine : node.Genuine g text) :
    ∃ mode before input m, node = .mk node.rule (bytes before) m.place input m.nodes ∧ text = before ++ input ∧
      (g.kind node.rule).counts mode = true ∧
      Matches g ((g.kind node.rule).inside mode) false (g.body node.rule) input (bytes before) (some m) ∧
      Records g text ((g.kind node.rule).inside mode) false (g.body node.rule) (bytes before) m := by
  cases genuine with
  | mk name mode before input m whole counts inner parts =>
    exact ⟨mode, before, input, m, rfl, whole, counts, inner,
      match_records g text _ _ _ _ _ _ inner ⟨before, whole, rfl⟩ m rfl⟩

-- The text of a node, and what it is made of if the node is a token.
theorem genuine_text (text : List Char) (node : Node ρ) (genuine : node.Genuine g text) :
    ∃ before after, text = before ++ node.chars ++ after ∧ node.start = bytes before ∧
      node.stop = node.start + bytes node.chars ∧
      (g.kind node.rule = .token → (g.body node.rule).Spells node.chars) := by
  obtain ⟨mode, before, input, m, same, whole, _, inner, _⟩ := genuine_match g text node genuine
  obtain ⟨cs, ⟨taken, stop⟩, spells⟩ := match_takes g _ _ _ _ _ _ inner m rfl
  have chars : node.chars = cs := by
    rw [same]
    change charsBefore input (m.place - bytes before) = cs
    rw [stop, taken, Nat.add_sub_cancel_left, chars_before_taken]
  refine ⟨before, m.rest, ?_, congrArg Node.start same, ?_, fun token => ?_⟩
  · rw [chars, List.append_assoc, ← taken, whole]
  · rw [chars, same]
    exact stop
  · rw [chars]
    refine spells ?_
    rw [token]
    rfl

theorem genuine_laid (text : List Char) (node : Node ρ) (genuine : node.Genuine g text) :
    Laid node.start node.parts node.stop := by
  obtain ⟨mode, before, input, m, same, _, _, _, records⟩ := genuine_match g text node genuine
  rw [same]
  exact records.laid

theorem laid_member (start stop : Nat) (nodes : List (Node ρ)) (laid : Laid start nodes stop) (node : Node ρ)
    (member : node ∈ nodes) : start ≤ node.start ∧ node.start ≤ node.stop ∧ node.stop ≤ stop := by
  induction nodes generalizing start with
  | nil => exact absurd member List.not_mem_nil
  | cons first rest hyp =>
    rcases List.mem_cons.mp member with rfl | later
    · exact ⟨laid.1, laid.2.1, laid_place _ _ _ laid.2.2⟩
    · obtain ⟨after, inside⟩ := hyp first.stop laid.2.2 later
      exact ⟨Nat.le_trans laid.1 (Nat.le_trans laid.2.1 after), inside⟩

theorem laid_apart (start stop : Nat) (nodes : List (Node ρ)) (laid : Laid start nodes stop) (a b : Node ρ)
    (left : a ∈ nodes) (right : b ∈ nodes) : a = b ∨ a.stop ≤ b.start ∨ b.stop ≤ a.start := by
  induction nodes generalizing start with
  | nil => exact absurd left List.not_mem_nil
  | cons first rest hyp =>
    rcases List.mem_cons.mp left with rfl | leftLater
    · rcases List.mem_cons.mp right with rfl | rightLater
      · exact Or.inl rfl
      · exact Or.inr (Or.inl (laid_member _ _ _ laid.2.2 b rightLater).1)
    · rcases List.mem_cons.mp right with rfl | rightLater
      · exact Or.inr (Or.inr (laid_member _ _ _ laid.2.2 a leftLater).1)
      · exact hyp first.stop laid.2.2 leftLater rightLater

theorem below_within (text : List Char) (node whole : Node ρ) (below : node.Below whole)
    (genuine : whole.Genuine g text) : whole.start ≤ node.start ∧ node.start ≤ node.stop ∧ node.stop ≤ whole.stop := by
  induction below with
  | here => exact ⟨Nat.le_refl _, laid_place _ _ _ (genuine_laid g text _ genuine), Nat.le_refl _⟩
  | part part whole member below hyp =>
    obtain ⟨one, two, three⟩ := hyp (genuine_parts g text whole genuine part member)
    obtain ⟨before, _, after⟩ := laid_member _ _ _ (genuine_laid g text whole genuine) part member
    exact ⟨Nat.le_trans before one, two, Nat.le_trans three after⟩

-- Two nodes of a text either share no character or one is below the other.
theorem below_apart (text : List Char) (a b whole : Node ρ) (genuine : whole.Genuine g text)
    (left : a.Below whole) (right : b.Below whole) :
    a.Below b ∨ b.Below a ∨ a.stop ≤ b.start ∨ b.stop ≤ a.start := by
  induction left with
  | here => exact Or.inr (Or.inl right)
  | part p whole inA below hyp =>
    cases right with
    | here => exact Or.inl (.part a p b inA below)
    | part q _ inB below' =>
      rcases laid_apart _ _ _ (genuine_laid g text whole genuine) p q inA inB with rfl | before | after
      · exact hyp (genuine_parts g text whole genuine p inA) below'
      · have inside := below_within g text a p below (genuine_parts g text whole genuine p inA)
        have inside' := below_within g text b q below' (genuine_parts g text whole genuine q inB)
        exact Or.inr (Or.inr (Or.inl (Nat.le_trans inside.2.2 (Nat.le_trans before inside'.1))))
      · have inside := below_within g text a p below (genuine_parts g text whole genuine p inA)
        have inside' := below_within g text b q below' (genuine_parts g text whole genuine q inB)
        exact Or.inr (Or.inr (Or.inr (Nat.le_trans inside'.2.2 (Nat.le_trans after inside.1))))

end

theorem parse_genuine (name : Rule) (s : String) (node : Node Rule) (parses : parse ecmascript name s = .ok node) :
    node.Genuine ecmascript s.toList := by
  obtain ⟨m, found, only⟩ := (parse_iff name s node).mp parses
  have records := match_records ecmascript s.toList _ _ _ _ _ _ found ⟨[], rfl, rfl⟩ m rfl
  exact records.genuine node (only ▸ List.mem_singleton_self node)

theorem program_genuine (s : String) (node : Node Rule) (parses : parseProgram s = .ok node) :
    node.Genuine ecmascript s.toList :=
  parse_genuine .program s node parses

end Ecma.Grammar
