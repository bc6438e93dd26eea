import Ecma.Proofs.Grammar.Matches
import Ecma.Grammar.Ecmascript

set_option autoImplicit false

/-!
The fuel of a parse is enough. A grammar without left recursion ranks its rules: a rule that another one can
try before a character is taken has a lower rank. Then the fuel is spent on the ranks between two characters
and on the characters, and every attempt ends as it would without fuel.
-/

namespace Ecma.Grammar

/-- Which rules can match nothing, and how deep each rule nests before it takes a character. -/
structure Ranking (ρ : Type) where
  empty : ρ → Bool
  rank : ρ → Nat

/-- The fuel between two characters. -/
def Ranking.most : Nat :=
  1000

namespace Peg

variable {ρ : Type} (r : Ranking ρ)

/-- The expression may match without taking a character. -/
def nullable : Peg ρ → Bool
  | .text cs => cs.isEmpty
  | .char _ => false
  | .beginning => true
  | .ending => true
  | .layout _ => true
  | .rule name => r.empty name
  | .seq first second => nullable first && nullable second
  | .choice first second => nullable first || nullable second
  | .maybe _ => true
  | .star _ => true
  | .again _ => true
  | .look _ => true
  | .refuse _ => true

/-- The depth of an attempt before a character is taken. -/
def cost : Peg ρ → Nat
  | .rule name => r.rank name
  | .seq first second => 1 + max (cost first) (if nullable r first then cost second else 0)
  | .choice first second => 1 + max (cost first) (cost second)
  | .maybe item => 1 + cost item
  | .star item => 1 + cost item
  | .again item => 1 + cost item
  | .look item => 1 + cost item
  | .refuse item => 1 + cost item
  | _ => 1

/-- Every part of the expression is cheap enough, and what is repeated takes a character. -/
def founded : Peg ρ → Bool
  | .seq first second => founded first && founded second && decide (cost r second ≤ Ranking.most)
  | .choice first second => founded first && founded second
  | .maybe item => founded item
  | .star item => founded item && !nullable r item
  | .again item => founded item && !nullable r item
  | .look item => founded item
  | .refuse item => founded item
  | .rule name => decide (0 < r.rank name)
  | _ => true

end Peg

/-- The ranks fit the rules. -/
structure Grammar.Ranked {ρ : Type} (g : Grammar ρ) (r : Ranking ρ) : Prop where
  empty : ∀ name, (g.body name).nullable r = true → r.empty name = true
  rank : ∀ name, (g.body name).cost r < r.rank name
  founded : ∀ name, (g.body name).founded r = true

/-- What an attempt ends with is what the expression matches. -/
def Outcome.Agrees {ρ : Type} (before : List (Node ρ)) : Outcome ρ → Option (Match ρ) → Prop
  | .failed _, none => True
  | .matched rest place nodes _, some m => rest = m.rest ∧ place = m.place ∧ nodes = m.nodes.reverse ++ before
  | _, _ => False

section

variable {ρ : Type} (g : Grammar ρ) (r : Ranking ρ) (ranked : g.Ranked r)

theorem taken_shorter (rest : List Char) (place : Nat) (cs after : List Char) (next : Nat)
    (takes : Takes rest place cs after next) : after.length ≤ rest.length := by
  rw [takes.1, List.length_append]
  exact Nat.le_add_left _ _

theorem match_shorter (mode : Mode) (quiet : Bool) (e : Peg ρ) (rest : List Char) (place : Nat) (m : Match ρ)
    (found : Matches g mode quiet e rest place (some m)) : m.rest.length ≤ rest.length := by
  obtain ⟨cs, takes, _⟩ := match_takes g mode quiet e rest place _ found m rfl
  exact taken_shorter _ _ _ _ _ takes

theorem skip_shorter (mode : Mode) (rest : List Char) (place : Nat) :
    (mode.skip rest place).1.length ≤ rest.length := by
  obtain ⟨cs, takes⟩ := skip_takes mode rest place
  exact taken_shorter _ _ _ _ _ takes

include ranked in
-- What cannot match nothing takes a character.
theorem match_progresses (mode : Mode) (quiet : Bool) (e : Peg ρ) (rest : List Char) (place : Nat)
    (o : Option (Match ρ)) (found : Matches g mode quiet e rest place o) :
    ∀ m, o = some m → e.nullable r = false → m.rest.length < rest.length := by
  induction found with
  | token mode quiet e rest place isToken =>
    intro m found solid
    cases e with
    | text cs =>
      obtain ⟨taken, takes, rfl⟩ := Option.map_eq_some_iff.mp found
      have whole := (take_text_takes cs rest place taken takes).1
      cases cs with
      | nil => cases solid
      | cons c cs =>
        rw [whole, List.length_append, List.length_cons]
        dsimp only
        omega
    | char member =>
      cases rest with
      | nil => cases found
      | cons c rest =>
        obtain ⟨_, same⟩ := Option.ite_none_right_eq_some.mp found
        cases same
        exact Nat.lt_succ_self _
    | beginning => cases solid
    | ending => cases solid
    | layout lines => cases solid
    | _ => cases isToken
  | ruleFails =>
    intro m none
    cases none
  | ruleMatches mode quiet name rest place n inner hyp =>
    intro m same solid
    cases same
    refine hyp n rfl (Bool.eq_false_iff.mpr fun nothing => ?_)
    rw [Peg.nullable, ranked.empty name nothing] at solid
    cases solid
  | seqFails =>
    intro m none
    cases none
  | seqMatches mode quiet first second rest place n o left right hypLeft hypRight =>
    intro m same solid
    obtain ⟨last, rfl, rfl⟩ := Option.map_eq_some_iff.mp same
    have front := match_shorter g _ _ _ _ _ n left
    have skips := skip_shorter mode n.rest n.place
    have back := match_shorter g _ _ _ _ _ last right
    rw [Peg.nullable, Bool.and_eq_false_iff] at solid
    dsimp only
    rcases solid with one | two
    · have := hypLeft n rfl one
      omega
    · have := hypRight last rfl two
      omega
  | choiceFirst mode quiet first second rest place n left hyp =>
    intro m same solid
    exact hyp m same (Bool.or_eq_false_iff.mp solid).1
  | choiceSecond mode quiet first second rest place o left right _ hyp =>
    intro m same solid
    exact hyp m same (Bool.or_eq_false_iff.mp solid).2
  | againMatches mode quiet item rest place n last inner others hypInner hypOthers =>
    intro m same solid
    cases solid
  | _ =>
    intro m same solid
    cases solid

theorem cost_pos (e : Peg ρ) (founded : e.founded r = true) : 0 < e.cost r := by
  cases e with
  | rule name => exact of_decide_eq_true founded
  | seq | choice | maybe | star | again | look | refuse =>
    rw [Peg.cost]
    omega
  | _ => exact Nat.zero_lt_one

theorem agrees_failed (before : List (Node ρ)) (furthest : Nat) (o : Option (Match ρ))
    (agrees : (Outcome.failed furthest).Agrees before o) : o = none := by
  cases o with
  | none => rfl
  | some m => exact agrees.elim

theorem agrees_matched (before : List (Node ρ)) (rest : List Char) (place : Nat) (nodes : List (Node ρ))
    (furthest : Nat) (o : Option (Match ρ)) (agrees : (Outcome.matched rest place nodes furthest).Agrees before o) :
    ∃ m, o = some m ∧ rest = m.rest ∧ place = m.place ∧ nodes = m.nodes.reverse ++ before := by
  cases o with
  | none => exact agrees.elim
  | some m => exact ⟨m, rfl, agrees⟩

theorem agrees_after (before : List (Node ρ)) (m : Match ρ) (outcome : Outcome ρ) (o : Option (Match ρ))
    (agrees : outcome.Agrees (m.nodes.reverse ++ before) o) :
    outcome.Agrees before (o.map fun n => ⟨n.rest, n.place, m.nodes ++ n.nodes⟩) := by
  cases outcome with
  | failed furthest =>
    cases agrees_failed _ _ _ agrees
    trivial
  | matched rest place nodes furthest =>
    obtain ⟨n, rfl, rfl, rfl, rfl⟩ := agrees_matched _ _ _ _ _ _ agrees
    refine ⟨rfl, rfl, ?_⟩
    rw [List.reverse_append, List.append_assoc]

theorem token_agrees (e : Peg ρ) (isToken : e.isToken = true) (fuel : Nat) (mode : Mode) (ahead : Lookahead)
    (rest : List Char) (place : Nat) (nodes : List (Node ρ)) (furthest : Nat) :
    (run g (fuel + 1) e mode ahead rest place nodes furthest).Agrees nodes (e.token? rest place) := by
  cases e with
  | text cs =>
    rw [run, Peg.token?]
    cases takeText cs rest place with
    | none => trivial
    | some taken => exact ⟨rfl, rfl, rfl⟩
  | char member =>
    unfold run
    cases rest with
    | nil => trivial
    | cons c rest =>
      dsimp only [Peg.token?]
      split
      · exact ⟨rfl, rfl, rfl⟩
      · trivial
  | beginning =>
    rw [run, Peg.token?]
    split
    · exact ⟨rfl, rfl, rfl⟩
    · trivial
  | ending =>
    rw [run, Peg.token?]
    split
    · exact ⟨rfl, rfl, rfl⟩
    · trivial
  | layout lines =>
    rw [run, Peg.token?]
    exact ⟨rfl, rfl, rfl⟩
  | _ => cases isToken

theorem finish_agrees (name : ρ) (counts : Bool) (ahead : Lookahead) (rest : List Char) (place : Nat)
    (before : List (Node ρ)) (outcome : Outcome ρ) (o : Option (Match ρ)) (agrees : outcome.Agrees [] o) :
    (finish name counts ahead rest place before outcome).Agrees before (o.map fun m => ⟨m.rest, m.place,
      if counts && !(ahead != .none) then [.mk name place m.place rest m.nodes] else []⟩) := by
  cases outcome with
  | failed furthest =>
    cases agrees_failed _ _ _ agrees
    trivial
  | matched after next parts furthest =>
    obtain ⟨m, rfl, rfl, rfl, rfl⟩ := agrees_matched _ _ _ _ _ _ agrees
    rw [finish, List.append_nil, List.reverse_reverse, bne, Bool.not_not]
    cases counts && ahead == .none with
    | false => exact ⟨rfl, rfl, rfl⟩
    | true => exact ⟨rfl, rfl, rfl⟩

theorem again_matches (mode : Mode) (quiet : Bool) (item : Peg ρ) (rest : List Char) (place : Nat)
    (o : Option (Match ρ)) (found : Matches g mode quiet (.again item) rest place o) : ∃ m, o = some m := by
  cases found with
  | token _ _ _ _ _ isToken => cases isToken
  | againEnds => exact ⟨_, rfl⟩
  | againMatches => exact ⟨_, rfl⟩

include ranked in
-- The induction is on the fuel; what an attempt starts with is below the fuel that it is given.
theorem run_agrees (fuel : Nat) (e : Peg ρ) (mode : Mode) (ahead : Lookahead) (rest : List Char) (place : Nat)
    (nodes : List (Node ρ)) (furthest : Nat) (founded : e.founded r = true)
    (enough : e.cost r + Ranking.most * rest.length ≤ fuel) :
    ∃ o, Matches g mode (ahead != .none) e rest place o ∧
      (run g fuel e mode ahead rest place nodes furthest).Agrees nodes o := by
  induction fuel generalizing e mode ahead rest place nodes furthest with
  | zero =>
    have := cost_pos r e founded
    omega
  | succ fuel hyp =>
  have others (item : Peg ρ) (solid : item.nullable r = false) (founded : item.founded r = true)
      (after : List Char) (next : Nat) (m : Match ρ) (before : List (Node ρ)) (furthest : Nat)
      (inner : Matches g mode (ahead != .none) item after next (some m))
      (enough : item.cost r + Ranking.most * after.length ≤ fuel) :
      ∃ n, Matches g mode (ahead != .none) (.again item) m.rest m.place (some n) ∧
        (run g fuel (.again item) mode ahead m.rest m.place (m.nodes.reverse ++ before) furthest).Agrees before
          (some ⟨n.rest, n.place, m.nodes ++ n.nodes⟩) := by
    have less := match_progresses g r ranked mode _ item after next _ inner m rfl solid
    obtain ⟨o, others, agrees⟩ := hyp (.again item) mode ahead m.rest m.place (m.nodes.reverse ++ before) furthest
      (Bool.and_eq_true_iff.mpr ⟨founded, by rw [solid]; rfl⟩) (by
        rw [Peg.cost]
        rw [Ranking.most] at enough ⊢
        omega)
    obtain ⟨n, rfl⟩ := again_matches g _ _ _ _ _ _ others
    exact ⟨n, others, agrees_after before m _ _ agrees⟩
  cases e with
  | text | char | beginning | ending | layout =>
    exact ⟨_, .token _ _ _ _ _ rfl, token_agrees g _ rfl fuel mode ahead rest place nodes furthest⟩
  | rule name =>
    have lower := ranked.rank name
    rw [Peg.cost] at enough
    obtain ⟨o, inner, agrees⟩ := hyp (g.body name) ((g.kind name).inside mode) ahead rest place [] furthest
      (ranked.founded name) (by omega)
    refine ⟨_, ?_, finish_agrees name ((g.kind name).counts mode) ahead rest place nodes _ o agrees⟩
    cases o with
    | none => exact .ruleFails _ _ _ _ _ inner
    | some m => exact .ruleMatches _ _ _ _ _ m inner
  | seq first second =>
    rw [Peg.cost] at enough
    rw [Peg.founded, Bool.and_eq_true_iff, Bool.and_eq_true_iff, decide_eq_true_iff] at founded
    obtain ⟨⟨one, two⟩, cheap⟩ := founded
    obtain ⟨o, left, agrees⟩ := hyp first mode ahead rest place nodes furthest one (by omega)
    rw [run]
    cases outcome : run g fuel first mode ahead rest place nodes furthest with
    | failed furthest =>
      rw [outcome] at agrees
      cases agrees_failed _ _ _ agrees
      exact ⟨none, .seqFails _ _ _ _ _ _ left, trivial⟩
    | matched after next before furthest =>
      rw [outcome] at agrees
      obtain ⟨m, rfl, rfl, rfl, rfl⟩ := agrees_matched _ _ _ _ _ _ agrees
      have front := match_shorter g _ _ _ _ _ m left
      have skips := skip_shorter mode m.rest m.place
      have less := match_progresses g r ranked mode _ first rest place _ left m rfl
      obtain ⟨o, right, agrees⟩ := hyp second mode ahead (mode.skip m.rest m.place).1
        (mode.skip m.rest m.place).2 (m.nodes.reverse ++ nodes) furthest two (by
          rw [Ranking.most] at enough cheap ⊢
          cases nothing : first.nullable r with
          | true =>
            rw [nothing, if_pos rfl] at enough
            omega
          | false =>
            have := less nothing
            omega)
      exact ⟨_, .seqMatches _ _ _ _ _ _ m o left right, agrees_after nodes m _ o agrees⟩
  | choice first second =>
    rw [Peg.cost] at enough
    obtain ⟨one, two⟩ := Bool.and_eq_true_iff.mp founded
    obtain ⟨o, left, agrees⟩ := hyp first mode ahead rest place nodes furthest one (by omega)
    rw [run]
    cases outcome : run g fuel first mode ahead rest place nodes furthest with
    | failed furthest =>
      rw [outcome] at agrees
      cases agrees_failed _ _ _ agrees
      obtain ⟨o, right, agrees⟩ := hyp second mode ahead rest place nodes furthest two (by omega)
      exact ⟨o, .choiceSecond _ _ _ _ _ _ o left right, agrees⟩
    | matched after next before furthest =>
      rw [outcome] at agrees
      obtain ⟨m, rfl, _⟩ := agrees_matched _ _ _ _ _ _ agrees
      exact ⟨some m, .choiceFirst _ _ _ _ _ _ m left, agrees⟩
  | maybe item =>
    rw [Peg.cost] at enough
    obtain ⟨o, inner, agrees⟩ := hyp item mode ahead rest place nodes furthest founded (by omega)
    refine ⟨_, .maybe _ _ _ _ _ o inner, ?_⟩
    rw [run]
    cases outcome : run g fuel item mode ahead rest place nodes furthest with
    | failed furthest =>
      rw [outcome] at agrees
      cases agrees_failed _ _ _ agrees
      exact ⟨rfl, rfl, rfl⟩
    | matched after next before furthest =>
      rw [outcome] at agrees
      obtain ⟨m, rfl, _⟩ := agrees_matched _ _ _ _ _ _ agrees
      exact agrees
  | star item =>
    rw [Peg.cost] at enough
    obtain ⟨inFounded, solid⟩ := Bool.and_eq_true_iff.mp founded
    rw [Bool.not_eq_true'] at solid
    obtain ⟨o, inner, agrees⟩ := hyp item mode ahead rest place nodes furthest inFounded (by omega)
    rw [run]
    cases outcome : run g fuel item mode ahead rest place nodes furthest with
    | failed furthest =>
      rw [outcome] at agrees
      cases agrees_failed _ _ _ agrees
      exact ⟨_, .starEnds _ _ _ _ _ inner, rfl, rfl, rfl⟩
    | matched after next before furthest =>
      rw [outcome] at agrees
      obtain ⟨m, rfl, rfl, rfl, rfl⟩ := agrees_matched _ _ _ _ _ _ agrees
      obtain ⟨n, more, agrees⟩ := others item solid inFounded rest place m nodes furthest inner (by omega)
      exact ⟨_, .starMatches _ _ _ _ _ m n inner more, agrees⟩
  | again item =>
    rw [Peg.cost] at enough
    obtain ⟨inFounded, solid⟩ := Bool.and_eq_true_iff.mp founded
    rw [Bool.not_eq_true'] at solid
    have skips := skip_shorter mode rest place
    obtain ⟨o, inner, agrees⟩ := hyp item mode ahead (mode.skip rest place).1 (mode.skip rest place).2 nodes
      furthest inFounded (by rw [Ranking.most] at enough ⊢; omega)
    rw [run]
    dsimp only
    cases outcome : run g fuel item mode ahead (mode.skip rest place).1 (mode.skip rest place).2 nodes
        furthest with
    | failed furthest =>
      rw [outcome] at agrees
      cases agrees_failed _ _ _ agrees
      exact ⟨_, .againEnds _ _ _ _ _ inner, rfl, rfl, rfl⟩
    | matched after next before furthest =>
      rw [outcome] at agrees
      obtain ⟨m, rfl, rfl, rfl, rfl⟩ := agrees_matched _ _ _ _ _ _ agrees
      obtain ⟨n, more, agrees⟩ := others item solid inFounded _ _ m nodes furthest inner
        (by rw [Ranking.most] at enough ⊢; omega)
      exact ⟨_, .againMatches _ _ _ _ _ m n inner more, agrees⟩
  | look item =>
    rw [Peg.cost] at enough
    obtain ⟨o, inner, agrees⟩ := hyp item mode ahead.look rest place nodes furthest founded (by omega)
    have quiet : (ahead.look != .none) = true := by cases ahead <;> rfl
    rw [quiet] at inner
    refine ⟨_, .look _ _ _ _ _ o inner, ?_⟩
    rw [run]
    cases outcome : run g fuel item mode ahead.look rest place nodes furthest with
    | failed furthest =>
      rw [outcome] at agrees
      cases agrees_failed _ _ _ agrees
      trivial
    | matched after next before furthest =>
      rw [outcome] at agrees
      obtain ⟨m, rfl, _⟩ := agrees_matched _ _ _ _ _ _ agrees
      exact ⟨rfl, rfl, rfl⟩
  | refuse item =>
    rw [Peg.cost] at enough
    obtain ⟨o, inner, agrees⟩ := hyp item mode ahead.refuse rest place nodes furthest founded (by omega)
    have quiet : (ahead.refuse != .none) = true := by cases ahead <;> rfl
    rw [quiet] at inner
    refine ⟨_, .refuse _ _ _ _ _ o inner, ?_⟩
    rw [run]
    cases outcome : run g fuel item mode ahead.refuse rest place nodes furthest with
    | failed furthest =>
      rw [outcome] at agrees
      cases agrees_failed _ _ _ agrees
      exact ⟨rfl, rfl, rfl⟩
    | matched after next before furthest =>
      rw [outcome] at agrees
      obtain ⟨m, rfl, _⟩ := agrees_matched _ _ _ _ _ _ agrees
      trivial

end

/-! The fuel of a text. -/

open Rule in
/-- The rules of the grammar by what they try before a character is taken. -/
def Es.ranking : Ranking Rule where
  empty
    | functionBody | endOfInput | program => true
    | _ => false
  rank
    | identifierName | keyword _ | thisExpression | nullLiteral | booleanLiteral | numericLiteral | stringLiteral
    | comma | postfixOperator | unaryOperator | operator _ | assignmentOperator => 20
    | identifier => 60
    | variableDeclaration | labelledStatement => 70
    | variableDeclarationList => 80
    | memberExpression => 80
    | newExpression => 90
    | leftHandSideExpression => 100
    | postfixExpression => 110
    | unaryExpression => 120
    | binaryExpression => 130
    | conditionalExpression => 140
    | assignmentExpression => 150
    | expression => 160
    | expressionStatement | forInit | forTest | forUpdate => 170
    | functionBody => 210
    | program => 220
    | _ => 50

theorem ecmascript_ranked : ecmascript.Ranked Es.ranking where
  empty name := by
    cases name with
    | keyword word => cases word <;> decide +kernel
    | operator op => cases op <;> decide +kernel
    | _ => decide +kernel
  rank name := by
    cases name with
    | keyword word => cases word <;> decide +kernel
    | operator op => cases op <;> decide +kernel
    | _ => decide +kernel
  founded name := by
    cases name with
    | keyword word => cases word <;> decide +kernel
    | operator op => cases op <;> decide +kernel
    | _ => decide +kernel

theorem rank_low (name : Rule) : Es.ranking.rank name ≤ 1000 := by
  cases name with
  | keyword word => cases word <;> decide
  | operator op => cases op <;> decide
  | _ => decide

theorem fuel_enough (name : Rule) (cs : List Char) :
    ((Peg.rule name).cost Es.ranking) + Ranking.most * cs.length ≤ fuelFor cs := by
  have low := rank_low name
  rw [Peg.cost, fuelFor, Ranking.most]
  omega

-- The nodes of a counted rule outside a lookahead are its own node.
theorem rule_node {ρ : Type} (g : Grammar ρ) (mode : Mode) (name : ρ) (rest : List Char) (place : Nat) (m : Match ρ)
    (counts : (g.kind name).counts mode = true) (found : Matches g mode false (.rule name) rest place (some m)) :
    ∃ n, Matches g ((g.kind name).inside mode) false (g.body name) rest place (some n) ∧
      m = ⟨n.rest, n.place, [.mk name place n.place rest n.nodes]⟩ := by
  obtain ⟨n, inner, rfl⟩ := rule_matched g _ _ _ _ _ m found
  refine ⟨n, inner, ?_⟩
  rw [counts]
  rfl

/-- A text is parsed by a rule exactly when the rule matches. -/
theorem parse_iff (name : Rule) (s : String) (node : Node Rule) :
    parse ecmascript name s = .ok node ↔
      ∃ m, Matches ecmascript .free false (.rule name) s.toList 0 (some m) ∧ m.nodes = [node] := by
  have founded : (Peg.rule name).founded Es.ranking = true :=
    decide_eq_true (Nat.lt_of_le_of_lt (Nat.zero_le _) (ecmascript_ranked.rank name))
  obtain ⟨o, found, agrees⟩ := run_agrees ecmascript Es.ranking ecmascript_ranked (fuelFor s.toList)
    (.rule name) .free .none s.toList 0 [] 0 founded (fuel_enough name s.toList)
  have counts : (ecmascript.kind name).counts .free = true := by
    cases ecmascript.kind name <;> rfl
  rw [parse]
  cases outcome : run ecmascript (fuelFor s.toList) (.rule name) .free .none s.toList 0 [] 0 with
  | failed furthest =>
    rw [outcome] at agrees
    cases agrees_failed _ _ _ agrees
    refine iff_of_false (by intro ok; cases ok) ?_
    rintro ⟨m, other, _⟩
    cases matches_once _ _ _ _ _ _ _ _ found other
  | matched rest place nodes furthest =>
    rw [outcome] at agrees
    obtain ⟨m, rfl, rfl, rfl, rfl⟩ := agrees_matched _ _ _ _ _ _ agrees
    obtain ⟨n, inner, rfl⟩ := rule_node ecmascript .free name _ _ m counts found
    constructor
    · intro ok
      exact ⟨_, found, congrArg (fun node => [node]) (Except.ok.inj ok)⟩
    · rintro ⟨m, other, only⟩
      cases matches_once _ _ _ _ _ _ _ _ found other
      cases only
      rfl

/-- A text is parsed exactly when a program matches. -/
theorem parse_program_iff (s : String) (node : Node Rule) :
    parseProgram s = .ok node ↔
      ∃ m, Matches ecmascript .free false (.rule .program) s.toList 0 (some m) ∧ m.nodes = [node] :=
  parse_iff .program s node

end Ecma.Grammar
