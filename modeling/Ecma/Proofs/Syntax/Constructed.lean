import Ecma.Proofs.Syntax.Splice
import Ecma.Proofs.Syntax.Strict

set_option autoImplicit false

/-!
A constructed function is the declaration around its texts. Its text is that declaration and nothing else, and
in it the body ends with the last brace, so the body is parsed as it is alone.
-/

namespace Ecma.Grammar

open Ecma.Text

/-! The words of the declaration. -/

/-- Two texts differ at a place that both have. -/
def clash : List Char → List Char → Bool
  | c :: cs, d :: ds => c != d || clash cs ds
  | _, _ => false

/-- The expression begins with something else than the text. -/
def Peg.misses (given : Rule → Bool) (text : List Char) : Es → Bool
  | .text cs => clash cs text
  | .rule name => given name
  | .seq first _ => first.misses given text
  | .choice first second => first.misses given text && second.misses given text
  | .look item => item.misses given text
  | _ => false

theorem clash_apart (cs text more : List Char) (clashes : clash cs text = true) : ¬ cs <+: text ++ more := by
  fun_induction clash cs text with
  | case1 c cs d ds hyp =>
    intro before
    obtain ⟨rfl, later⟩ := List.cons_prefix_cons.mp before
    rw [bne_self_eq_false, Bool.false_or] at clashes
    exact hyp clashes later
  | case2 => cases clashes

theorem misses_fails (given : Rule → Bool) (text more : List Char) (place : Nat)
    (known : ∀ name, given name = true → ∀ mode quiet,
      Matches ecmascript mode quiet (Es.body name) (text ++ more) place none)
    (e : Es) (misses : e.misses given text = true) (mode : Mode) (quiet : Bool) :
    Matches ecmascript mode quiet e (text ++ more) place none := by
  induction e generalizing quiet with
  | text cs =>
    have fails := Matches.token (g := ecmascript) mode quiet (.text cs) (text ++ more) place rfl
    rw [Peg.token?, take_text_none cs _ place (clash_apart cs text more misses)] at fails
    exact fails
  | rule name => exact .ruleFails _ _ _ _ _ (known name misses _ quiet)
  | seq first second hyp _ => exact .seqFails _ _ _ _ _ _ (hyp misses quiet)
  | choice first second hyp hyp' =>
    obtain ⟨one, two⟩ := (Bool.and_eq_true ..).mp misses
    exact .choiceSecond _ _ _ _ _ _ none (hyp one quiet) (hyp' two quiet)
  | look item hyp => exact .look _ _ _ _ _ none (hyp misses true)
  | _ => cases misses

/-- A keyword that begins with something else than the text. -/
def Rule.misses (text : List Char) (name : Rule) : Bool :=
  (Es.body name).misses (fun _ => false) text

/-- A rule that begins with something else than the text. -/
def Rule.avoids (text : List Char) (name : Rule) : Bool :=
  (Es.body name).misses (Rule.misses text) text

theorem avoids_fails (text more : List Char) (place : Nat) (name : Rule) (avoids : name.avoids text = true)
    (mode : Mode) (quiet : Bool) : Matches ecmascript mode quiet (.rule name) (text ++ more) place none := by
  refine .ruleFails _ _ _ _ _ (misses_fails _ text more place (fun word misses mode quiet => ?_) _ avoids _ quiet)
  exact misses_fails (fun _ => false) text more place (fun _ contra => nomatch contra) _ misses mode quiet

def Es.statementRules : List Rule :=
  [.block, .variableStatement, .emptyStatement, .functionDeclaration, .ifStatement, .doWhileStatement,
    .whileStatement, .forInStatement, .forStatement, .continueStatement, .breakStatement, .returnStatement,
    .withStatement, .switchStatement, .throwStatement, .tryStatement, .debuggerStatement, .labelledStatement,
    .expressionStatement]

theorem first_matched (mode : Mode) (quiet : Bool) (items : List Es) (rest : List Char) (place : Nat) (m : Match Rule)
    (found : Matches ecmascript mode quiet (Es.first items) rest place (some m)) :
    ∃ e ∈ items, Matches ecmascript mode quiet e rest place (some m) := by
  induction items with
  | nil =>
    obtain ⟨fails, _⟩ := refuse_matched ecmascript mode quiet _ rest place m found
    cases matches_once _ _ _ _ _ _ _ _ fails (.token mode true (.text []) rest place rfl)
  | cons e items hyp =>
    cases items with
    | nil => exact ⟨e, List.mem_cons_self, found⟩
    | cons f items =>
      rcases choice_matched mode quiet place e _ rest m found with left | ⟨_, right⟩
      · exact ⟨e, List.mem_cons_self, left⟩
      · obtain ⟨d, member, found⟩ := hyp right
        exact ⟨d, List.mem_cons_of_mem _ member, found⟩

-- A statement is the node of one of its rules.
theorem statement_matched (rest : List Char) (place : Nat) (m : Match Rule)
    (found : Matches ecmascript .free false Es.statement rest place (some m)) :
    ∃ name ∈ Es.statementRules, Matches ecmascript .free false (.rule name) rest place (some m) ∧
      ∃ node, m.nodes = [node] ∧ node.rule = name := by
  obtain ⟨e, member, found⟩ := first_matched .free false (Es.statementRules.map .rule) rest place m found
  obtain ⟨name, among, rfl⟩ := List.mem_map.mp member
  have counts : ∀ name ∈ Es.statementRules, (Es.kind name).counts .free = true := by
    decide +kernel
  obtain ⟨n, _, rfl⟩ := rule_node ecmascript .free name rest place m (counts name among) found
  exact ⟨name, among, found, _, rfl, rfl⟩

/-! Names and keywords. -/

theorem part_fails (quiet : Bool) (c : Char) (rest : List Char) (place : Nat) (other : isNamePart c = false)
    (plain : c ≠ '\\') : Matches ecmascript .token quiet Es.identifierPart (c :: rest) place none := by
  exact .choiceSecond _ _ _ _ _ _ none (char_fails .token quiet place isNamePart c rest other)
    (.seqFails _ _ _ _ _ _ (first_fails .token quiet place '\\' c ['u'] rest plain.symm))

theorem parts_match (quiet : Bool) (cs : List Char) (c : Char) (rest : List Char) (place : Nat)
    (letters : ∀ c ∈ cs, isNamePart c = true) (other : isNamePart c = false) (plain : c ≠ '\\') :
    ∃ next, Matches ecmascript .token quiet (.again Es.identifierPart) (cs ++ c :: rest) place
      (some ⟨c :: rest, next, []⟩) := by
  induction cs generalizing place with
  | nil => exact ⟨place, .againEnds _ _ _ _ _ (part_fails quiet c rest place other plain)⟩
  | cons d cs hyp =>
    obtain ⟨next, others⟩ := hyp (place + d.utf8Size) fun d member => letters d (List.mem_cons_of_mem _ member)
    exact ⟨next, .againMatches _ _ _ _ _ ⟨cs ++ c :: rest, place + d.utf8Size, []⟩ ⟨c :: rest, next, []⟩
      (.choiceFirst _ _ _ _ _ _ _ (char_matches .token quiet place isNamePart d _ (letters d List.mem_cons_self)))
      others⟩

-- An identifier goes to the end of its letters.
theorem identifier_matched (mode : Mode) (a : Char) (cs : List Char) (c : Char) (rest : List Char) (place : Nat)
    (m : Match Rule) (counts : (Es.kind .identifier).counts mode = true) (start : isNameStart a = true)
    (letters : ∀ c ∈ cs, isNamePart c = true) (other : isNamePart c = false) (plain : c ≠ '\\')
    (found : Matches ecmascript mode false (.rule .identifier) (a :: cs ++ c :: rest) place (some m)) :
    m.rest = c :: rest ∧ ∃ node, m.nodes = [node] := by
  obtain ⟨n, inner, rfl⟩ := rule_node ecmascript mode .identifier _ place m counts found
  obtain ⟨k, l, refused, named, rfl⟩ := seq_matched ecmascript .token false _ _ _ place n inner
  obtain ⟨_, rfl⟩ := refuse_matched ecmascript .token false _ _ place k refused
  obtain ⟨j, name, rfl⟩ := rule_matched ecmascript .token false _ _ place l named
  obtain ⟨next, parts⟩ := parts_match false cs c rest (place + a.utf8Size) letters other plain
  have whole := dry_seq .token false place token_dry Es.identifierStart (.star Es.identifierPart) (a :: cs ++ c :: rest)
    ⟨cs ++ c :: rest, place + a.utf8Size, []⟩ _
    (.choiceFirst _ _ _ _ _ _ _ (char_matches .token false place isNameStart a _ start))
    (dry_star .token false _ token_dry _ _ _ parts)
  cases matches_once _ _ _ _ _ _ _ _ name whole
  exact ⟨rfl, _, rfl⟩

-- A keyword is no identifier.
theorem keyword_matches (mode : Mode) (quiet : Bool) (word : Keyword) (c : Char) (rest : List Char) (place : Nat)
    (other : isNamePart c = false) (plain : c ≠ '\\') :
    ∃ m, Matches ecmascript mode quiet (.rule (.keyword word)) ((Es.keywordText word).toList ++ c :: rest) place (some m) := by
  have whole := dry_seq .token quiet place token_dry _ (.refuse Es.identifierPart) _ _ (some _)
    (text_matches quiet (Es.keywordText word).toList (c :: rest) place)
    (.refuse _ _ _ _ _ none (part_fails true c rest _ other plain))
  exact ⟨_, .ruleMatches _ _ _ _ _ _ whole⟩

theorem reserved_fails (mode : Mode) (quiet : Bool) (word : String) (reserved : word ∈ reservedWords) (c : Char)
    (rest : List Char) (place : Nat) (other : isNamePart c = false) (plain : c ≠ '\\') :
    Matches ecmascript mode quiet (.rule .identifier) (word.toList ++ c :: rest) place none := by
  obtain ⟨m, found⟩ := reserved_word_matches word reserved (c :: rest) place (part_fails true c rest _ other plain)
  exact .ruleFails _ _ _ _ _ (.seqFails _ _ _ _ _ _ (.refuse _ _ _ _ _ (some m) found))

/-- How the text of a constructed function begins. -/
def declarationHead : List Char :=
  'f' :: ("unction".toList ++ ' ' :: 'a' :: ("nonymous".toList ++ ['(']))

theorem declaration_first (more : List Char) (place : Nat) (m : Match Rule)
    (found : Matches ecmascript .free false Es.statement (declarationHead ++ more) place (some m)) :
    Matches ecmascript .free false (.rule .functionDeclaration) (declarationHead ++ more) place (some m) := by
  obtain ⟨name, among, found, _⟩ := statement_matched _ place m found
  have others : ∀ name ∈ Es.statementRules, name.avoids declarationHead = true ∨
      name ∈ [Rule.functionDeclaration, .labelledStatement, .expressionStatement] := by
    decide +kernel
  rcases others name among with avoids | left
  · cases matches_once _ _ _ _ _ _ _ _ found (avoids_fails declarationHead more place name avoids _ _)
  · simp only [List.mem_cons, List.not_mem_nil, or_false] at left
    have word : declarationHead ++ more = "function".toList ++ ' ' :: ("anonymous(".toList ++ more) := rfl
    rcases left with rfl | rfl | rfl
    · exact found
    · have fails := reserved_fails .free false "function" (by decide +kernel) ' ' ("anonymous(".toList ++ more) place
        (by decide +kernel) (by decide)
      cases matches_once _ _ _ _ _ _ _ _ found (.ruleFails _ _ _ _ _ (.seqFails _ _ _ _ _ _ fails))
    · obtain ⟨k, keyword⟩ := keyword_matches .tight true .function ' ' ("anonymous(".toList ++ more) place
        (by decide +kernel) (by decide)
      have brace := first_fails .tight true place '{' 'f' [] ("unction anonymous(".toList ++ more) (by decide)
      have refused := Matches.refuse _ false _ _ _ _ (.choiceSecond _ _ _ _ _ _ (some k) brace keyword)
      cases matches_once _ _ _ _ _ _ _ _ found (.ruleFails _ _ _ _ _ (.seqFails _ _ _ _ _ _ refused))

/-! The body. -/

-- A piece at the end of a text before a line end and a brace.
theorem end_trails (text last : List Char) (suffix : last <:+ text ++ ['\n', '}']) (solid : last ≠ []) :
    ∃ rest, Trails ['}'] rest last := by
  rcases List.suffix_or_suffix_of_suffix suffix (List.suffix_append text ['\n', '}']) with ⟨before, inside⟩ | ⟨rest, whole⟩
  · cases before with
    | nil =>
      rw [List.nil_append] at inside
      exact ⟨[], inside ▸ trails_before ['}'] []⟩
    | cons c before =>
      rw [List.cons_append] at inside
      obtain ⟨-, inside⟩ := List.cons.inj inside
      cases before with
      | nil =>
        rw [List.nil_append] at inside
        exact ⟨[], inside ▸ trails_gone ['}']⟩
      | cons d before =>
        rw [List.cons_append] at inside
        obtain ⟨-, inside⟩ := List.cons.inj inside
        exact absurd (List.append_eq_nil_iff.mp inside).2 solid
  · exact ⟨rest, whole ▸ trails_before ['}'] rest⟩

-- Some text is left in front of a brace.
theorem trails_solid (beyond rest : List Char) (solid : beyond ≠ []) : ¬ Trails beyond rest [] := by
  rintro ⟨tail, spent, rfl | ⟨_, rfl⟩⟩
  · cases (List.append_eq_nil_iff.mp spent.symm).2
  · exact solid (List.append_eq_nil_iff.mp spent.symm).2

theorem body_text (text : List Char) (m : Match Rule)
    (found : Matches ecmascript .free false (.rule .functionBody) (skipLayout true .nothing text 0).1
      (skipLayout true .nothing text 0).2 (some m))
    (spent : (skipLayout true .nothing m.rest m.place).1 = []) : ∃ node, BodyText text node ∧ m.nodes = [node] := by
  obtain ⟨n, inner, rfl⟩ := rule_node ecmascript .free .functionBody _ _ m rfl found
  have alone := Matches.ruleMatches (g := ecmascript) .tight false .functionBody _ _ n inner
  have last := after_layout false .ending n.rest n.place (some ⟨[], _, []⟩) (by
    rw [spent]
    exact .token .tight false .ending [] _ rfl)
  exact ⟨_, ⟨_, after_layout false _ text 0 _ (dry_seq .tight false _ tight_dry _ _ _ _ _ alone last), rfl⟩, rfl⟩

/-- The body of a declaration at the end of a text is parsed as it is alone. -/
theorem body_same (text last : List Char) (place next : Nat) (m' : Match Rule)
    (found : Matches ecmascript .free false (.rule .functionBody)
      (skipLayout true .nothing ('\n' :: text ++ ['\n', '}']) place).1
      (skipLayout true .nothing ('\n' :: text ++ ['\n', '}']) place).2 (some m'))
    (closes : (skipLayout true .nothing m'.rest m'.place).1 = '}' :: last)
    (spent : (skipLayout true .nothing last next).1 = []) :
    ∃ node, BodyText text node ∧ m'.nodes.map Node.shape = [node.shape] := by
  have begins : (skipLayout true .nothing ('\n' :: text ++ ['\n', '}']) place).1 =
      (skipLayout true .nothing (text ++ ['\n', '}']) 0).1 :=
    skip_is true _ _ place (.blank '\n' _ _ (by decide +kernel) (layout_skips true _ 0))
  have suffix : last <:+ text ++ ['\n', '}'] := by
    obtain ⟨blank, skips, _⟩ := skip_layout_takes true (text ++ ['\n', '}']) 0
    obtain ⟨cs, takes, _⟩ := match_takes ecmascript _ _ _ _ _ _ found m' rfl
    obtain ⟨blank', skips', _⟩ := skip_layout_takes true m'.rest m'.place
    rw [closes] at skips'
    refine ⟨blank ++ cs ++ blank' ++ ['}'], ?_⟩
    rw [skips, ← begins, takes.1, skips']
    simp only [List.append_assoc, List.cons_append, List.nil_append]
  -- Nothing is behind the brace, since something would be left of it.
  have gone : last = [] := by
    by_contra solid
    obtain ⟨rest, trails⟩ := end_trails text last suffix solid
    have skipped := skip_keeps true rest last 0 next trails
    rw [spent] at skipped
    exact trails_solid ['}'] _ (List.cons_ne_nil _ _) skipped
  rw [gone] at closes
  have braced : Braced false false 0 0 (.rule .functionBody) := .rule _ _ _ (by decide) (by decide)
  have balanced := match_balanced _ _ _ _ _ _ found false false 0 0 braced (fun contra => nomatch contra)
    (fun contra => nomatch contra) m' rfl
  have left : balance m'.rest = -1 := by
    rw [balance_skip true m'.rest m'.place, closes, brace_balance]
  have trails := skip_keeps true text (text ++ ['\n', '}']) 0 0 (trails_before ['}'] text)
  rw [← begins] at trails
  obtain ⟨o, alone, together⟩ := match_keeps _ _ _ _ _ _ found false false 0 0 braced (fun contra => nomatch contra)
    (fun contra => nomatch contra) (by omega) _ (skipLayout true .nothing text 0).2 trails
  obtain ⟨m, rfl, keeps⟩ := together_some _ o m' together
  have ends : (skipLayout true .nothing m.rest m.place).1 = [] := by
    obtain ⟨tail, same, stands⟩ := skip_keeps true m.rest m'.rest m.place m'.place keeps.1
    rw [closes] at same
    rcases stands with rfl | ⟨rest, _⟩
    · have sizes := congrArg List.length same
      rw [List.length_append] at sizes
      simp only [List.length_cons, List.length_nil] at sizes
      omega
    · exact rest
  obtain ⟨node, body, only⟩ := body_text text m alone ends
  refine ⟨node, body, ?_⟩
  rw [← keeps.2, only, List.map_singleton]

theorem shape_parts (a b : Node Rule) (same : a.shape = b.shape) : a.parts.map Node.shape = b.parts.map Node.shape := by
  obtain ⟨rule, start, stop, input, parts⟩ := a
  obtain ⟨rule', start', stop', input', parts'⟩ := b
  rw [Node.shape, Node.shape, shapes_map, shapes_map] at same
  injection same

/-! The declaration. -/

/-- The node of a function declaration with these parameters and these statements. -/
inductive Declares : Node Rule → List (Node Rule) → List (Node Rule) → Prop
  | mk (start stop startParams stopParams startBody stopBody : Nat) (input inputParams inputBody : List Char)
      (name : Node Rule) (params statements : List (Node Rule)) :
      Declares (.mk .functionDeclaration start stop input [name,
        .mk .formalParameters startParams stopParams inputParams params,
        .mk .functionBody startBody stopBody inputBody statements]) params statements

theorem skip_solid (c : Char) (rest : List Char) (place : Nat) (solid : isLayout true c = false) (plain : c ≠ '/') :
    (skipLayout true .nothing (c :: rest) place).1 = c :: rest := by
  refine skip_is true _ _ place (.stops _ ⟨?_, ?_, ?_⟩)
  · rintro d tail same
    cases same
    exact solid
  · rintro tail same
    exact absurd (List.cons.inj same).1 plain
  · rintro tail same
    exact absurd (List.cons.inj same).1 plain

theorem skip_blank (c : Char) (rest : List Char) (place next : Nat) (blank : isLayout true c = true) :
    (skipLayout true .nothing (c :: rest) place).1 = (skipLayout true .nothing rest next).1 :=
  skip_is true _ _ place (.blank c _ _ blank (layout_skips true rest next))

-- Where layout is free it is skipped behind an item.
theorem free_matched (first second : Es) (rest : List Char) (place : Nat) (m : Match Rule)
    (found : Matches ecmascript .free false (.seq first second) rest place (some m)) :
    ∃ n k, Matches ecmascript .free false first rest place (some n) ∧
      Matches ecmascript .free false second (skipLayout true .nothing n.rest n.place).1
        (skipLayout true .nothing n.rest n.place).2 (some k) ∧ m = ⟨k.rest, k.place, n.nodes ++ k.nodes⟩ :=
  seq_matched ecmascript .free false first second rest place m found

theorem char_matched (mode : Mode) (c : Char) (rest : List Char) (place : Nat) (m : Match Rule)
    (found : Matches ecmascript mode false (.text [c]) rest place (some m)) : rest = c :: m.rest ∧ m.nodes = [] :=
  text_matched mode false place [c] rest m found

theorem keyword_matched (word : Keyword) (rest : List Char) (place : Nat) (m : Match Rule)
    (found : Matches ecmascript .free false (Es.kw word) rest place (some m)) :
    (skipLayout true .nothing rest place).1 = (Es.keywordText word).toList ++ m.rest ∧ m.nodes = [] := by
  obtain ⟨n, k, ahead, taken, rfl⟩ := free_matched _ _ rest place m found
  cases look_matched .free false place _ _ n ahead
  obtain ⟨begins, silent⟩ := text_matched .free false _ _ _ k taken
  exact ⟨begins, silent⟩

-- The parameters in their parentheses.
theorem formal_parameters_matched (params more : List Char) (place : Nat) (m : Match Rule)
    (apart : (∃ nodes, ParameterText params nodes) ∨ Blunt params)
    (found : Matches ecmascript .free false (.rule .formalParameters) ('(' :: (params ++ Behind more)) place (some m)) :
    m.rest = more ∧ ∃ t nodes, m.nodes = [.mk .formalParameters place t ('(' :: (params ++ Behind more)) nodes] ∧
      ∃ alone, ParameterText params alone ∧ alone.map Node.shape = nodes.map Node.shape := by
  obtain ⟨n, inner, rfl⟩ := rule_node ecmascript .free .formalParameters _ place m rfl found
  obtain ⟨a, b, first, second, rfl⟩ := tight_matched false place _ _ _ n inner
  obtain ⟨begins, silent⟩ := char_matched .tight '(' _ place a first
  obtain ⟨-, begins⟩ := List.cons.inj begins
  obtain ⟨c, d, third, fourth, rfl⟩ := tight_matched false _ _ _ _ b second
  cases layout_matched .tight false _ true _ c third
  obtain ⟨e, f, fifth, sixth, rfl⟩ := tight_matched false _ _ _ _ d fourth
  obtain ⟨g, h, seventh, eighth, rfl⟩ := tight_matched false _ _ _ _ f sixth
  cases layout_matched .tight false _ true _ g seventh
  obtain ⟨closes, silent'⟩ := char_matched .tight ')' _ _ h eighth
  rw [← begins] at fifth
  obtain ⟨rfl, alone, list, shapes⟩ := parameters_same more params h.rest a.place e apart fifth closes
  refine ⟨rfl, h.place, e.nodes, ?_, alone, list, shapes⟩
  dsimp only
  rw [silent, silent', List.nil_append, List.nil_append, List.nil_append, List.append_nil]

/-- The declaration around the texts of a constructed function has the parameters and the statements that
they have alone. -/
theorem declaration_matched (params text : List Char) (place next : Nat) (m : Match Rule)
    (apart : (∃ nodes, ParameterText params nodes) ∨ Blunt params)
    (found : Matches ecmascript .free false (.rule .functionDeclaration)
      (declarationHead ++ (params ++ Behind (' ' :: '{' :: '\n' :: text ++ ['\n', '}']))) place (some m))
    (spent : (skipLayout true .nothing m.rest next).1 = []) :
    ∃ node nodes statements, m.nodes = [node] ∧ Declares node nodes statements ∧
      (∃ alone, ParameterText params alone ∧ alone.map Node.shape = nodes.map Node.shape) ∧
      ∃ body, BodyText text body ∧ body.parts.map Node.shape = statements.map Node.shape := by
  generalize behind : Behind (' ' :: '{' :: '\n' :: text ++ ['\n', '}']) = tail at found
  obtain ⟨n, inner, rfl⟩ := rule_node ecmascript .free .functionDeclaration _ place m rfl found
  obtain ⟨a, b, keyword, others, rfl⟩ := free_matched _ _ _ place n inner
  obtain ⟨begins, silent⟩ := keyword_matched .function _ place a keyword
  have begins : ' ' :: ('a' :: "nonymous".toList ++ '(' :: (params ++ tail)) = a.rest := by
    rw [declarationHead, List.cons_append, skip_solid 'f' _ _ (by decide +kernel) (by decide)] at begins
    exact (List.append_right_inj "function".toList).mp begins
  obtain ⟨c, d, name, more, rfl⟩ := free_matched _ _ _ _ b others
  rw [← begins, skip_blank ' ' _ _ 0 (by decide +kernel), List.cons_append,
    skip_solid 'a' _ _ (by decide +kernel) (by decide)] at name
  obtain ⟨left, title, titled⟩ := identifier_matched .free 'a' "nonymous".toList '(' (params ++ tail) _ c rfl
    (by decide +kernel) (List.all_eq_true.mp (by decide +kernel)) (by decide +kernel) (by decide) name
  obtain ⟨e, f, formals, braced, rfl⟩ := free_matched _ _ _ _ d more
  rw [left, skip_solid '(' _ _ (by decide +kernel) (by decide), ← behind] at formals
  obtain ⟨after, t, nodes, listed, alone, list, shapes⟩ := formal_parameters_matched params _ _ e apart formals
  obtain ⟨g, h, opens, inBraces, rfl⟩ := free_matched _ _ _ _ f braced
  obtain ⟨inside, silent'⟩ := char_matched .free '{' _ _ g opens
  rw [after, List.cons_append, skip_blank ' ' _ _ 0 (by decide +kernel), List.cons_append,
    skip_solid '{' _ _ (by decide +kernel) (by decide)] at inside
  obtain ⟨-, inside⟩ := List.cons.inj inside
  obtain ⟨i, k, body, closes, rfl⟩ := free_matched _ _ _ _ h inBraces
  obtain ⟨closes, silent''⟩ := char_matched .free '}' _ _ k closes
  rw [← inside] at body
  obtain ⟨only, bodyText, same⟩ := body_same text k.rest g.place next i body closes spent
  obtain ⟨j, _, rfl⟩ := rule_node ecmascript .free .functionBody _ _ i rfl body
  refine ⟨_, nodes, j.nodes, rfl, ?_, ⟨alone, list, shapes⟩, only, bodyText, ?_⟩
  · change Declares (.mk _ _ _ _ (a.nodes ++ (c.nodes ++ (e.nodes ++ (g.nodes ++ (_ ++ k.nodes)))))) nodes j.nodes
    rw [silent, titled, listed, silent', silent'']
    exact .mk ..
  · exact (shape_parts _ _ (List.cons.inj same).1).symm

/-! The text. -/

/-- A node that stands for some of the text. -/
def Node.isStatement (node : Node Rule) : Bool :=
  node.rule != .endOfInput

theorem statement_node (rest : List Char) (place : Nat) (m : Match Rule)
    (found : Matches ecmascript .free false Es.statement rest place (some m)) :
    ∃ node, m.nodes = [node] ∧ node.isStatement = true := by
  obtain ⟨name, among, _, node, only, rfl⟩ := statement_matched rest place m found
  have others : ∀ name ∈ Es.statementRules, name ≠ .endOfInput := by
    decide +kernel
  exact ⟨node, only, bne_iff_ne.mpr (others _ among)⟩

-- Statements of which there is one.
theorem one_statement (rest : List Char) (place : Nat) (m : Match Rule)
    (found : Matches ecmascript .free false (.star Es.statement) rest place (some m))
    (single : (m.nodes.filter Node.isStatement).length = 1) :
    Matches ecmascript .free false Es.statement rest place (some m) := by
  generalize same : some m = o at found
  cases found with
  | token _ _ _ _ _ isToken => cases isToken
  | starEnds _ _ _ _ _ inner =>
    cases same
    cases single
  | starMatches _ _ _ _ _ k n inner others =>
    cases same
    obtain ⟨node, only, isStatement⟩ := statement_node rest place k inner
    rw [only, List.singleton_append, List.filter_cons_of_pos isStatement, List.length_cons] at single
    generalize ended : some n = o at others
    cases others with
    | token _ _ _ _ _ isToken => cases isToken
    | againEnds =>
      cases ended
      rw [List.append_nil]
      exact inner
    | againMatches _ _ _ _ _ j l another =>
      cases ended
      obtain ⟨second, also, isStatement'⟩ := statement_node _ _ j another
      rw [also, List.singleton_append, List.filter_cons_of_pos isStatement', List.length_cons] at single
      omega

/-- A constructed function that is a single statement is the declaration of its texts. -/
theorem text_declares (params text : List Char) (m : Match Rule) (node : Node Rule)
    (apart : (∃ nodes, ParameterText params nodes) ∨ Blunt params)
    (found : Matches ecmascript .free false (.rule .program)
      (declarationHead ++ (params ++ Behind (' ' :: '{' :: '\n' :: text ++ ['\n', '}']))) 0 (some m))
    (only : m.nodes = [node]) (single : (node.parts.filter Node.isStatement).length = 1) :
    ∃ declared nodes statements, node.parts.filter Node.isStatement = [declared] ∧ Declares declared nodes statements ∧
      (∃ alone, ParameterText params alone ∧ alone.map Node.shape = nodes.map Node.shape) ∧
      ∃ body, BodyText text body ∧ body.parts.map Node.shape = statements.map Node.shape := by
  generalize behind : Behind (' ' :: '{' :: '\n' :: text ++ ['\n', '}']) = tail at found
  obtain ⟨n, inner, rfl⟩ := rule_node ecmascript .free .program _ 0 m rfl found
  obtain ⟨a, b, begins, others, rfl⟩ := free_matched _ _ _ 0 n inner
  cases matches_once _ _ _ _ _ _ _ _ begins (.token .free false .beginning _ 0 rfl)
  obtain ⟨c, d, statements, ends, rfl⟩ := free_matched _ _ _ _ b others
  obtain ⟨e, ending, rfl⟩ := rule_node ecmascript .free .endOfInput _ _ d rfl ends
  obtain ⟨spent, rfl⟩ := ending_matched .free false _ _ e ending
  cases only
  have parts (end_ : Node Rule) (isEnd : end_.isStatement = false) :
      (([] : List (Node Rule)) ++ (c.nodes ++ [end_])).filter Node.isStatement = c.nodes.filter Node.isStatement := by
    rw [List.nil_append, List.filter_append, List.filter_singleton, isEnd]
    exact List.append_nil _
  change (List.filter Node.isStatement ([] ++ (c.nodes ++ [_]))).length = 1 at single
  change ∃ declared nodes statements, List.filter Node.isStatement ([] ++ (c.nodes ++ [_])) = [declared] ∧ _
  rw [parts _ rfl] at single ⊢
  have skipped : (skipLayout true .nothing (declarationHead ++ (params ++ tail)) 0).1 = declarationHead ++ (params ++ tail) :=
    skip_solid 'f' _ 0 (by decide +kernel) (by decide)
  dsimp only at statements spent
  rw [skipped] at statements
  have declared := declaration_first _ _ c (one_statement _ _ c statements single)
  rw [← behind] at declared
  obtain ⟨node, nodes, inside, only, declares, list, body⟩ := declaration_matched params text _ _ c apart declared spent
  refine ⟨node, nodes, inside, ?_, declares, list, body⟩
  rw [only, List.filter_singleton] at single ⊢
  cases kept : node.isStatement with
  | false =>
    rw [kept] at single
    cases single
  | true => rfl

-- The nodes of parameters are identifiers.
theorem parameter_nodes (text : List Char) (nodes : List (Node Rule)) (list : ParameterText text nodes) :
    ∀ node ∈ nodes, node.rule = .identifier := by
  obtain ⟨m, found, rfl⟩ := list
  have records := match_records ecmascript text _ _ _ _ _ _ found ⟨[], rfl, rfl⟩ m rfl
  intro node member
  have offered := leaves_offered ecmascript .tight _ _ (records.leaves rfl) _ (List.mem_map_of_mem member)
  have identifiers : (Es.all [Es.sp, Es.parameterList, Es.sp, .ending]).offers ecmascript .tight =
      [.identifier, .identifier] := rfl
  rw [identifiers] at offered
  simpa only [List.mem_cons, List.not_mem_nil, or_false, or_self] using offered

-- A token of the same shape has the same text.
theorem shape_chars (a b : Node Rule) (token : Es.kind a.rule = .token) (same : a.shape = b.shape) : a.chars = b.chars := by
  obtain ⟨rule, start, stop, input, parts⟩ := a
  obtain ⟨rule', start', stop', input', parts'⟩ := b
  rw [Node.shape, Node.shape] at same
  injection same with rules texts
  cases rules
  change Es.kind rule = .token at token
  rw [if_pos token, if_pos token] at texts
  exact texts

end Ecma.Grammar

namespace Ecma.Syntax

open Ecma.Grammar Ecma.Scope Ecma.Text Build

theorem function_text_is (params body : String) : (functionText params body).toList =
    declarationHead ++ (params.toList ++ Behind (' ' :: '{' :: '\n' :: body.toList ++ ['\n', '}'])) := by
  have first : "function anonymous(".toList = declarationHead := by
    decide +kernel
  have second : "\n) \x7b\n".toList = '\n' :: ')' :: ' ' :: '{' :: ['\n'] := by
    decide +kernel
  have third : "\n\x7d".toList = '\n' :: ['}'] := by
    decide +kernel
  have whole : (functionText params body).toList = "function anonymous(".toList ++ params.toList ++
      "\n) \x7b\n".toList ++ body.toList ++ "\n\x7d".toList := by
    delta functionText
    rw [String.toList_append, String.toList_append, String.toList_append, String.toList_append]
  rw [whole, first, second, third]
  simp only [List.append_assoc, List.cons_append, List.nil_append]

/-! The code. -/

/-- The code of a function has the parameters and the statements of these nodes. -/
def Code.BuiltOf (code : Code) (params nodes : Nodes) : Prop :=
  List.Forall₂ (fun node name => decodeIdentifier node.chars = .ok name) params code.header.params ∧
    ∃ b after, b.code = { id := b.code.id, kind := .function, strict := hasUseStrict nodes, scope := b.code.scope } ∧
      statements true nodes b = .ok code.body after ∧ code.functions = after.code.functions

theorem statements_length (top : Bool) (nodes : Nodes) (b after : Builder) (list : List Statement)
    (ended : statements top nodes b = .ok list after) : nodes.length = list.length := by
  induction nodes generalizing b list with
  | nil =>
    rw [statements] at ended
    cases ended
    rfl
  | cons node rest hyp =>
    rw [statements] at ended
    obtain ⟨s, between, _, ended⟩ := build_bind _ _ b after list ended
    obtain ⟨others, last, second, ended⟩ := build_bind _ _ between after list ended
    cases ended
    rw [List.length_cons, List.length_cons, hyp between others second]

theorem parameters_decoded (strict : Bool) (nodes : Nodes) (before names : List String) (b after : Builder)
    (ended : parameters strict nodes before b = .ok names after) :
    ∃ more, names = before ++ more ∧
      List.Forall₂ (fun node name => decodeIdentifier node.chars = .ok name) nodes more := by
  induction nodes generalizing b before with
  | nil =>
    rw [parameters] at ended
    cases ended
    exact ⟨[], (List.append_nil _).symm, .nil⟩
  | cons node rest hyp =>
    rw [parameters] at ended
    obtain ⟨name, between, first, ended⟩ := build_bind _ _ b after names ended
    dsimp only at ended
    split at ended
    · obtain ⟨_, _, failed, _⟩ := build_bind _ _ between after names ended
      cases failed
    · obtain ⟨more, rfl, decoded⟩ := hyp (before ++ [name]) between ended
      refine ⟨name :: more, ?_, .cons (binding_name_is node strict b between name first) decoded⟩
      rw [List.append_assoc, List.singleton_append]

theorem declared_built (declared : Node Rule) (params nodes : Nodes) (declares : Declares declared params nodes)
    (b after : Builder) (list : List Statement) (sloppy : b.code.strict = false)
    (ended : statements true [declared] b = .ok list after) :
    ∃ code before, after.code.functions = before ++ [code] ∧ code.BuiltOf params nodes := by
  rw [statements] at ended
  obtain ⟨s, between, first, ended⟩ := build_bind _ _ b after list ended
  obtain ⟨others, last, second, ended⟩ := build_bind _ _ between after list ended
  rw [statements] at second
  cases second
  cases ended
  cases declares with
  | mk start stop _ _ _ _ input _ _ name params nodes =>
    rw [statement] at first
    obtain ⟨_, _, nested, first⟩ := build_bind _ _ b after s first
    cases nested
    obtain ⟨_, _, outer, first⟩ := build_bind _ _ b after s first
    cases outer
    obtain ⟨code, inner, built, ended⟩ := build_bind _ _ b after s first
    cases ended
    obtain ⟨title, b₁, b₂, last, names, body, _, listed, runs, rfl, rfl⟩ :=
      function_code_is _ _ params _ nodes _ b inner code built
    rw [sloppy, Bool.false_or] at listed runs
    obtain ⟨more, rfl, decoded⟩ := parameters_decoded _ params [] names b₁ b₂ listed
    exact ⟨_, b₂.code.functions, rfl, decoded, _, last, rfl, runs, rfl⟩

-- Identifiers of the same shapes have the same names.
theorem decoded_same (alone nodes : Nodes) (names : List String) (identifiers : ∀ node ∈ alone, node.rule = .identifier)
    (shapes : alone.map Node.shape = nodes.map Node.shape)
    (decoded : List.Forall₂ (fun node name => decodeIdentifier node.chars = .ok name) nodes names) :
    List.Forall₂ (fun node name => decodeIdentifier node.chars = .ok name) alone names := by
  induction decoded generalizing alone with
  | nil =>
    cases List.map_eq_nil_iff.mp shapes
    exact .nil
  | cons one _ hyp =>
    obtain ⟨node, others, rfl, same, rest⟩ := List.map_eq_cons_iff.mp shapes
    have token : Es.kind node.rule = .token := by
      rw [identifiers node List.mem_cons_self]
      rfl
    refine .cons ?_ (hyp others (fun other member => identifiers other (List.mem_cons_of_mem _ member)) rest)
    rw [shape_chars node _ token same]
    exact one

/-- A constructed function is what its two texts are by themselves, unless the text of its parameters is no list
of parameters and has a closing parenthesis or the beginning of a comment. -/
theorem constructed_apart (params body : String) (collapse : Bool) (parsed : Parsed)
    (accepted : parseFunction params body collapse = .ok parsed)
    (apart : (∃ nodes, ParameterText params.toList nodes) ∨ Blunt params.toList) :
    ∃ nodes bodyNode inside, ParameterText params.toList nodes ∧ BodyText body.toList bodyNode ∧
      inside.map Node.shape = bodyNode.parts.map Node.shape ∧ parsed.code.BuiltOf nodes inside := by
  rw [parse_function_is, builtFunction] at accepted
  cases unit : built ⟨"<function>", functionText params body⟩ .global false true with
  | error e =>
    rw [unit] at accepted
    cases accepted
  | ok whole =>
  rw [unit] at accepted
  change whole.onlyFunction.map (Parsed.analyzed collapse) = .ok parsed at accepted
  obtain ⟨node, nodes, list, inner, text, same, ends, rfl⟩ := built_is _ _ _ _ whole unit
  rw [Parsed.onlyFunction] at accepted
  split at accepted
  · rename_i s f single only
    cases accepted
    change list = [s] at single
    change inner.code.functions = [f] at only
    obtain ⟨m, found, alone⟩ := (parse_program_iff _ node).mp text
    rw [function_text_is] at found
    have count := statements_length true nodes _ inner list ends
    rw [single, same] at count
    obtain ⟨declared, params', inside, one, declares, ⟨nodes', listed, shapes⟩, bodyNode, bodyText, shapes'⟩ :=
      text_declares params.toList body.toList m node apart found alone count
    rw [same.trans one] at ends
    have sloppy : hasUseStrict [declared] = false := by
      cases declares
      rfl
    obtain ⟨code, before, functions, decoded, run⟩ := declared_built declared params' inside declares _ inner list sloppy ends
    rw [functions] at only
    rcases List.append_eq_singleton_iff.mp only with ⟨-, last⟩ | ⟨-, contra⟩
    swap
    · cases contra
    obtain ⟨rfl, -⟩ := List.cons.inj last
    refine ⟨nodes', bodyNode, inside, listed, bodyText, shapes'.symm, ?_, run⟩
    exact decoded_same nodes' params' _ (parameter_nodes _ nodes' listed) shapes decoded
  · cases accepted

theorem constructed_apart_sum : ∃ parsed, parseFunction "a, b" "return a + b" true = .ok parsed ∧
    ∃ nodes bodyNode inside, ParameterText "a, b".toList nodes ∧ BodyText "return a + b".toList bodyNode ∧
      inside.map Node.shape = bodyNode.parts.map Node.shape ∧ parsed.code.BuiltOf nodes inside := by
  have found : (parseFunction "a, b" "return a + b" true).toOption.isSome = true := by
    decide +kernel
  cases parses : parseFunction "a, b" "return a + b" true with
  | error e =>
    rw [parses] at found
    cases found
  | ok parsed =>
    have blunt : Blunt "a, b".toList := by
      refine ⟨by decide +kernel, ?_⟩
      decide +kernel
    exact ⟨parsed, rfl, constructed_apart "a, b" "return a + b" true parsed parses (.inr blunt)⟩

-- A comment that begins among the parameters and ends in the body hides the words between them.
example : (parseFunction "/*" "*/)\x7b" true).toOption.map (fun parsed => parsed.code.header.params) = some [] := by
  decide +kernel

end Ecma.Syntax
